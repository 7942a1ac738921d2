import CommonDecl.Proofs.Translation
import CommonDecl.Proofs.Written

/-!
# Translations that are read again

Statements of simple declarators are written, each with a `;`, as a source of C that is read as
statements which are written in the same way (`Declaration.exists_ofSource`).  What a source of
Fortran is translated to is such statements, where the words and symbols it is written in mean the
same in C (`Declaration.ofSource_statementsText`).
-/

namespace CommonDecl

open TokenTree (items afterCommas)

variable {scope : Scope} {rolesOf : Token → Roles}

/-- The symbols of a statement stand for themselves in the scope. -/
structure Scope.PlainSymbols (scope : Scope) : Prop where
  comma : scope.Plain ","
  semicolon : (scope.keywords .c).isQualifier ";" = false
  star : scope.knows "*" = false
  ampersand : scope.knows "&" = false

/-! ### One statement -/

namespace Declarator

/-- A comma or a `;` with no body behind it may follow a declarator. -/
theorem follows_cons {text : String} (htext : text = "," ∨ text = ";") {rest : Level}
    (hrest : rest.NoGroup .brace) : Follows (.token text {} :: rest) where
  stops := by
    rintro item ⟨⟩
    refine ⟨rfl, rfl, rfl, fun heq => ?_⟩
    obtain rfl : text = "..." := heq
    exact absurd htext (by decide)
  endsDeclarator := by
    rcases htext with rfl | rfl
    · rfl
    · rfl
  not_isUnresolved := rfl
  noBrace_next := hrest

/-- What follows the first declarator of a statement, up to its end and past it. -/
theorem follows_afterCommas (hroles : Respects scope rolesOf) (hcomma : scope.Plain ",")
    {parts : List (List TokenTree)}
    (h : ∀ part ∈ parts, ∀ item ∈ items rolesOf part, item.isGroup .brace = false) {rest : Level}
    (hrest : rest.NoGroup .brace) :
    Follows (items rolesOf (afterCommas scope scope.knows parts) ++ Level.ofSemicolon rest) := by
  cases parts with
  | nil => exact follows_cons (Or.inr rfl) hrest
  | cons part parts =>
    rw [items_afterCommas_cons hroles hcomma]
    have hstops :
        Stops (items rolesOf (afterCommas scope scope.knows parts) ++ Level.ofSemicolon rest) :=
      stops_afterCommas hroles hcomma parts rest
    exact follows_cons (Or.inl rfl)
      (noGroup_of_noBraces (h part List.mem_cons_self) (Level.noGroup_of_stops hstops .brace))

end Declarator

open Declarator

namespace Declaration

variable (scope rolesOf) in
/-- A statement is written as the trees, from which one is read that is written in the same way. -/
structure ReadsAgain (declaration : Declaration) (trees : List TokenTree) : Prop where
  exists_cons : ∃ item rest, items rolesOf trees = item :: rest ∧ item.isToken ";" = false
  noBrace : Level.NoGroup .brace (items rolesOf trees)
  writes : Writes (scope.keywords .c) scope.knows (declaration.render 0) trees
  exists_read : ∀ rest : Level, rest.NoGroup .brace → ∃ reread,
    Declaration.read (items rolesOf trees ++ Level.ofSemicolon rest) scope =
      .ok (reread, rest) scope ∧
      reread.render 0 = declaration.render 0

/-- The further declarators of a statement are read as ones that are written in the same way. -/
theorem exists_readFurther (hroles : Respects scope rolesOf) (hcomma : scope.Plain ",")
    {further : List Declarator} {partOf : Declarator → List TokenTree}
    (h : ∀ declarator ∈ further, ReadsFurther scope rolesOf declarator (partOf declarator))
    (first : Declarator) (rest : Level) :
    ∃ others, readFurther scope first first
        (items rolesOf (afterCommas scope scope.knows (further.map partOf)) ++
          Level.ofSemicolon rest) =
          .ok (others, Level.ofSemicolon rest) ∧
      others.map (Declarator.render false) = further.map (Declarator.render false) := by
  -- What is read for a part is written like every declarator that the part was written from.
  obtain ⟨others, hread, hall⟩ : ∃ others, readFurther scope first first
      (items rolesOf (afterCommas scope scope.knows (further.map partOf)) ++
        Level.ofSemicolon rest) =
        .ok (others, Level.ofSemicolon rest) ∧
      List.Forall₂ (fun part other => ∀ declarator, ReadsFurther scope rolesOf declarator part →
        other.render false = declarator.render false) (further.map partOf) others := by
    refine readFurther_items hroles hcomma
      (List.forall_mem_map.mpr fun declarator hmem stop hstop => ?_) first rest
    obtain ⟨other, hother, -⟩ := (h declarator hmem).exists_read first stop hstop
    refine ⟨other, hother, fun same hsame => ?_⟩
    obtain ⟨found, hfound, hrender⟩ := hsame.exists_read first stop hstop
    rw [hother] at hfound
    cases hfound
    exact hrender
  refine ⟨others, hread, ?_⟩
  clear hread
  induction further generalizing others with
  | nil =>
    cases hall
    rfl
  | cons declarator further ih =>
    rw [List.forall_mem_cons] at h
    cases hall with
    | cons hother hothers =>
      rw [List.map_cons, List.map_cons, hother declarator h.1, ih h.2 _ hothers]

/-- Further parts start with a comma. -/
theorem exists_items_afterCommas (hroles : Respects scope rolesOf) (hcomma : scope.Plain ",")
    {parts : List (List TokenTree)} (h : parts ≠ []) :
    ∃ rest, items rolesOf (afterCommas scope scope.knows parts) = .token "," {} :: rest := by
  obtain ⟨part, parts, rfl⟩ := List.exists_cons_of_ne_nil h
  have hitems : items rolesOf (afterCommas scope scope.knows (part :: parts)) ++ [] = _ :=
    items_afterCommas_cons hroles hcomma part parts []
  rw [List.append_nil] at hitems
  exact ⟨_, hitems⟩

/-- A statement of simple declarators is read again, if it declares a name. -/
theorem exists_readsAgain (hroles : Respects scope rolesOf) (hsymbols : scope.PlainSymbols)
    {first : Declarator} {further : List Declarator} (hfirst : IsSimple scope first)
    (hvariables : "typedef" ∉ first.left.toList) (htyped : IsTyped scope first)
    (hfurther : ∀ declarator ∈ further, IsSimple scope declarator)
    (hnamed : (names (first :: further)).declaredNames ≠ []) :
    ∃ trees, ReadsAgain scope rolesOf (.names (first :: further)) trees := by
  obtain ⟨head, hhead⟩ := hfirst.exists_first hroles hsymbols.comma hsymbols.star hsymbols.ampersand
    hvariables htyped
  obtain ⟨partOf, hparts⟩ : ∃ partOf : Declarator → List TokenTree,
      ∀ declarator ∈ further, ReadsFurther scope rolesOf declarator (partOf declarator) := by
    choose! partOf hpartOf using fun declarator (h : IsSimple scope declarator) =>
      h.exists_further hroles hsymbols.comma
    exact ⟨partOf, fun declarator hmem => hpartOf declarator (hfurther declarator hmem)⟩
  have hitems :=
    TokenTree.items_append rolesOf head (afterCommas scope scope.knows (further.map partOf))
  have hnoBraces : ∀ part ∈ further.map partOf, ∀ item ∈ items rolesOf part,
      item.isGroup .brace = false :=
    List.forall_mem_map.mpr fun declarator hmem => (hparts declarator hmem).noBraces
  -- A first declarator without names is not the only one, since the statement declares a name.
  have hmore : first.declaredNames = [] → further.map partOf ≠ [] := by
    intro hnone hnil
    refine hnamed ?_
    rw [declaredNames, Declarator.declaredNamesOf, hnone, List.map_eq_nil_iff.mp hnil]
    rfl
  refine ⟨head ++ afterCommas scope scope.knows (further.map partOf), ?_, ?_, ?_, ?_⟩
  -- The statement starts with its first declarator or, where that is empty, with a comma.
  · rw [hitems]
    cases head with
    | nil =>
      obtain ⟨core, hcore, hkeeps⟩ := hhead.exists_core
      obtain rfl : core = [] := List.suffix_nil.mp hcore
      obtain ⟨rest, hrest⟩ :=
        exists_items_afterCommas hroles hsymbols.comma (hmore hkeeps.declaredNames_of_nil)
      exact ⟨_, rest, hrest, rfl⟩
    | cons tree trees => exact ⟨_, _, rfl, hhead.not_semicolon _ rfl⟩
  -- No body stands in front of a statement of declarators.
  · rw [hitems]
    refine noGroup_of_noBraces hhead.noBraces ?_
    by_cases hempty : further.map partOf = []
    · rw [hempty]
      exact Level.noGroup_nil
    · obtain ⟨rest, hrest⟩ := exists_items_afterCommas hroles hsymbols.comma hempty
      rw [hrest]
      rintro item ⟨⟩
      rfl
  -- Its text writes the first declarator and then the further ones.
  · rw [Declaration.render]
    exact Writes.append_further hhead.writes
      (List.forall₂_map_left_iff.mpr
        (List.forall₂_same.mpr fun declarator hmem => (hparts declarator hmem).writes))
  -- It is read as variables, each of them written as before.
  · intro rest hrest
    have hfollows := follows_afterCommas hroles hsymbols.comma hnoBraces hrest
    have hlookup : first.declaredNames = [] → ∀ item ∈ (items rolesOf (afterCommas scope scope.knows
        (further.map partOf)) ++ Level.ofSemicolon rest).head?, scope.lookup item.value = none := by
      intro hnone
      obtain ⟨others, hothers⟩ := exists_items_afterCommas hroles hsymbols.comma (hmore hnone)
      rw [hothers]
      rintro item ⟨⟩
      exact Scope.lookup_of_not_knows hsymbols.comma.not_known
    obtain ⟨start, hstart, hrender⟩ := hhead.exists_read _ hfollows hlookup
    obtain ⟨others, hothers, hrenders⟩ := exists_readFurther hroles hsymbols.comma hparts start rest
    have hvariables : readVariables scope (items rolesOf head ++
        (items rolesOf (afterCommas scope scope.knows (further.map partOf)) ++
          Level.ofSemicolon rest)) =
        .ok (.names (start :: others), Level.ofSemicolon rest) := by
      rw [readVariables, hstart]
      dsimp only [bind, Except.bind]
      rw [hothers]
      rfl
    refine ⟨.names (start :: others), ?_, ?_⟩
    · rw [hitems, List.append_assoc,
        read_of_variables (hhead.not_isDeclaredAt _ hfollows) hvariables, afterSemicolon_semicolon]
    · rw [Declaration.render, Declaration.render, hrender, furtherText_congr hrenders]

/-! ### All statements -/

/-- Statements as a source of C. -/
def statementsText (declarations : List Declaration) : String :=
  String.join (declarations.map fun declaration => declaration.render 0 ++ ";")

/-- Statements that are read again are, one after the other. -/
theorem exists_readAll (hroles : Respects scope rolesOf)
    (hsemicolon : (scope.keywords .c).isQualifier ";" = false)
    {declarations : List Declaration}
    (h : ∀ declaration ∈ declarations, ∃ trees, ReadsAgain scope rolesOf declaration trees) :
    ∃ trees reread, Writes (scope.keywords .c) scope.knows (statementsText declarations) trees ∧
      Level.NoGroup .brace (items rolesOf trees) ∧
      readAll .c scope (items rolesOf trees) = ⟨reread, none, scope⟩ ∧
      reread.map (Declaration.render 0) = declarations.map (Declaration.render 0) := by
  -- By induction on the statements, of which the first is followed by the `;` and the others.
  induction declarations with
  | nil => exact ⟨[], [], writes_empty, Level.noGroup_nil, readAll_of_atEnd rfl scope, rfl⟩
  | cons declaration declarations ih =>
    rw [List.forall_mem_cons] at h
    obtain ⟨⟨statement, hstatement⟩, hothers⟩ := h
    obtain ⟨trees, reread, hwrites, hbrace, hreadAll, hrenders⟩ := ih hothers
    obtain ⟨item, rest, hstart, hnotSemicolon⟩ := hstatement.exists_cons
    obtain ⟨again, hread, hrender⟩ := hstatement.exists_read _ hbrace
    have hitems : items rolesOf (statement ++ ([TokenTree.symbol scope scope.knows ";"] ++ trees)) =
        items rolesOf statement ++ Level.ofSemicolon (items rolesOf trees) := by
      rw [TokenTree.items_append, TokenTree.items_append, items_singleton_append,
        TokenTree.item_symbol hroles, hsemicolon]
      rfl
    -- The statement does not start with a `;`, so it is not taken for an empty one.
    have hnotEmpty :
        afterEmptyStatements (items rolesOf statement ++ Level.ofSemicolon (items rolesOf trees)) =
        items rolesOf statement ++ Level.ofSemicolon (items rolesOf trees) := by
      rw [hstart, afterEmptyStatements, List.cons_append,
        List.dropWhile_cons_of_neg (by simp [hnotSemicolon])]
    have hnext :
        next? .c (items rolesOf statement ++ Level.ofSemicolon (items rolesOf trees)) scope =
        .ok (some (again, items rolesOf trees)) scope := by
      refine next?_of_readIn .c ?_ ?_
      · rw [hnotEmpty, hstart]
        simp
      · rw [hnotEmpty]
        exact hread
    refine ⟨statement ++ ([TokenTree.symbol scope scope.knows ";"] ++ trees), again :: reread, ?_,
      ?_, ?_, ?_⟩
    · rw [statementsText, List.map_cons, String.join_cons, String.append_assoc]
      exact hstatement.writes.append
        ((writes_symbol (by decide)).append hwrites (apart_of_left (by decide)))
        (apart_append_right (apart_of_right (by decide)) (by decide))
    · rw [hitems, hstart]
      have hfirst := hstatement.noBrace
      rw [hstart] at hfirst
      exact hfirst
    · rw [hitems, readAll_of_next? hnext, hreadAll]
    · rw [List.map_cons, List.map_cons, hrender, hrenders]

/-- The text of statements that are read again is a source that is read as statements of the same
text, unless a comment of C stands in it. -/
theorem exists_ofSource (hsemicolon : (scope.keywords .c).isQualifier ";" = false)
    {declarations : List Declaration}
    (h : ∀ declaration ∈ declarations, ∃ trees, ReadsAgain scope Node.rolesOf declaration trees)
    (hcomment : Comment.strip .c (statementsText declarations) = statementsText declarations) :
    ∃ reread, ofSource .c (statementsText declarations) scope = .ok reread scope ∧
      reread.map (Declaration.render 0) = declarations.map (Declaration.render 0) := by
  obtain ⟨trees, reread, hwrites, -, hreadAll, hrenders⟩ :=
    exists_readAll (respects_tree scope) hsemicolon h
  refine ⟨reread, ofSource_eq_ok_iff.mpr ⟨trees, ?_, hreadAll⟩, hrenders⟩
  rw [TokenTree.ofSource, hcomment]
  exact writes_iff.mp hwrites

end Declaration

/-! ### What is translated -/

/-- A declarator is written in words that are qualifiers of C, in pointers and references that do
not make one symbol, and without dimensions where it ends in an argument list. -/
structure Declarator.IsWrittenInC (scope : Scope) (declarator : Declarator) : Prop where
  intents : ∀ text ∈ declarator.left.toList, "INTENT".toList <+: text.toList →
    IsQualifierWord scope text
  references : declarator.right.toList.IsChain fun before after => ¬(before = "&" ∧ after = "&")
  dimensions : declarator.kind.isFunction = true → declarator.dimensions = []

instance (scope : Scope) (declarator : Declarator) : Decidable (declarator.IsWrittenInC scope) :=
  decidable_of_iff
    ((∀ text ∈ declarator.left.toList, "INTENT".toList <+: text.toList →
      IsQualifierWord scope text) ∧ (declarator.right.toList.IsChain fun before after =>
        ¬(before = "&" ∧ after = "&")) ∧
      (declarator.kind.isFunction = true → declarator.dimensions = []))
    ⟨fun h => ⟨h.1, h.2.1, h.2.2⟩, fun h => ⟨h.intents, h.references, h.dimensions⟩⟩

/-- The declarators of a statement are written in words and symbols of C.  The type of the first one
is one word, or a space follows the qualifiers that it is written in. -/
def Declaration.IsWrittenInC (scope : Scope) : Declaration → Prop
  | .names declarators => (∀ declarator ∈ declarators, declarator.IsWrittenInC scope) ∧
    ∀ first ∈ declarators.head?, ∀ base ∈ first.base,
      IsTypeWord scope base.name ∨ first.spaceBeforeName = false
  | .type _ _ => True

instance (scope : Scope) : (declaration : Declaration) → Decidable (declaration.IsWrittenInC scope)
  | .names _ => inferInstanceAs (Decidable (_ ∧ _))
  | .type _ _ => inferInstanceAs (Decidable True)

/-- The markers are words that introduce neither a typedef nor any other type. -/
def Markers.ArePlain (markers : Markers) : Prop :=
  ∀ marker ∈ markers.toList, IsWord marker ∧ marker ≠ "typedef" ∧ marker ∉ TypeDecl.introducers

instance (markers : Markers) : Decidable markers.ArePlain :=
  inferInstanceAs (Decidable (∀ marker ∈ markers.toList, _))

namespace Fortran

variable {declarator : Declarator} {trees : List TokenTree}

/-- A plain marker is a qualifier of C in every scope with its settings. -/
theorem isQualifierWord_marker (hmarkers : scope.settings.markers.ArePlain) {marker : String}
    (h : marker ∈ scope.settings.markers.toList) : IsQualifierWord scope marker where
  isWord := (hmarkers marker h).1
  isQualifier := by
    have hmem : marker ∈ (scope.keywords .c).qualifiers :=
      List.mem_append.mpr (Or.inr h)
    exact List.contains_iff_mem.mpr hmem

theorem isQualifierWord_of_mem {text : String} (h : IsWord text)
    (hmem : text ∈ Keywords.cQualifiers) :
    IsQualifierWord scope text :=
  ⟨h, isQualifier_of_mem scope hmem⟩

/-- Every word left of the type of what is translated is a qualifier of C that introduces no type.
-/
theorem IsTranslated.isQualifierWord {root : Level} (h : IsTranslated scope root declarator)
    (hmarkers : scope.settings.markers.ArePlain) (hwritten : declarator.IsWrittenInC scope) :
    ∀ text ∈ declarator.left.toList,
      IsQualifierWord scope text ∧ text ≠ "typedef" ∧ text ∉ TypeDecl.introducers := by
  intro text htext
  -- The words are `const`, `volatile`, the markers of the settings and those made from an INTENT.
  rcases h.left text htext with rfl | rfl | hmarker | ⟨intent, rfl⟩
  · exact ⟨isQualifierWord_of_mem (by decide) (by decide), by decide, by decide⟩
  · exact ⟨isQualifierWord_of_mem (by decide) (by decide), by decide, by decide⟩
  · exact ⟨isQualifierWord_marker hmarkers hmarker, (hmarkers text hmarker).2⟩
  · have hprefix : "INTENT".toList <+: ("INTENT" ++ intent).toList := by
      rw [String.toList_append]
      exact List.prefix_append _ _
    have hother : ∀ text ∈ "typedef" :: TypeDecl.introducers,
        ¬ "INTENT".toList <+: text.toList := by
      decide
    refine ⟨hwritten.intents _ htext hprefix, ?_, fun hmem => ?_⟩
    · exact fun heq => hother "typedef" List.mem_cons_self (heq ▸ hprefix)
    · exact hother _ (List.mem_cons_of_mem _ hmem) hprefix

/-- The extents of what is translated are dimensions of C. -/
theorem exists_areDimensions (htrees : TokenTree.All (fun token => IsToken token.text) trees)
    {texts : List String} (h : ∀ text ∈ texts, IsExtent (items rolesOf trees) text) :
    ∃ dimensions, TokenTree.AreDimensions scope scope.knows dimensions ∧
      texts = dimensionTexts dimensions := by
  induction texts with
  | nil => exact ⟨[], areDimensions_nil, rfl⟩
  | cons text texts ih =>
    obtain ⟨hfirst, hothers⟩ := List.forall_mem_cons.mp h
    obtain ⟨dimensions, hdimensions, rfl⟩ := ih hothers
    obtain ⟨contents, hcontents, rfl⟩ :=
      exists_restorable_of_isExtent scope scope.knows htrees hfirst
    refine ⟨.group .square contents :: dimensions,
      List.forall_mem_cons.mpr ⟨⟨contents, rfl, hcontents⟩, ?_⟩, rfl⟩
    exact hdimensions

theorem exists_ofNames {arguments : List Declarator}
    (h : ∀ argument ∈ arguments, ∃ name : String, argument = { name := some name }) :
    ∃ names, arguments = Declarator.ofNames names ∧
        Declarator.declaredNamesOf arguments = names := by
  induction arguments with
  | nil => exact ⟨[], rfl, rfl⟩
  | cons argument arguments ih =>
    obtain ⟨⟨name, rfl⟩, hothers⟩ := List.forall_mem_cons.mp h
    obtain ⟨names, rfl, hnames⟩ := ih hothers
    refine ⟨name :: names, rfl, ?_⟩
    rw [Declarator.declaredNamesOf, hnames]
    rfl

/-- What is translated is a simple declarator of C, if it is written as one. -/
theorem IsTranslated.isSimple (htrees : TokenTree.All (fun token => IsToken token.text) trees)
    (h : IsTranslated scope (items rolesOf trees) declarator)
    (hmarkers : scope.settings.markers.ArePlain)
    (hnames : ∀ name ∈ declarator.declaredNames, IsNameWord scope scope.knows name)
    (hwritten : declarator.IsWrittenInC scope) : declarator.IsSimple scope where
  left text htext := (h.isQualifierWord hmarkers hwritten text htext).1
  right := h.right
  apart := hwritten.references
  name text htext := by
    refine hnames text ?_
    rw [Declarator.declaredNames_eq]
    exact List.mem_append_left _ (List.mem_append_left _ (Option.mem_toList.mpr htext))
  core := by
    obtain ⟨names, harguments, hdeclared⟩ := exists_ofNames h.arguments
    rcases h.kind with hkind | ⟨hkind, hnone⟩
    · refine .function hkind (hwritten.dimensions (by rw [hkind]; rfl))
        (fun name hname => hnames name ?_) harguments
      rw [Declarator.declaredNames_eq, hdeclared]
      exact List.mem_append_left _ (List.mem_append_right _ hname)
    · obtain ⟨dimensions, hdimensions, htexts⟩ := exists_areDimensions htrees h.dimensions
      exact .variable hkind hnone hdimensions htexts
  nests := h.nests
  outerDimensions := h.outerDimensions

/-- A type of C that is no word of a type is written in qualifiers. -/
theorem exists_qualifiers {name : String} (hname : name ∈ translatedTypes)
    (hknows : scope.knows name = true) (h : ¬ IsTypeWord scope name) :
    ∃ words : List String,
      (∀ word ∈ words, IsQualifierWord scope word ∧ word ≠ "typedef" ∧
        word ∉ TypeDecl.introducers) ∧
      name ++ " " = String.join (words.map (· ++ " ")) := by
  have hall : ∀ name ∈ translatedTypes, name = "long long" ∨
      IsWord name ∧ name ≠ "typedef" ∧ name ∉ TypeDecl.introducers := by
    decide
  rcases hall name hname with rfl | ⟨hword, hother⟩
  · refine ⟨["long", "long"], List.forall_mem_cons.mpr ⟨?_, List.forall_mem_singleton.mpr ?_⟩,
      by decide⟩
    all_goals exact ⟨isQualifierWord_of_mem (by decide) (by decide), by decide, by decide⟩
  · have hqualifier : (scope.keywords .c).isQualifier name = true := by
      by_contra hfree
      exact h ⟨⟨hword, Bool.eq_false_iff.mpr hfree⟩, hknows⟩
    exact ⟨[name], List.forall_mem_singleton.mpr ⟨⟨hword, hqualifier⟩, hother⟩, by simp⟩

/-- The type of what is translated is read again: one word, words that are all qualifiers, or
none. -/
theorem IsTranslated.isTyped {root : Level} (h : IsTranslated scope root declarator)
    (hmarkers : scope.settings.markers.ArePlain) (hwritten : declarator.IsWrittenInC scope)
    (hbase : ∀ base ∈ declarator.base, IsTypeWord scope base.name ∨
      declarator.spaceBeforeName = false) :
    declarator.IsTyped scope := by
  have hintroducers : ∀ text ∈ TypeDecl.introducers, text ∉ declarator.left.toList :=
    fun text htext hmem => (h.isQualifierWord hmarkers hwritten text hmem).2.2 htext
  cases href : declarator.base with
  | none => exact .absent href hintroducers
  | some ref =>
    obtain ⟨name, hname, hlookup⟩ := h.base ref href
    obtain rfl : name = ref.name := (Scope.names_of_lookup hlookup).2.symm
    have hknows : scope.knows ref.name = true := by
      rw [Scope.knows, hlookup]
      rfl
    -- A type of more than one word is written as the qualifiers that its words are.
    by_cases hword : IsTypeWord scope ref.name
    · exact .word href hlookup hword
    · obtain ⟨words, hwords, htext⟩ := exists_qualifiers hname hknows hword
      exact .qualifiers href hwords htext ((hbase ref href).resolve_left hword) hintroducers

end Fortran

namespace Declaration

/-- **What a source of Fortran is translated to is read again**: its statements, written as C with a
`;` each, are read in the same scope as statements that are written in the same way. -/
theorem ofSource_statementsText {source : String} {declarations : List Declaration} {after : Scope}
    (hread : ofSource .fortran source scope = .ok declarations after)
    (hsymbols : scope.PlainSymbols) (hmarkers : scope.settings.markers.ArePlain)
    (hnames : ∀ name ∈ declaredNamesOf declarations, IsNameWord scope scope.knows name)
    (hnamed : ∀ declaration ∈ declarations, declaration.declaredNames ≠ [])
    (hwritten : ∀ declaration ∈ declarations, declaration.IsWrittenInC scope)
    (hcomment : Comment.strip .c (statementsText declarations) = statementsText declarations) :
    ∃ reread, ofSource .c (statementsText declarations) scope = .ok reread scope ∧
      reread.map (Declaration.render 0) = declarations.map (Declaration.render 0) := by
  obtain ⟨trees, htrees, hall⟩ := ofSource_eq_ok_iff.mp hread
  have htokens := TokenTree.all_isToken_of_ofText htrees
  have hroot : Level.Reaches (items Node.rolesOf trees) (items Node.rolesOf trees) := .start
  have htranslated := (Fortran.isTranslated_of_readAll hroot (by rw [hall])).2
  rw [hall] at htranslated
  refine exists_ofSource hsymbols.semicolon (fun declaration hmem => ?_) hcomment
  obtain ⟨declarators, rfl, hdeclarators⟩ := htranslated declaration hmem
  obtain ⟨hdeclarator, hbase⟩ := hwritten _ hmem
  -- Every declarator of the translation is a simple declarator of C.
  have hsimple : ∀ declarator ∈ declarators, declarator.IsSimple scope := by
    intro declarator hmem'
    refine (hdeclarators declarator hmem').isSimple htokens hmarkers ?_
      (hdeclarator declarator hmem')
    intro name hname
    refine hnames name (List.mem_flatMap.mpr ⟨_, hmem, ?_⟩)
    rw [declaredNames, Declarator.declaredNamesOf_eq_flatMap]
    exact List.mem_flatMap.mpr ⟨declarator, hmem', hname⟩
  cases declarators with
  | nil => exact absurd rfl (hnamed _ hmem)
  | cons first further =>
    obtain ⟨hfirst, hfurther⟩ := List.forall_mem_cons.mp hsimple
    have htranslated := hdeclarators first List.mem_cons_self
    have hwords := htranslated.isQualifierWord hmarkers (hdeclarator first List.mem_cons_self)
    exact exists_readsAgain (respects_tree scope) hsymbols hfirst (fun htypedef =>
      (hwords _ htypedef).2.1 rfl)
      (htranslated.isTyped hmarkers (hdeclarator first List.mem_cons_self) (hbase first rfl))
        hfurther
      (hnamed _ hmem)

/-- The heading of a kernel, with its arguments and a pointer, in a session where the words of
intents are qualifiers. -/
theorem ofSource_statementsText_kernel :
    ∃ declarations after reread,
      ofSource .fortran ("KERNEL SUBROUTINE saxpy(n, x, y); INTEGER, INTENT(IN) :: n; " ++
          "REAL*8, DIMENSION(n+1), SHARED :: x, y(0:n); INTEGER*8, POINTER :: p")
        (Scope.ofSettings { extraQualifiers := ["INTENTIN"] }) = .ok declarations after ∧
      ofSource .c ("occaKernel void saxpy(n, x, y);const INTENTIN int &n;" ++
          "occaShared double x[n+1], y[0:n];long long *p;")
        (Scope.ofSettings { extraQualifiers := ["INTENTIN"] }) =
          .ok reread (Scope.ofSettings { extraQualifiers := ["INTENTIN"] }) ∧
      reread.map (Declaration.render 0) = declarations.map (Declaration.render 0) := by
  have hsymbols : (Scope.ofSettings { extraQualifiers := ["INTENTIN"] }).PlainSymbols :=
    ⟨⟨by decide +kernel, by decide +kernel⟩, by decide +kernel, by decide +kernel,
      by decide +kernel⟩
  have hread :
      Ends (ofSource .fortran ("KERNEL SUBROUTINE saxpy(n, x, y); INTEGER, INTENT(IN) :: n; " ++
        "REAL*8, DIMENSION(n+1), SHARED :: x, y(0:n); INTEGER*8, POINTER :: p"))
      (Scope.ofSettings { extraQualifiers := ["INTENTIN"] })
      (fun declarations _ =>
        (∀ name ∈ declaredNamesOf declarations,
          IsNameWord (Scope.ofSettings { extraQualifiers := ["INTENTIN"] })
          (Scope.ofSettings { extraQualifiers := ["INTENTIN"] }).knows name) ∧
        (∀ declaration ∈ declarations, declaration.declaredNames ≠ []) ∧
        (∀ declaration ∈ declarations,
          declaration.IsWrittenInC (Scope.ofSettings { extraQualifiers := ["INTENTIN"] })) ∧
        Comment.strip .c (statementsText declarations) = statementsText declarations ∧
        statementsText declarations = "occaKernel void saxpy(n, x, y);const INTENTIN int &n;" ++
          "occaShared double x[n+1], y[0:n];long long *p;") fun _ => False := by
    decide +kernel
  obtain ⟨declarations, after, hof, hnames, hnamed, hwritten, hcomment, htext⟩ := hread.exists_ok
  obtain ⟨reread, hreread, hrenders⟩ :=
    ofSource_statementsText hof hsymbols (by decide +kernel) hnames hnamed hwritten hcomment
  refine ⟨declarations, after, reread, hof, ?_, hrenders⟩
  rw [← htext]
  exact hreread

/-- The declarations of a source that is read in a new session. -/
def declarations? (dialect : Dialect) (settings : Settings) (source : String) :
    Option (List Declaration) :=
  match ofSource dialect source (Scope.ofSettings settings) with
  | .ok declarations _ => some declarations
  | .error _ _ => none

/-- A source of Fortran is translated to a source of C with the same declarations, if the markers
are words, each statement declares a name, and the names have no other meaning in C. -/
def Rereads (settings : Settings) (source : String) : Prop :=
  (∀ marker ∈ settings.markers.toList, IsWord marker) →
    ∀ declarations ∈ declarations? .fortran settings source,
      (∀ name ∈ declaredNamesOf declarations,
        IsNameWord (Scope.ofSettings settings) (Scope.ofSettings settings).knows name) →
      (∀ declaration ∈ declarations, declaration.declaredNames ≠ []) →
        (declarations? .c settings (statementsText declarations)).map
          (List.map (Declaration.render 0)) =
          some (declarations.map (Declaration.render 0))

instance (settings : Settings) (source : String) : Decidable (Rereads settings source) :=
  inferInstanceAs (Decidable (_ → ∀ declarations ∈ declarations? .fortran settings source, _))

/-- None of the conditions above can be left out. -/
theorem ofSource_statementsText_limits :
    ¬ Rereads {} "INTEGER, INTENT(IN) :: n" ∧
    ¬ Rereads { extraQualifiers := ["INTENTIN"] } "INTEGER, INTENT(IN), INTENT(IN) :: n" ∧
    ¬ Rereads {} "REAL, DIMENSION(3) :: FUNCTION f(a)" ∧
    ¬ Rereads {} "INTEGER*2, POINTER :: FUNCTION f(a)" ∧
    ¬ Rereads {} "INTEGER*2, DIMENSION(3) :: , n" ∧
    ¬ Rereads {} "REAL :: a(m//n)" ∧
    ¬ Rereads { markers := { kernel := "typedef" } } "KERNEL, PARAMETER, INTEGER :: n" ∧
    ¬ Rereads { markers := { kernel := "struct" } } "KERNEL :: n, m" ∧
    ¬ Rereads { builtinTypes := ["*"] } "POINTER :: n" ∧
    ¬ Rereads { builtinTypes := ["&"], extraQualifiers := ["INTENTOUT"] } "INTENT(OUT) :: n" ∧
    ¬ Rereads { extraQualifiers := [","] } "INTEGER :: , n" ∧
    ¬ Rereads { builtinTypes := [","] } "VOLATILE :: , n" ∧
    ¬ Rereads { extraQualifiers := [";"] } "INTEGER :: n, ," := by
  decide +kernel

end Declaration

end CommonDecl

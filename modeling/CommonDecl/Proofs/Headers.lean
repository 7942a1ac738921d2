import CommonDecl.Proofs.LegibleDeclarators
import CommonDecl.Proofs.Lookahead
import CommonDecl.Proofs.RoundTrip

/-!
# The header of a declarator that is read again

The header of a declarator is its left qualifiers, its base type, its right qualifiers and its name.
The text of a declarator that was read from a source is always cut into tokens again, whatever its
dimensions and arguments are, and its header is read from them unchanged, with one exception
(`Header.isKept_iff`): a function whose right qualifiers start with a word and end in a pointer is
written without a space after its base type, which then makes one word with the first of the
qualifiers.
-/

namespace CommonDecl

open TokenTree (items)

variable {scope : Scope} {rolesOf : Token → Roles}

/-- A header: the words left of the base type, the base type, the words and pointers right of it,
and the name. -/
structure Header (scope : Scope) where
  left : List String
  base : String
  right : List String
  name : String
  left_isQualifier : ∀ text ∈ left, IsQualifierWord scope text
  base_isType : IsTypeWord scope base
  right_areMarks : AreMarks scope right
  name_isName : IsNameWord scope scope.knows name

namespace Header

variable (header : Header scope)

/-- The tokens of the header with what stands after its right qualifiers. -/
def trees (core : List TokenTree) : List TokenTree :=
  TokenTree.marks header.left ++ ([TokenTree.word scope scope.knows header.base] ++
    (TokenTree.marks header.right ++ core))

/-- The declarator has this header. -/
structure Heads (declarator : Declarator) : Prop where
  left : declarator.left = ⟨header.left⟩
  base : declarator.base = scope.lookup header.base
  right : declarator.right = ⟨header.right⟩
  name : declarator.name = some header.name

/-- No space stands between the base type and the right qualifiers, and these start with a word. -/
def Fuses (declarator : Declarator) : Prop :=
  declarator.kind.isFunction = true ∧ (⟨header.right⟩ : Qualifiers).endsInPointer = true ∧
    header.right.head?.any isPointerMarker = false

/-! ### The part after the right qualifiers -/

/-- The item starts a level in which a declarator without a type and qualifiers has this name. -/
def Names (name : String) (item : Item) : Prop :=
  item.roles.isQualifier = false ∧ ∀ rest, Declarator.nameAt? (item :: rest) = some name

/-- A name alone is what a declarator is named by. -/
theorem names_name (name : String) :
    Names name (.token name { isIdentifier := true, isUnresolved := true }) := by
  refine ⟨rfl, fun rest => ?_⟩
  rw [Declarator.nameAt?, Declarator.nestsAt_of_none rfl]
  rfl

/-- A nest has the name that stands inside it. -/
theorem names_nest (hroles : Respects scope rolesOf) {right : List String}
    (hright : AreMarks scope right) {name : String} {inner : TokenTree}
    (h : Names name (inner.item rolesOf)) (after : List TokenTree) :
    Names name (TokenTree.item rolesOf
      (.group .parenthesis (TokenTree.marks ("*" :: right) ++ inner :: after))) := by
  refine ⟨rfl, fun rest => ?_⟩
  have hnoQualifier : NoQualifier (items rolesOf (inner :: after)) := by
    rintro item ⟨⟩
    exact h.1
  obtain ⟨hstar, hinside, -⟩ := Declarator.insideNest_items hroles hright.isQualifier hnoQualifier
  have hname := h.2 (items rolesOf after)
  rw [Declarator.nameAt?] at hname
  rw [Declarator.nameAt?,
    Declarator.nestsAt_of_group (Level.groupContents?_group rolesOf .parenthesis _ rest),
    if_pos hstar, hinside, Declarator.insideNests, Level.contents?_group, Option.getD_some, hinside]
  exact hname

/-- The text of an argument list or of nothing, after dimensions, starts no token of what stands
before it. -/
theorem free_suffix (dimensions : List String) (isFunction : Prop) [Decidable isFunction]
    (arguments : List Declarator) :
    Free (Declarator.dimensionsText dimensions ++ if isFunction then argumentsText
      arguments else "") := by
  refine (free_dimensionsText dimensions).append ?_
  split
  · exact free_argumentsText arguments
  · exact free_empty

/-- Legible dimensions with a legible argument list after them are written as tokens. -/
theorem exists_writes_suffix (scope : Scope) {dimensions : List String}
    (hdimensions : AreLegible dimensions) (isFunction : Prop) [Decidable isFunction]
    {arguments : List Declarator} (harguments : AreLegible (Declarator.textsOf arguments)) :
    ∃ trees, Writes (scope.keywords .c) scope.knows
      (Declarator.dimensionsText dimensions ++ if isFunction then argumentsText arguments else "")
        trees := by
  refine IsLegible.exists_writes _ _ ((closed_isLegible.dimensionsText hdimensions).append ?_)
  split
  · exact closed_isLegible.argumentsText harguments
  · exact .empty

/-- The text of a name in legible nests starts with the name or with a nest around it. -/
theorem exists_writes_nestText {name : String} (hname : IsNameWord scope scope.knows name)
    {dimensions : List String} (hdimensions : AreLegible dimensions) {nests : List Declarator}
    (hmarks : ∀ nest ∈ nests, AreMarks scope nest.right.toList)
    (hnests : AreLegible (Declarator.textsOf nests)) :
    ∃ tree after, (∀ spaced, Writes (scope.keywords .c) scope.knows
        (nestText (innerText spaced (some name) dimensions) nests) (tree :: after)) ∧
      ∀ rolesOf, Respects scope rolesOf → Names name (tree.item rolesOf) := by
  have hword : ∀ text ∈ some name, IsWord text := by
    rintro text ⟨⟩
    exact hname.isWord
  -- By induction on the nests, each of them a group around what stands inside.
  induction nests with
  | nil =>
    obtain ⟨after, hafter⟩ :=
      (closed_isLegible.dimensionsText hdimensions).exists_writes (scope.keywords .c) scope.knows
    refine ⟨.leaf ⟨name, .unresolved⟩, after, fun spaced => ?_, fun rolesOf hroles => ?_⟩
    · have hwrites := hname.writes
      have hspaced : Writes (scope.keywords .c) scope.knows ((if spaced then " " else "") ++ name)
          [.leaf ⟨name, .unresolved⟩] := by
        cases spaced with
        | true => exact hwrites.space_append
        | false =>
          show Writes (scope.keywords .c) scope.knows ("" ++ name) [.leaf ⟨name, .unresolved⟩]
          rwa [String.empty_append]
      exact hspaced.append hafter (apart_dimensionsText _ _)
    · have hitem := TokenTree.items_name hroles hname
      rw [TokenTree.nameTrees, Option.toList_some, List.map_singleton, items, items,
        List.cons.injEq] at hitem
      rw [hitem.1]
      exact names_name name
  | cons nest nests ih =>
    rw [List.forall_mem_cons] at hmarks
    rw [Declarator.textsOf, Declarator.texts_eq, Declarator.ownTexts] at hnests
    simp only [areLegible_append] at hnests
    obtain ⟨⟨-, ⟨⟨⟨-, hown⟩, -⟩, harguments⟩, -⟩, hrest⟩ := hnests
    obtain ⟨tree, after, hinner, hnames⟩ := ih hmarks.2 hrest
    obtain ⟨suffix, hsuffix⟩ :=
      exists_writes_suffix scope hown (nest.kind = .nestedFunction) harguments
    have hfree := free_suffix nest.dimensions (nest.kind = .nestedFunction) nest.arguments
    refine ⟨_, [], fun spaced => ?_, fun rolesOf hroles =>
      names_nest hroles hmarks.1 (hnames rolesOf hroles) (after ++ suffix)⟩
    -- The group holds the pointers of the nest, the inner text and its own dimensions or arguments.
    have hcontents := (hinner spaced).append hsuffix (apart_of_right hfree)
    have hunlinked := (unlinked_nestText spaced hword dimensions nests).append hfree.unlinked
    have hnest := writes_nest hmarks.1 hcontents hunlinked
    rw [nestText]
    simpa only [String.append_assoc, List.cons_append] using hnest

/-- The text of a declarator after its qualifiers starts with the name or with a nest around it. -/
theorem exists_writes_coreText {declarator : Declarator} {name : String}
    (hname : IsNameWord scope scope.knows name) (hnamed : declarator.name = some name)
    (hmarks : ∀ nest ∈ declarator.nests, AreMarks scope nest.right.toList)
    (htexts : AreLegible declarator.ownTexts) :
    ∃ tree after, (∀ spaced, Writes (scope.keywords .c) scope.knows (coreText spaced declarator)
        (tree :: after)) ∧
      ∀ rolesOf, Respects scope rolesOf → Names name (tree.item rolesOf) := by
  rw [Declarator.ownTexts] at htexts
  simp only [areLegible_append] at htexts
  obtain ⟨⟨⟨⟨-, hdimensions⟩, houter⟩, harguments⟩, hnests⟩ := htexts
  obtain ⟨tree, after, hinner, hnames⟩ := exists_writes_nestText hname hdimensions hmarks hnests
  obtain ⟨suffix, hsuffix⟩ :=
    exists_writes_suffix scope houter (declarator.kind.isFunction = true) harguments
  have hfree :=
    free_suffix declarator.outerDimensions (declarator.kind.isFunction = true) declarator.arguments
  refine ⟨tree, after ++ suffix, fun spaced => ?_, hnames⟩
  have hcore := (hinner spaced).append hsuffix (apart_of_right hfree)
  rw [coreText, hnamed]
  simpa only [String.append_assoc, List.cons_append] using hcore

/-! ### The type -/

/-- A declarator gets the left qualifiers and the base type that its level starts with. -/
theorem read_type {level rest : Level} {declarator : Declarator}
    (h : Declarator.read scope none {} level = .ok (declarator, rest)) :
    declarator.left = level.leftQualifiers ∧
      declarator.base = Declarator.typeAt? scope level.afterLeftQualifiers := by
  rw [Declarator.read_eq_core] at h
  cases hcore : Declarator.read scope (some {}) {} (Declarator.afterTypePart scope none level) with
  | error fault =>
    rw [hcore] at h
    cases h
  | ok result =>
    rw [hcore] at h
    cases h
    exact ⟨rfl, Option.or_none⟩

/-- The tokens of a header with something that has its name are read as the header. -/
theorem exists_read (hroles : Respects scope rolesOf) {tree : TokenTree}
    (htree : Names header.name (tree.item rolesOf)) (after : List TokenTree) :
    ∃ declarator rest,
      Declarator.read scope none {} (items rolesOf (header.trees (tree :: after))) =
        .ok (declarator, rest) ∧ header.Heads declarator := by
  obtain ⟨roles, hnotQualifier, -, hitem⟩ : ∃ roles : Roles, roles.isQualifier = false ∧
      (roles.isIdentifier || roles.isTypeKeyword) = true ∧
        TokenTree.item rolesOf (TokenTree.word scope scope.knows header.base) =
            .token header.base roles :=
    TokenTree.item_word hroles header.base_isType.toIsFreeWord
  -- What has the name starts with no qualifier, so the right qualifiers end in front of it.
  have hnoQualifier : NoQualifier (items rolesOf (tree :: after)) := by
    rintro item ⟨⟩
    exact htree.1
  have hnoLeft : ∀ item ∈ (.token header.base roles ::
      (Level.ofMarks header.right ++ items rolesOf (tree :: after)) : Level).head?,
      Level.isLeftQualifier item = false := by
    rintro item ⟨⟩
    rw [Level.isLeftQualifier, Item.roles, hnotQualifier]
    rfl
  obtain ⟨ref, href⟩ := Option.isSome_iff_exists.mp header.base_isType.knows
  have htype : Declarator.typeAt? scope (.token header.base roles ::
      (Level.ofMarks header.right ++ items rolesOf (tree :: after))) = some ref := href
  obtain ⟨⟨declarator, rest⟩, hread⟩ :=
    Declarator.exists_read scope (some {}) {} (items rolesOf (tree :: after))
  -- Whatever follows it is read somehow, and the name does not depend on that.
  have hname := Declarator.read_name hread
  rw [Declarator.afterTypePart_of_noQualifier hnoQualifier, items, htree.2, Option.some_or] at hname
  have hlevel :=
    Declarator.read_ofMarks header.right (Level.items_leftQualifier header.left_isQualifier)
    hnoLeft htype rfl hnoQualifier hread
  refine ⟨{ declarator with left := ⟨header.left⟩, right := ⟨header.right⟩, base := some ref },
    rest, ?_, ⟨rfl, href.symm, rfl, hname⟩⟩
  rw [trees, TokenTree.items_append, TokenTree.items_append, TokenTree.items_append,
    Declarator.items_leftMarks hroles header.left_isQualifier,
    TokenTree.items_qualifiers hroles header.right_areMarks.isQualifier,
    Declarator.items_singleton_append,
    hitem]
  exact hlevel

/-! ### Texts with a space after the base type -/

/-- A declarator that does not fuse is written with the tokens of its header. -/
theorem exists_writes_of_not_fuses {declarator : Declarator} (h : header.Heads declarator)
    (hmarks : ∀ nest ∈ declarator.nests, AreMarks scope nest.right.toList)
    (htexts : AreLegible declarator.ownTexts) (hfuses : ¬ header.Fuses declarator) :
    ∃ tree after, Writes (scope.keywords .c) scope.knows (declarator.render true)
        (header.trees (tree :: after)) ∧
      ∀ rolesOf, Respects scope rolesOf → Names header.name (tree.item rolesOf) := by
  obtain ⟨tree, after, hcore, hnames⟩ :=
    exists_writes_coreText header.name_isName h.name hmarks htexts
  obtain ⟨ref, href⟩ := Option.isSome_iff_exists.mp header.base_isType.knows
  have hname : ref.name = header.base := (Scope.names_of_lookup href).2
  have hbase : Writes (scope.keywords .c) scope.knows ref.name
      [TokenTree.word scope scope.knows header.base] := by
    rw [hname]
    exact header.base_isType.isWord.writes
  have hword : ∀ text ∈ declarator.name, IsWord text := by
    rw [h.name]
    rintro text ⟨⟩
    exact header.name_isName.isWord
  -- The only place without a space is behind the base type of a function whose qualifiers end in a
  -- pointer, and these start with a pointer then.
  have hapart : header.right ≠ [] → declarator.kind.isFunction = true →
      (⟨header.right⟩ : Qualifiers).endsInPointer = true →
        Apart ref.name (⟨header.right⟩ : Qualifiers).leadingText := by
    intro _ hfunction hends
    rw [hname]
    refine header.base_isType.isWord.apart_leadingText header.right_areMarks ?_
    rw [← Bool.not_eq_false]
    exact fun hhead => hfuses ⟨hfunction, hends, hhead⟩
  have hrender :=
    Declarator.writes_render_of_some header.left_isQualifier hbase header.right_areMarks hword
    hcore hapart
  refine ⟨tree, after, ?_, hnames⟩
  have hdeclarator : declarator =
      { declarator with left := ⟨header.left⟩, right := ⟨header.right⟩, base := some ref } := by
    rw [← h.left, ← h.right, ← href, ← h.base]
    cases declarator
    rfl
  rwa [← hdeclarator] at hrender

/-! ### Texts without a space after the base type -/

/-- A declarator that fuses is written with one word in place of the base type and the first of the
right qualifiers. -/
theorem exists_writes_of_fuses {declarator : Declarator} (h : header.Heads declarator)
    (htexts : AreLegible declarator.ownTexts) (hfuses : header.Fuses declarator) :
    ∃ first after, IsWord first ∧ IsWord (header.base ++ first) ∧
      Writes (scope.keywords .c) scope.knows (declarator.render true)
        (TokenTree.marks header.left ++
          TokenTree.word scope scope.knows (header.base ++ first) :: after) := by
  obtain ⟨hfunction, hends, hhead⟩ := hfuses
  obtain ⟨ref, href⟩ := Option.isSome_iff_exists.mp header.base_isType.knows
  have hname : ref.name = header.base := (Scope.names_of_lookup href).2
  have hspaced : declarator.spaceBeforeName = true := by
    rw [Declarator.spaceBeforeName, hfunction, h.right, hends]
    simp
  have hcore : IsLegible (coreText true declarator) := closed_isLegible.coreText true htexts
  have hright : AreLegible declarator.right.toList := by
    rw [Declarator.ownTexts] at htexts
    simp only [areLegible_append] at htexts
    exact htexts.1.1.1.1.1
  have hmarks := header.right_areMarks
  rw [h.right] at hright
  -- Without the space the base type stands right in front of the first qualifier.
  have htext : declarator.render true = Text.trimEnd
      ((⟨header.left⟩ : Qualifiers).leadingText ++ (header.base ++
        ((⟨header.right⟩ : Qualifiers).leadingText ++ coreText true declarator))) := by
    rw [render_eq, if_pos rfl, Declarator.typeText, h.left, h.right, h.base, href, hspaced]
    simp only [↓reduceIte, String.append_empty, String.append_assoc, Bool.and_self, hname]
  cases hlist : header.right with
  | nil =>
    rw [hlist] at hends
    cases hends
  | cons first more =>
    rw [hlist] at hends hhead hmarks hright htext
    have hnotPointer : isPointerMarker first = false := by simpa using hhead
    have hfirst : IsWord first := by
      rcases hmarks.each first List.mem_cons_self with rfl | rfl | hword
      · cases hnotPointer
      · cases hnotPointer
      · exact hword.isWord
    have hword : IsWord (header.base ++ first) := header.base_isType.isWord.append hfirst
    -- The pointer at the end is another qualifier, before which a space stands.
    obtain ⟨next, others, rfl⟩ : ∃ next others, more = next :: others := by
      cases more with
      | cons next others => exact ⟨next, others, rfl⟩
      | nil =>
        have hpointer : isPointerMarker first = true := hends
        rw [hnotPointer] at hpointer
        cases hpointer
    obtain ⟨last, hleading, hlast⟩ := leadingText_cons first (next :: others)
    have hlegible : IsLegible
        (Qualifiers.textAfter first (next :: others) ++ (last ++ coreText true declarator)) := by
      refine (closed_isLegible.textAfter first (areLegible_cons.mp hright).2).append
        (IsLegible.append ?_ hcore)
      rcases hlast with rfl | rfl
      · exact .empty
      · exact .space
    have hapart : Apart (header.base ++ first)
        (Qualifiers.textAfter first (next :: others) ++ (last ++ coreText true declarator)) := by
      rw [Qualifiers.textAfter, hnotPointer]
      simp only [Bool.false_and, Bool.false_eq_true, ↓reduceIte, String.append_assoc]
      exact apart_space _ _
    obtain ⟨after, hafter⟩ := hlegible.exists_writes (scope.keywords .c) scope.knows
    refine ⟨first, after, hfirst, hword, ?_⟩
    rw [htext, hleading]
    have hfused : Writes (scope.keywords .c) scope.knows (header.base ++ first)
        [TokenTree.word scope scope.knows (header.base ++ first)] := hword.writes
    have hrest := hfused.append hafter hapart
    have hwhole := (writes_leadingText (areMarks_of_words header.left_isQualifier)).append hrest
      (apart_leftText header.left_isQualifier _)
    refine Writes.trimEnd ?_
    simpa only [String.append_assoc, List.singleton_append] using hwhole

/-- Where a longer word stands in place of the base type, another header is read. -/
theorem not_heads_of_longer (hroles : Respects scope rolesOf) {first : String}
    (hfirst : IsWord first) (hlonger : IsWord (header.base ++ first)) {after : List TokenTree}
    {declarator : Declarator} {rest : Level} (hread : Declarator.read scope none {}
      (items rolesOf (TokenTree.marks header.left ++
        TokenTree.word scope scope.knows (header.base ++ first) :: after)) =
          .ok (declarator, rest)) :
    ¬ header.Heads declarator := by
  rintro ⟨hleft, hbase, -, -⟩
  obtain ⟨hleft', hbase'⟩ := read_type hread
  rw [TokenTree.items_append, Declarator.items_leftMarks hroles header.left_isQualifier,
    items] at hleft' hbase'
  by_cases hqualifier : (scope.keywords .c).isQualifier (header.base ++ first) = true
  · -- The word is read as one more qualifier.
    have hitem : TokenTree.item rolesOf (TokenTree.word scope scope.knows (header.base ++ first)) =
        .token (header.base ++ first) { isQualifier := true } := by
      have hmarks := TokenTree.items_qualifiers hroles (List.forall_mem_singleton.mpr hqualifier)
      rw [TokenTree.marks, List.map_singleton, items, items] at hmarks
      rw [TokenTree.word, TokenClass.ofLexeme, if_pos hqualifier]
      exact (List.cons.inj hmarks).1
    have hword : Level.isLeftQualifier (.token (header.base ++ first) { isQualifier := true }) =
        true := by
      simp [Level.isLeftQualifier, Item.roles, Item.value, hlonger.isPointerMarker]
    rw [hitem, hleft, Level.leftQualifiers,
      List.takeWhile_append_of_pos (Level.items_leftQualifier header.left_isQualifier),
      List.takeWhile_cons_of_pos hword] at hleft'
    have hlength := congrArg (fun qualifiers => qualifiers.toList.length) hleft'
    simp [Level.ofMarks] at hlength
  · -- The word is read as the base type, if it names one.
    have hfree : IsFreeWord scope (header.base ++ first) := ⟨hlonger, by simpa using hqualifier⟩
    obtain ⟨roles, hnotQualifier, -, hitem⟩ : ∃ roles : Roles, roles.isQualifier = false ∧
        (roles.isIdentifier || roles.isTypeKeyword) = true ∧
          TokenTree.item rolesOf (TokenTree.word scope scope.knows (header.base ++ first)) =
            .token (header.base ++ first) roles :=
      TokenTree.item_word hroles hfree
    have hnoLeft :
        ∀ item ∈ (.token (header.base ++ first) roles :: items rolesOf after : Level).head?,
        Level.isLeftQualifier item = false := by
      rintro item ⟨⟩
      rw [Level.isLeftQualifier, Item.roles, hnotQualifier]
      rfl
    rw [hitem, Level.afterLeftQualifiers_ofMarks header.left_isQualifier hnoLeft, hbase] at hbase'
    obtain ⟨ref, href⟩ := Option.isSome_iff_exists.mp header.base_isType.knows
    have hsame : scope.lookup (header.base ++ first) = some ref := hbase'.symm.trans href
    have hname : header.base ++ first = header.base :=
      (Scope.names_of_lookup hsame).2.symm.trans (Scope.names_of_lookup href).2
    obtain ⟨c, others, hchars, -⟩ := hfirst.exists_cons
    have hlength := congrArg (fun text => text.toList.length) hname
    simp [hchars] at hlength

/-! ### Reading the text again -/

/-- **The header of a declarator is read from its text again unless it fuses**: whatever stands in
the dimensions, the argument lists and the nests of a declarator that was read in a source, its text
is cut into tokens and read again, and the declarator that is read has the same header exactly if
the base type and the first right qualifier are not written as one word.  A text in which a comment
starts is left out. -/
theorem isKept_iff {known : String → Bool} {source : String} {trees : List TokenTree}
    (htrees : TokenTree.ofText (scope.keywords .c) known source = .ok trees) :
    ∀ itemsOf ∈ [fun trees => (Node.ofTrees trees).items,
        fun trees => (Chain.ofTrees trees).items (scope.keywords .c)],
      ∀ level, Level.Reaches (itemsOf trees) level → ∀ template declarator rest,
        Declarator.read scope template {} level = .ok (declarator, rest) → header.Heads declarator →
          (∀ nest ∈ declarator.nests, AreMarks scope nest.right.toList) →
            Comment.strip .c (declarator.render true) = declarator.render true →
              ∃ trees' again rest',
                TokenTree.ofSource .c scope (declarator.render true) = .ok trees' ∧
                  Declarator.read scope none {} (itemsOf trees') = .ok (again, rest') ∧
                    (header.Heads again ↔ ¬ header.Fuses declarator) := by
  have hread : ∀ rolesOf, Respects scope rolesOf → ∀ level,
    Level.Reaches (items rolesOf trees) level →
      ∀ template declarator rest, Declarator.read scope template {} level = .ok (declarator, rest) →
        header.Heads declarator → (∀ nest ∈ declarator.nests, AreMarks scope nest.right.toList) →
          Comment.strip .c (declarator.render true) = declarator.render true →
            ∃ trees' again rest',
              TokenTree.ofSource .c scope (declarator.render true) = .ok trees' ∧
              Declarator.read scope none {} (items rolesOf trees') = .ok (again, rest') ∧
                (header.Heads again ↔ ¬ header.Fuses declarator) := by
    intro rolesOf hroles level hlevel template declarator rest hdeclarator hheads hmarks hstrip
    -- All texts of the declarator are legible, so its text is cut into tokens again.
    have htokens : (items rolesOf trees).OfTokens :=
      ⟨rolesOf, trees, rfl, TokenTree.all_isToken_of_ofText htrees⟩
    obtain ⟨htexts, -⟩ :=
      (Declarator.areLegible_read scope).1 template {} level (htokens.of_reaches hlevel)
      areLegible_nil declarator rest hdeclarator
    have hsource {trees' : List TokenTree}
        (hwrites : Writes (scope.keywords .c) scope.knows (declarator.render true) trees') :
        TokenTree.ofSource .c scope (declarator.render true) = .ok trees' := by
      rw [TokenTree.ofSource, hstrip]
      exact writes_iff.mp hwrites
    -- Where it fuses the longer word is read instead, and otherwise the same header.
    by_cases hfuses : header.Fuses declarator
    · obtain ⟨first, after, hfirst, hlonger, hwrites⟩ :=
        exists_writes_of_fuses header hheads htexts hfuses
      obtain ⟨⟨again, rest'⟩, hagain⟩ := Declarator.exists_read scope none {}
        (items rolesOf (TokenTree.marks header.left ++
          TokenTree.word scope scope.knows (header.base ++ first) :: after))
      have hnot := not_heads_of_longer header hroles hfirst hlonger hagain
      exact ⟨_, again, rest', hsource hwrites, hagain, iff_of_false hnot (not_not_intro hfuses)⟩
    · obtain ⟨tree, after, hwrites, hnames⟩ :=
        exists_writes_of_not_fuses header hheads hmarks htexts hfuses
      obtain ⟨again, rest', hagain, hsame⟩ :=
        exists_read header hroles (hnames rolesOf hroles) after
      exact ⟨_, again, rest', hsource hwrites, hagain, iff_of_true hsame hfuses⟩
  -- The items of both shapes are those of the trees, with one or the other roles.
  rw [List.forall_mem_cons, List.forall_mem_singleton]
  simp only [Node.items_ofTrees, Chain.items_ofTrees]
  exact ⟨hread _ (respects_tree scope), hread _ (respects_list scope)⟩

theorem isQualifierWord_const : IsQualifierWord (Scope.ofSettings {}) "const" :=
  ⟨by decide, by decide⟩

theorem forall_mem_const : ∀ text ∈ ["const"], IsQualifierWord (Scope.ofSettings {}) text :=
  List.forall_mem_singleton.mpr isQualifierWord_const

theorem isNameWord_f : IsNameWord (Scope.ofSettings {}) (Scope.ofSettings {}).knows "f" :=
  ⟨⟨by decide, by decide⟩, by decide⟩

/-- The header of `const char *const *f`. -/
def pointers : Header (Scope.ofSettings {}) where
  left := ["const"]
  base := "char"
  right := ["*", "const", "*"]
  name := "f"
  left_isQualifier := forall_mem_const
  base_isType := ⟨⟨by decide, by decide⟩, by decide⟩
  right_areMarks := ⟨by simp [isQualifierWord_const], by decide⟩
  name_isName := isNameWord_f

/-- The header of `char const *f`. -/
def wordThenPointer : Header (Scope.ofSettings {}) where
  left := []
  base := "char"
  right := ["const", "*"]
  name := "f"
  left_isQualifier := by simp
  base_isType := ⟨⟨by decide, by decide⟩, by decide⟩
  right_areMarks := ⟨by simp [isQualifierWord_const], by decide⟩
  name_isName := isNameWord_f

/-- The tokens of `f(int)`. -/
def coreTrees : List TokenTree :=
  [.leaf ⟨"f", .unresolved⟩,
    .group .parenthesis [TokenTree.word (Scope.ofSettings {}) (Scope.ofSettings {}).knows "int"]]

/-- The function `f(int)` with a header in front. -/
def function (header : Header (Scope.ofSettings {})) : Declarator where
  kind := .functionDeclaration
  left := ⟨header.left⟩
  right := ⟨header.right⟩
  base := (Scope.ofSettings {}).lookup header.base
  name := some "f"
  arguments := [{ base := (Scope.ofSettings {}).lookup "int" }]

/-- A function whose right qualifiers start with a pointer keeps its header. -/
theorem isKept_pointers :
    TokenTree.ofText ((Scope.ofSettings {}).keywords .c) (Scope.ofSettings {}).knows
        "const char *const *f(int)" = .ok (pointers.trees coreTrees) ∧
      (fun trees => (Node.ofTrees trees).items) ∈
        [fun trees => (Node.ofTrees trees).items,
          fun trees => (Chain.ofTrees trees).items ((Scope.ofSettings {}).keywords .c)] ∧
      Declarator.read (Scope.ofSettings {}) none {}
        (Node.ofTrees (pointers.trees coreTrees)).items =
        .ok (function pointers, []) ∧
      pointers.Heads (function pointers) ∧
      (∀ nest ∈ (function pointers).nests, AreMarks (Scope.ofSettings {}) nest.right.toList) ∧
      Comment.strip .c ((function pointers).render true) = (function pointers).render true ∧
      ∃ trees' again rest',
        TokenTree.ofSource .c (Scope.ofSettings {}) ((function pointers).render true) =
          .ok trees' ∧
        Declarator.read (Scope.ofSettings {}) none {} (Node.ofTrees trees').items =
          .ok (again, rest') ∧ (pointers.Heads again ↔ ¬ pointers.Fuses (function pointers)) := by
  have htrees : TokenTree.ofText ((Scope.ofSettings {}).keywords .c) (Scope.ofSettings {}).knows
      "const char *const *f(int)" = .ok (pointers.trees coreTrees) := by decide +kernel
  have hread : Declarator.read (Scope.ofSettings {}) none {}
      (Node.ofTrees (pointers.trees coreTrees)).items = .ok (function pointers, []) := by cbv
  have hheads : pointers.Heads (function pointers) := ⟨rfl, rfl, rfl, rfl⟩
  have hmarks : ∀ nest ∈ (function pointers).nests,
      AreMarks (Scope.ofSettings {}) nest.right.toList := by
    simp [function]
  have hstrip : Comment.strip .c ((function pointers).render true) =
      (function pointers).render true := by
    decide +kernel
  exact ⟨htrees, List.mem_cons_self, hread, hheads, hmarks, hstrip,
    isKept_iff pointers htrees _ List.mem_cons_self _ .start none (function pointers) []
      hread hheads hmarks
      hstrip⟩

/-- The header of `char const *f(int)` is lost: the text of that is `charconst * f(int)`. -/
theorem not_isKept_wordThenPointer :
    TokenTree.ofSource .c (Scope.ofSettings {}) "char const *f(int)" =
        .ok (wordThenPointer.trees coreTrees) ∧
      Declarator.read (Scope.ofSettings {}) none {}
        (Node.ofTrees (wordThenPointer.trees coreTrees)).items =
        .ok (function wordThenPointer, []) ∧
      wordThenPointer.Heads (function wordThenPointer) ∧
      ∃ trees again rest, TokenTree.ofSource .c (Scope.ofSettings {})
          ((function wordThenPointer).render true) = .ok trees ∧
        Declarator.read (Scope.ofSettings {}) none {} (Node.ofTrees trees).items =
          .ok (again, rest) ∧ ¬ wordThenPointer.Heads again := by
  refine ⟨by decide +kernel, by cbv, ⟨rfl, rfl, rfl, rfl⟩,
    .leaf ⟨"charconst", .unresolved⟩ :: (TokenTree.marks ["*"] ++ coreTrees),
    { name := some "charconst" },
    (Node.ofTrees (TokenTree.marks ["*"] ++ coreTrees)).items, by decide +kernel, by cbv, ?_⟩
  rintro ⟨-, hbase, -, -⟩
  exact absurd hbase (by decide)

end Header

end CommonDecl

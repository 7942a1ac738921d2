import CommonDecl.Proofs.Progress
import CommonDecl.Proofs.Shapes

/-!
# Where statements end

In the levels of a source that was cut into tokens, a `;` plays no role but to end a statement,
unless the settings make it a qualifier (`SourceLevel.plainSemicolons`); and nothing that is read
from such levels makes it the name of a type, unless the settings do (`Session.knows_semicolon`).
Then a statement does not go beyond the first `;` after its first item (`Declaration.next?_stays`).
-/

namespace CommonDecl

open Level

/-! ### The levels of a source -/

namespace TokenTree

theorem items_eq_map (rolesOf : Token → Roles) (trees : List TokenTree) :
    items rolesOf trees = trees.map (item rolesOf) := by
  induction trees with
  | nil => rfl
  | cons tree rest ih => rw [items, List.map_cons, ih]

/-- Every level that a reader of trees comes to is a list of trees again, with the same tokens. -/
theorem exists_trees_of_reaches {rolesOf : Token → Roles} {p : Token → Prop}
    {trees : List TokenTree} {level : Level} (h : (items rolesOf trees).Reaches level)
    (hp : All p trees) : ∃ inner, level = items rolesOf inner ∧ All p inner := by
  induction h with
  | start => exact ⟨trees, rfl, hp⟩
  | rest _ hrest ih =>
    obtain ⟨inner, rfl, hinner⟩ := ih
    rw [items_eq_map, List.suffix_iff_eq_drop, ← List.map_drop, ← items_eq_map] at hrest
    refine ⟨_, hrest, ?_⟩
    rw [all_iff_forall] at hinner ⊢
    exact fun tree htree => hinner tree (List.mem_of_mem_drop htree)
  | inside _ hcontents ih =>
    obtain ⟨inner, rfl, hinner⟩ := ih
    cases inner with
    | nil => cases hcontents
    | cons tree rest =>
      cases tree with
      | leaf token => cases hcontents
      | group bracket contents =>
        rw [All, AllIn] at hinner
        obtain ⟨opened, -, hitems⟩ := Option.map_eq_some_iff.mp hcontents
        exact ⟨contents, hitems.symm, hinner.1⟩

end TokenTree

/-- The level stands at some place in a source that is cut into tokens under the settings, in either
dialect and either shape. -/
def SourceLevel (settings : Settings) (level : Level) : Prop :=
  ∃ (dialect : Dialect) (scope : Scope) (source : String) (trees : List TokenTree),
    scope.settings = settings ∧ TokenTree.ofSource dialect scope source = .ok trees ∧
      (Level.Reaches (Node.ofTrees trees).items level ∨
        Level.Reaches ((Chain.ofTrees trees).items (scope.keywords dialect)) level)

/-- At each place in the level the symbol plays no role. -/
def Level.Plain (symbol : String) (root : Level) : Prop :=
  ∀ item rest, root.Reaches (item :: rest) → item.value = symbol → item.roles = {}

theorem Level.Plain.of_reaches {symbol : String} {root level : Level} (h : root.Plain symbol)
    (hreaches : root.Reaches level) : level.Plain symbol :=
  fun item rest hitem => h item rest (hreaches.trans hitem)

theorem Level.Plain.roles_eq {symbol : String} {level : Level}
    (h : level.Plain symbol) {item : Item} (hitem : item ∈ level)
    (htoken : item.isToken symbol = true) : item.roles = {} := by
  obtain ⟨before, after, rfl⟩ := List.append_of_mem hitem
  rw [Item.isToken, Bool.and_eq_true] at htoken
  exact h item after (reaches_of_suffix (List.suffix_append _ _)) (eq_of_beq htoken.2)

theorem Level.Plain.of_append {symbol : String} {first second : Level}
    (h : (first ++ second).Plain symbol) :
    first.Plain symbol := by
  intro item rest hreaches
  obtain ⟨behind, hbehind⟩ := hreaches.append second
  exact h item (rest ++ behind) hbehind

/-- At each place in the level a `;` plays no role. -/
def Level.PlainSemicolons (root : Level) : Prop :=
  ∀ item rest, root.Reaches (item :: rest) → item.value = ";" → item.roles = {}

theorem Level.PlainSemicolons.of_reaches {root level : Level} (h : root.PlainSemicolons)
    (hreaches : root.Reaches level) : level.PlainSemicolons :=
  Plain.of_reaches h hreaches

/-- The settings leave the `;` alone: it is neither a qualifier nor the name of a type. -/
structure Settings.PlainSemicolon (settings : Settings) : Prop where
  not_isQualifier : (Keywords.ofSettings .c settings).isQualifier ";" = false
  not_builtin : ";" ∉ settings.builtinTypes

variable {settings : Settings} {scope : Scope} {level : Level} {symbol : String}

/-- Fortran has no qualifiers, so what is none in C is none in either dialect. -/
theorem Keywords.isQualifier_of_c (h : (ofSettings .c settings).isQualifier symbol = false)
    (dialect : Dialect) : (ofSettings dialect settings).isQualifier symbol = false := by
  cases dialect with
  | c => exact h
  | fortran => rfl

/-- A text that is cut out as a symbol only, and is no qualifier, is an operator in a source. -/
theorem TokenTree.all_operator {dialect : Dialect} {source : String} {trees : List TokenTree}
    (hsymbol : ∀ kind, Lexeme.IsLexeme kind symbol.toList → kind = .symbol)
    (hqualifier : (scope.keywords dialect).isQualifier symbol = false)
    (h : TokenTree.ofSource dialect scope source = .ok trees) :
    TokenTree.All (fun token => token.text = symbol → token.cls = .operator) trees := by
  refine TokenTree.all_of_groupFrom ?_ (by simp [TokenTree.All]) (by simp) h
  intro lexeme hlexeme hkind _ _ htext
  have htext : lexeme.text = symbol := htext
  have hshape := Lexeme.isLexeme_of_mem_scan hlexeme hkind
  rw [htext] at hshape ⊢
  rw [hsymbol _ hshape, TokenClass.ofLexeme, hqualifier]
  rfl

/-- In a source a `;` is an operator. -/
theorem TokenTree.all_semicolon {dialect : Dialect} {source : String} {trees : List TokenTree}
    (hqualifier : (scope.keywords dialect).isQualifier ";" = false)
    (h : TokenTree.ofSource dialect scope source = .ok trees) :
    TokenTree.All (fun token => token.text = ";" → token.cls = .operator) trees :=
  all_operator (fun _ hshape => (congrArg Prod.fst hshape).symm) hqualifier h

theorem TokenTree.plain_items {rolesOf : Token → Roles} {trees : List TokenTree}
    (hall : TokenTree.All (fun token => token.text = symbol → token.cls = .operator) trees)
    (hroles : ∀ token, token.text = symbol → token.cls = .operator → rolesOf token = {}) :
    (TokenTree.items rolesOf trees).Plain symbol := by
  intro item rest hreaches hvalue
  obtain ⟨inner, hinner, hall⟩ := TokenTree.exists_trees_of_reaches hreaches hall
  cases inner with
  | nil => cases hinner
  | cons tree others =>
    cases hinner
    cases tree with
    | group bracket contents => rfl
    | leaf token =>
      rw [TokenTree.All, TokenTree.AllIn] at hall
      exact hroles token hvalue (hall.1 hvalue)

/-- In a source a symbol that is no qualifier plays no role. -/
theorem SourceLevel.plain (hsymbol : ∀ kind, Lexeme.IsLexeme kind symbol.toList → kind = .symbol)
    (hqualifier : (Keywords.ofSettings .c settings).isQualifier symbol = false)
    (h : SourceLevel settings level) : level.Plain symbol := by
  obtain ⟨dialect, scope, source, trees, rfl, htrees, hreaches⟩ := h
  have hqualifier : (scope.keywords dialect).isQualifier symbol = false :=
    Keywords.isQualifier_of_c hqualifier dialect
  have hall := TokenTree.all_operator hsymbol hqualifier htrees
  rcases hreaches with htree | hchain
  · rw [Node.items_ofTrees] at htree
    refine (TokenTree.plain_items hall fun token _ hcls => ?_).of_reaches htree
    rw [Node.rolesOf, hcls]
    rfl
  · rw [Chain.items_ofTrees] at hchain
    refine (TokenTree.plain_items hall fun token htext hcls => ?_).of_reaches hchain
    rw [Chain.rolesOf, Chain.roles, Chain.kindOf, htext, hcls, hqualifier]
    rfl

/-- In a source a `;` plays no role. -/
theorem SourceLevel.plainSemicolons (hsettings : settings.PlainSemicolon)
    (h : SourceLevel settings level) : level.PlainSemicolons :=
  h.plain (fun _ hshape => (congrArg Prod.fst hshape).symm) hsettings.not_isQualifier

/-! ### The names of types in a session -/

theorem Level.PlainSemicolons.ne_of_offers (h : level.PlainSemicolons) {name : String}
    (hname : level.Offers name) : name ≠ ";" := by
  rintro rfl
  obtain ⟨place, hplace, hvalue, hrole⟩ := hname
  cases place with
  | nil => cases hvalue
  | cons item rest =>
    have hvalue : item.value = ";" := Option.some.inj hvalue
    have hroles := h item rest hplace hvalue
    rcases hrole with hrole | hrole | hdots
    · rw [isIdentifier, List.head?_cons, Option.any_some, hroles] at hrole
      cases hrole
    · rw [isTypeKeyword, List.head?_cons, Option.any_some, hroles] at hrole
      cases hrole
    · rw [isToken, List.head?_cons, Option.any_some, Item.isToken, hvalue,
        Bool.and_eq_true] at hdots
      exact absurd hdots.2 (by decide)

namespace TypeTable

variable {offers : String → Prop} {table newer : TypeTable} {name : String}

/-- Each name in a table that evolved was there before or was on offer. -/
theorem Evolves.of_mem_keys (h : Evolves offers table newer) (hname : some name ∈ newer.keys) :
    some name ∈ table.keys ∨ offers name := by
  induction h with
  | refl => exact Or.inl hname
  | tail _ hchange ih =>
    cases hchange with
    | declare declared isOpaque hfits =>
      rcases (mem_keys_declare _ declared isOpaque name).mp hname with hname | hown
      · exact ih hname
      · exact Or.inr (hfits.offered name hown)
    | define _ hdefine =>
      rw [keys_define hdefine] at hname
      exact ih hname

end TypeTable

open TypeTable

/-- What is read stands in a source. -/
def Parse.OfSource (settings : Settings) : Parse → Prop
  | statement _ level => SourceLevel settings level
  | type level => SourceLevel settings level
  | source _ _ => True

theorem Parse.OfSource.sourceLevel {parse : Parse} (h : parse.OfSource scope.settings)
    (hlevel : parse.level? scope = some level) : SourceLevel scope.settings level := by
  cases parse with
  | statement =>
    cases hlevel
    exact h
  | type =>
    cases hlevel
    exact h
  | source dialect text =>
    rw [level?, Node.ofSource] at hlevel
    cases htrees : TokenTree.ofSource dialect scope text with
    | error fault =>
      rw [htrees] at hlevel
      cases hlevel
    | ok trees =>
      rw [htrees] at hlevel
      cases hlevel
      exact ⟨dialect, scope, text, trees, rfl, htrees, Or.inl .start⟩

namespace Session

/-- In a session that reads sources, the `;` never becomes the name of a type. -/
theorem knows_semicolon (hsettings : settings.PlainSemicolon) (hidden : List String)
    {parses : List Parse} (hparses : ∀ parse ∈ parses, parse.OfSource settings) :
    ((start settings hidden).run parses).scope.knows ";" = false := by
  have hrun (session : Session) (hsession : session.scope.settings = settings)
      (hsound : session.Sound) (hkeys : some ";" ∉ session.scope.types.keys) :
      some ";" ∉ (session.run parses).scope.types.keys := by
    induction parses generalizing session with
    | nil => exact hkeys
    | cons parse parses ih =>
      -- The settings stay the same, so the next parse is of a source under them as well.
      obtain ⟨hsound', hgrows⟩ := sound_after hsound parse
      refine ih (fun other hother => hparses other (List.mem_cons_of_mem _ hother)) _
        (hgrows.settings_eq.trans hsession) hsound' fun hname => ?_
      have hparse : parse.OfSource session.scope.settings := by
        rw [hsession]
        exact hparses parse List.mem_cons_self
      have hoffers (level : Level) (hlevel : parse.level? session.scope = some level)
          (name : String) (hname : level.Offers name) : name ≠ ";" :=
        ((hparse.sourceLevel hlevel).plainSemicolons (hsession ▸ hsettings)).ne_of_offers hname
      rcases (session.evolves_after parse hoffers).of_mem_keys hname with hbefore | hne
      · exact hkeys hbefore
      · exact hne rfl
  have hstart : some ";" ∉ (start settings hidden).scope.types.keys := by
    intro hname
    rcases (evolves_ofSettings settings).of_mem_keys hname with hempty | hbuiltin
    · cases hempty
    · rcases List.mem_append.mp hbuiltin with hprimitive | hbuiltin
      · exact absurd hprimitive (by decide)
      · exact hsettings.not_builtin hbuiltin
  rw [Bool.eq_false_iff, Ne, Scope.knows_iff]
  exact fun h => hrun _ rfl (sound_start settings hidden) hstart h.2

end Session

/-! ### Statements -/

theorem Level.PlainSemicolons.admits (h : level.PlainSemicolons) :
    level.Admits fun item => item.isToken ";" = false :=
  ⟨fun _ hitem hroles => Bool.eq_false_iff.mpr fun htoken => hroles (Plain.roles_eq h hitem htoken),
    fun _ _ h => h⟩

theorem admitsTypes_of_not_knows (level : Level) (h : scope.knows ";" = false) :
    level.AdmitsTypes (fun item => item.isToken ";" = false) scope := by
  intro item _ _ hknows
  rw [Bool.eq_false_iff]
  intro htoken
  rw [Item.isToken, Bool.and_eq_true] at htoken
  rw [eq_of_beq htoken.2, h] at hknows
  cases hknows

/-- The items that a statement takes end in a `;` at most: none stands before their last one. -/
theorem Declaration.next?_stays (dialect : Dialect) (hlevel : level.PlainSemicolons)
    (hknows : scope.knows ";" = false) :
    Ends (next? dialect level) scope
      (fun result _ => ∀ declaration rest, result = some (declaration, rest) →
        ∃ taken, afterEmptyStatements level = taken ++ rest ∧
          ∀ item ∈ taken.dropLast, item.isToken ";" = false)
      (fun _ => True) := by
  unfold next?
  split
  · simp
  · have hplain := hlevel.of_reaches (reaches_of_suffix (afterEmptyStatements_suffix level))
    simp only [ends_bind]
    refine (readIn_passes dialect hplain.admits (admitsTypes_of_not_knows _ hknows)).mono ?_
      fun _ h => h
    rintro ⟨declaration, rest⟩ _ ⟨last, ⟨taken, hlevel, htaken⟩, hrest⟩ _ _ h
    cases h
    have hrest : rest = last.afterSemicolon := hrest
    rw [hrest, afterSemicolon]
    split
    · -- The `;` is taken last, after all that the reader took.
      rename_i hsemicolon
      cases last with
      | nil => cases hsemicolon
      | cons semicolon others =>
        refine ⟨taken ++ [semicolon], by rw [hlevel, List.append_assoc]; rfl, ?_⟩
        rwa [List.dropLast_concat]
    · exact ⟨taken, hlevel, fun item hitem => htaken item (List.dropLast_subset taken hitem)⟩

end CommonDecl

import CommonDecl.Proofs.Boundaries
import CommonDecl.Proofs.DeclaratorTexts
import CommonDecl.Proofs.Legible
import CommonDecl.Proofs.Lookahead
import CommonDecl.Proofs.Levels
import CommonDecl.Proofs.Rests

/-!
# Declarators that are written as legible texts

The texts of a declarator are legible if it was read from a level that is made of tokens
(`Declarator.areLegible_read`), and a declarator of legible texts is written as a legible text
(`closed_isLegible`).  Nothing is said of which texts stand together, so this holds of every
declarator, however its parts run into each other.
-/

namespace CommonDecl

open TokenTree (items)

variable {scope : Scope}

/-! ### Lists of legible texts -/

/-- All texts are legible. -/
def AreLegible (texts : List String) : Prop :=
  ∀ text ∈ texts, IsLegible text

@[simp]
theorem areLegible_nil : AreLegible [] := by
  simp [AreLegible]

@[simp]
theorem areLegible_cons {text : String} {texts : List String} :
    AreLegible (text :: texts) ↔ IsLegible text ∧ AreLegible texts := by
  simp [AreLegible]

@[simp]
theorem areLegible_append {first second : List String} :
    AreLegible (first ++ second) ↔ AreLegible first ∧ AreLegible second := by
  simp only [AreLegible, List.mem_append, or_imp, forall_and]

/-- Legible texts can be put together to a declarator. -/
theorem closed_isLegible : Text.Closed IsLegible where
  empty := .empty
  space := .space
  comma := .plain (Or.inr (by decide)) .nil
  star := .plain (Or.inr (by decide)) .nil
  append := .append
  group bracket _ h := h.group bracket
  trimEnd := .trimEnd

/-! ### The texts on a level -/

/-- The level is made of tokens. -/
def Level.OfTokens (level : Level) : Prop :=
  ∃ (rolesOf : Token → Roles) (trees : List TokenTree), level = items rolesOf trees ∧
    TokenTree.All (fun token => IsToken token.text) trees

namespace Level.OfTokens

variable {level : Level}

/-- Every place in a level of tokens is a level of tokens. -/
theorem of_reaches {place : Level} (h : level.OfTokens) (hplace : level.Reaches place) :
    place.OfTokens := by
  obtain ⟨rolesOf, trees, rfl, htrees⟩ := h
  obtain ⟨inner, hinner, hall⟩ := TokenTree.exists_trees_of_reaches hplace htrees
  exact ⟨rolesOf, inner, hinner, hall⟩

theorem of_suffix {rest : Level} (h : level.OfTokens) (hrest : rest <:+ level) : rest.OfTokens :=
  h.of_reaches (reaches_of_suffix hrest)

/-- What is written of an item is legible: a token, or the contents of a group. -/
theorem isLegible_item (h : level.OfTokens) {item : Item} (hitem : item ∈ level) :
    ((item.bracket? = none ∨ item.roles ≠ {}) → IsLegible item.value) ∧
      IsLegible item.contentsText := by
  obtain ⟨rolesOf, trees, rfl, htrees⟩ := h
  rw [TokenTree.items_eq_map] at hitem
  obtain ⟨tree, htree, rfl⟩ := List.mem_map.mp hitem
  have hall := TokenTree.all_iff_forall.mp htrees tree htree
  cases tree with
  | leaf token =>
    rw [TokenTree.AllIn] at hall
    exact ⟨fun _ => .of_isToken hall, .empty⟩
  | group bracket contents =>
    rw [TokenTree.AllIn] at hall
    constructor
    · rintro (hbracket | hroles)
      · rw [TokenTree.item, Item.bracket?, Bracket.ofOpening?_opening] at hbracket
        cases hbracket
      · exact absurd rfl hroles
    · rw [TokenTree.item, Item.contentsText, TokenTree.texts_items]
      exact TokenTree.isLegible_joinTokens hall

/-- A qualifier is written as a legible text. -/
theorem isLegible_qualifier (h : level.OfTokens) {item : Item} (hitem : item ∈ level)
    (hqualifier : item.roles.isQualifier = true) : IsLegible item.value := by
  -- A group has no roles, so an item in the role of a qualifier is a token.
  refine (h.isLegible_item hitem).1 (Or.inr fun hroles => ?_)
  rw [hroles] at hqualifier
  cases hqualifier

theorem areLegible_qualifiers (h : level.OfTokens) : AreLegible level.qualifiers.toList := by
  intro text htext
  obtain ⟨item, hitem, rfl⟩ := List.mem_map.mp htext
  have hmem : item ∈ level := (List.takeWhile_prefix _).subset hitem
  have hqualifier := List.mem_takeWhile_imp hitem
  exact h.isLegible_qualifier hmem hqualifier

theorem areLegible_leftQualifiers (h : level.OfTokens) :
    AreLegible level.leftQualifiers.toList := by
  intro text htext
  obtain ⟨item, hitem, rfl⟩ := List.mem_map.mp htext
  have hmem : item ∈ level := (List.takeWhile_prefix _).subset hitem
  have hleft := List.mem_takeWhile_imp hitem
  rw [isLeftQualifier, Bool.and_eq_true] at hleft
  exact h.isLegible_qualifier hmem hleft.1

/-- The contents of the brackets behind a name are legible. -/
theorem areLegible_dimensions (h : level.OfTokens) : AreLegible level.dimensions := by
  intro text htext
  obtain ⟨item, hitem, rfl⟩ := List.mem_map.mp htext
  exact (h.isLegible_item ((List.takeWhile_prefix _).subset hitem)).2

/-- The type that a level starts with has a legible name. -/
theorem isLegible_typeAt? (h : level.OfTokens) {ref : TypeRef}
    (href : Declarator.typeAt? scope level = some ref) : IsLegible ref.name := by
  cases level with
  | nil => cases href
  | cons item rest =>
    obtain ⟨text, hword, hlookup⟩ := Option.bind_eq_some_iff.mp href
    rw [word?] at hword
    split at hword
    · rename_i hbracket
      cases hword
      rw [(Scope.names_of_lookup hlookup).2]
      exact (h.isLegible_item List.mem_cons_self).1 (Or.inl (Option.isNone_iff_eq_none.mp hbracket))
    · cases hword

/-- The name that a level starts with is legible. -/
theorem areLegible_name (h : level.OfTokens) (hname : Declarator.atName level = true) :
    AreLegible level.value?.toList := by
  cases level with
  | nil => exact areLegible_nil
  | cons item rest =>
    have hitem := (h.isLegible_item List.mem_cons_self).1
    refine areLegible_cons.mpr ⟨hitem ?_, areLegible_nil⟩
    rw [Declarator.atName, Bool.or_eq_true] at hname
    rcases hname with hidentifier | hellipsis
    · refine Or.inr fun hroles => ?_
      rw [isIdentifier, List.head?_cons, Option.any_some, hroles] at hidentifier
      cases hidentifier
    · rw [isToken, List.head?_cons, Option.any_some, Item.isToken, Bool.and_eq_true] at hellipsis
      exact Or.inl (Option.isNone_iff_eq_none.mp hellipsis.1)

end Level.OfTokens

/-! ### Declarators that are read are legible -/

namespace Declarator

/-- The qualifiers and the type in front of a declarator are legible. -/
theorem typeTexts_readType (scope : Scope) (template : Option Declarator) (declarator : Declarator)
    {level : Level} (h : level.OfTokens) (htemplate : template = none)
    (htype : AreLegible declarator.typeTexts) :
    AreLegible (readType scope template declarator level).typeTexts := by
  subst htemplate
  have hrest : level.afterLeftQualifiers.OfTokens :=
    h.of_suffix (Level.afterLeftQualifiers_suffix level)
  rw [typeTexts, areLegible_append] at htype ⊢
  constructor
  · exact areLegible_append.mpr ⟨htype.1, h.areLegible_leftQualifiers⟩
  · show AreLegible (((typeAt? scope level.afterLeftQualifiers).or declarator.base).map
      TypeRef.name).toList
    cases hfound : typeAt? scope level.afterLeftQualifiers with
    | none => exact htype.2
    | some ref => exact areLegible_cons.mpr ⟨hrest.isLegible_typeAt? hfound, areLegible_nil⟩

/-- The qualifiers behind the type are legible, whether the type was read or given. -/
theorem areLegible_right (scope : Scope) (template : Option Declarator) (declarator : Declarator)
    {level : Level} (h : level.OfTokens) (hright : AreLegible declarator.right.toList) :
    AreLegible (readType scope template declarator level).right.toList := by
  cases template with
  | some shared => exact areLegible_append.mpr ⟨hright, h.areLegible_qualifiers⟩
  | none =>
    have hsuffix : afterType scope level.afterLeftQualifiers <:+ level :=
      (afterType_suffix _ _).trans (Level.afterLeftQualifiers_suffix level)
    exact areLegible_append.mpr ⟨hright, (h.of_suffix hsuffix).areLegible_qualifiers⟩

/-- The name and its dimensions are legible. -/
theorem areLegible_readName (declarator : Declarator) {level : Level} (h : level.OfTokens)
    (hname : AreLegible declarator.name.toList) (hdimensions : AreLegible declarator.dimensions) :
    AreLegible (readName declarator level).name.toList ∧
      AreLegible (readName declarator level).dimensions := by
  constructor
  · rw [readName]
    split
    · rename_i hat
      exact h.areLegible_name hat
    · exact hname
  · exact areLegible_append.mpr
      ⟨hdimensions, (h.of_suffix (afterName_suffix level)).areLegible_dimensions⟩

/-- The qualifiers, the dimensions and the arguments of a nest are legible. -/
theorem areLegible_nestOf {right : Qualifiers} {arguments : Option (List Declarator)}
    {level : Level} (hright : AreLegible right.toList)
    (harguments : AreLegible (textsOf (arguments.getD []))) (h : level.OfTokens) :
    AreLegible (nestOf right arguments level).texts := by
  have hnext : level.next.OfTokens := h.of_suffix (Level.next_suffix level)
  cases arguments with
  | none =>
    rw [nestOf, texts]
    simpa [textsOf] using ⟨hright, h.areLegible_dimensions⟩
  | some arguments =>
    rw [nestOf, texts]
    simpa [textsOf] using ⟨hright, hnext.areLegible_dimensions, harguments⟩

/-- The texts of a declarator that is read are those that it had before, those of its template and
texts that stand on its level. -/
theorem areLegible_read (scope : Scope) :
    (∀ template declarator level, level.OfTokens → AreLegible declarator.ownTexts →
      ∀ result rest, read scope template declarator level = .ok (result, rest) →
        AreLegible result.ownTexts ∧
          (template = none → AreLegible declarator.typeTexts → AreLegible result.typeTexts)) ∧
    (∀ level, level.OfTokens → ∀ arguments, readArgumentList scope level = .ok arguments →
      AreLegible (textsOf (arguments.getD []))) ∧
    (∀ level, level.OfTokens → ∀ arguments, readArguments scope level = .ok arguments →
      AreLegible (textsOf arguments)) ∧
    ∀ depth level, level.OfTokens → ∀ nests innermost,
      readNests scope depth level = .ok (nests, innermost) → AreLegible (textsOf nests) ∧
        innermost.OfTokens := by
  -- By mutual induction over the readers, with a level of tokens wherever one of them starts.
  apply read_induct scope
  case declarator =>
    intro template declarator level core depth kind rest hnests harguments hlevel
      hdeclarator result rest' h
    have hcore : core.OfTokens := hlevel.of_suffix (afterTypePart_suffix scope template level)
    have hrest : rest.OfTokens := hcore.of_suffix (afterNests_suffix depth kind core)
    rw [read] at h
    obtain ⟨⟨nests, innermost⟩, hreadNests, h⟩ := bind_eq_ok_iff.mp h
    -- The nests inside are read from the contents, which are tokens as well.
    obtain ⟨hnests, hinnermost⟩ := hnests hcore nests innermost hreadNests
    -- Reading the type changes the qualifiers and the type of a declarator, and nothing else.
    have hkept : readType scope template declarator level =
        { declarator with
          left := (readType scope template declarator level).left
          right := (readType scope template declarator level).right
          base := (readType scope template declarator level).base } := by
      cases template <;> rfl
    -- Each part has what it had before, and what was read is added behind it.
    rw [ownTexts] at hdeclarator
    simp only [areLegible_append] at hdeclarator
    obtain ⟨⟨⟨⟨⟨hright, hname⟩, hdimensions⟩, houter⟩, hown⟩, hownNests⟩ := hdeclarator
    have hright := areLegible_right scope template declarator hlevel hright
    have htype := typeTexts_readType scope template declarator hlevel
    obtain ⟨hname, hdimensions⟩ := areLegible_readName
      { readType scope template declarator level with
        kind, nests := (readType scope template declarator level).nests ++ nests }
      hinnermost (by rw [hkept]; exact hname) (by rw [hkept]; exact hdimensions)
    have houter : AreLegible ((readType scope template declarator level).outerDimensions ++
        dimensionsAfterNests depth kind core) := by
      rw [hkept]
      refine areLegible_append.mpr ⟨houter, ?_⟩
      unfold dimensionsAfterNests
      split
      · exact areLegible_nil
      · exact (hcore.of_suffix (Level.next_suffix core)).areLegible_dimensions
    have hallNests :
        AreLegible (textsOf ((readType scope template declarator level).nests ++ nests)) := by
      rw [hkept, textsOf_append]
      exact areLegible_append.mpr ⟨hownNests, hnests⟩
    have hown : AreLegible (textsOf (readType scope template declarator level).arguments) := by
      rw [hkept]
      exact hown
    dsimp only at h
    split at h
    · obtain ⟨arguments, hreadArguments, h⟩ := bind_eq_ok_iff.mp h
      have harguments := harguments hrest arguments hreadArguments
      cases arguments with
      | none => cases h
      | some arguments =>
        cases h
        refine ⟨?_, htype⟩
        have hall : AreLegible
            (textsOf ((readType scope template declarator level).arguments ++ arguments)) := by
          rw [textsOf_append]
          exact areLegible_append.mpr ⟨hown, harguments⟩
        rw [ownTexts]
        simp only [areLegible_append]
        exact ⟨⟨⟨⟨⟨hright, hname⟩, hdimensions⟩, areLegible_append.mp houter⟩, hall⟩, hallNests⟩
    · cases h
      refine ⟨?_, htype⟩
      rw [ownTexts]
      simp only [areLegible_append]
      exact ⟨⟨⟨⟨⟨hright, hname⟩, hdimensions⟩, areLegible_append.mp houter⟩, hown⟩, hallNests⟩
  case list =>
    intro level contents hcontents ih hlevel arguments h
    rw [readArgumentList_of_group hcontents] at h
    obtain ⟨found, hfound, h⟩ := bind_eq_ok_iff.mp h
    cases h
    exact ih (hlevel.of_reaches (Level.reaches_of_groupContents? hcontents)) found hfound
  case noList =>
    intro level hnone hlevel arguments h
    rw [readArgumentList_of_none hnone] at h
    cases h
    exact areLegible_nil
  case noArgument =>
    intro level hend hlevel arguments h
    rw [readArguments, if_pos hend] at h
    cases h
    exact areLegible_nil
  case argument =>
    intro level hend hread ih hlevel arguments h
    rw [readArguments, if_neg hend] at h
    obtain ⟨⟨argument, rest⟩, hfirst, h⟩ := bind_eq_ok_iff.mp h
    obtain ⟨hown, htype⟩ := hread hlevel areLegible_nil argument rest hfirst
    -- An argument is read without a template, so its type is one that stands on the level.
    have hargument : AreLegible argument.texts := by
      rw [texts_eq]
      exact areLegible_append.mpr ⟨htype rfl areLegible_nil, hown⟩
    dsimp only at h
    split at h
    · rename_i hlt
      obtain ⟨others, hothers, h⟩ := bind_eq_ok_iff.mp h
      cases h
      have hrest : (rest.skipPast ",").OfTokens :=
        hlevel.of_suffix ((Level.skipPast_suffix rest ",").trans (read_rest hfirst))
      rw [textsOf, areLegible_append]
      exact ⟨hargument, ih rest hlt hrest others hothers⟩
    · cases h
      simpa [textsOf] using hargument
  case innermost =>
    intro level hlevel nests innermost h
    rw [readNests] at h
    cases h
    exact ⟨areLegible_nil, hlevel⟩
  case noNest =>
    intro level depth hnone hlevel nests innermost h
    rw [readNests_of_none depth hnone] at h
    cases h
  case nest =>
    intro level depth contents hcontents harguments ih hlevel nests innermost h
    rw [readNests_of_contents depth hcontents] at h
    obtain ⟨arguments, hread, h⟩ := bind_eq_ok_iff.mp h
    obtain ⟨⟨inner, level'⟩, hinner, h⟩ := bind_eq_ok_iff.mp h
    cases h
    have hinside : contents.OfTokens := hlevel.of_reaches (.inside .start hcontents)
    have houtside : (outsideNest depth contents).OfTokens :=
      hinside.of_suffix (outsideNest_suffix depth contents)
    obtain ⟨hnests, hinnermost⟩ :=
      ih (hinside.of_suffix (insideNest_suffix contents)) inner _ hinner
    refine ⟨?_, hinnermost⟩
    have hright : AreLegible contents.next.qualifiers.toList :=
      (hinside.of_suffix (Level.next_suffix contents)).areLegible_qualifiers
    have hnest := areLegible_nestOf hright (harguments houtside arguments hread) houtside
    rw [textsOf]
    exact areLegible_append.mpr ⟨hnest, hnests⟩

end Declarator

end CommonDecl

import CommonDecl.Proofs.Attributes
import CommonDecl.Proofs.LetterCase

/-!
# Reading in either case

Two levels of Fortran are the same but for the case of letters (`Level.EqAnyCase`).  What the
readers ask of the current item, and how they go on along a level, is the same for both
(`readType_eqAnyCase`, `applyAttribute_eqAnyCase`).  Only names and the entries of dimensions are
taken as they are written.
-/

namespace CommonDecl

/-! ### Items -/

/-- Two items are the same but for the case of letters. -/
inductive Item.EqAnyCase : Item → Item → Prop where
  | token {value value' : String} (roles : Roles) (h : upperCase value = upperCase value') :
    EqAnyCase (.token value roles) (.token value' roles)
  | group (opening : String) (roles : Roles) {contents contents' : List Item}
    (h : List.Forall₂ EqAnyCase contents contents') :
    EqAnyCase (.group opening roles contents) (.group opening roles contents')

mutual

/-- Trees that are the same but for the case of letters become such items, as the case of a word
does not change its class. -/
theorem TokenTree.EqAnyCase.item : {tree tree' : TokenTree} → EqAnyCase tree tree' →
    Item.EqAnyCase (tree.item Node.rolesOf) (tree'.item Node.rolesOf)
  | .leaf _, _, h => by
    cases h with
    | leaf cls h => exact .token _ h
  | .group _ _, _, h => by
    cases h with
    | group bracket h => exact .group _ _ (items h)

/-- Trees that are the same but for the case of letters have such items. -/
theorem TokenTree.EqAnyCase.items :
    {trees trees' : List TokenTree} → List.Forall₂ EqAnyCase trees trees' →
      List.Forall₂ Item.EqAnyCase (items Node.rolesOf trees) (items Node.rolesOf trees')
  | [], _, h => by
    cases h
    exact .nil
  | _ :: _, _, h => by
    cases h with
    | cons htree hrest => exact .cons (item htree) (items hrest)

end

namespace Item.EqAnyCase

variable {item item' : Item}

/-- The words are the same in capitals. -/
theorem upperCase_value (h : item.EqAnyCase item') :
    upperCase item.value = upperCase item'.value := by
  cases h with
  | token _ h => exact h
  | group => rfl

theorem roles_eq (h : item.EqAnyCase item') : item.roles = item'.roles := by
  cases h <;> rfl

theorem bracket?_eq (h : item.EqAnyCase item') : item.bracket? = item'.bracket? := by
  cases h <;> rfl

/-- A token without letters is spelt in one way only, so both items are that token or neither is. -/
theorem isToken_eq (h : item.EqAnyCase item') {text : String}
    (htext : isLetterless text.toList = true) :
    item.isToken text = item'.isToken text := by
  have hvalue := eq_iff_of_upperCase h.upperCase_value htext
  rw [isToken, isToken, h.bracket?_eq, Bool.eq_iff_iff]
  simp only [Bool.and_eq_true, beq_iff_eq, hvalue]

/-- A comparison without regard to case cannot tell the two items apart. -/
theorem isTokenAnyCase_eq (h : item.EqAnyCase item') (text : String) :
    item.isTokenAnyCase text = item'.isTokenAnyCase text := by
  rw [isTokenAnyCase, isTokenAnyCase, h.bracket?_eq, eqAnyCase, h.upperCase_value, eqAnyCase]

/-- Both items are entered and hold the same but for the case of letters, or neither is. -/
theorem contents? (h : item.EqAnyCase item') :
    Option.Rel (List.Forall₂ EqAnyCase) item.contents? item'.contents? := by
  cases h with
  | token => exact .none
  | group opening roles h =>
    rw [Item.contents?, Item.contents?]
    cases Bracket.ofOpening? opening with
    | none => exact .none
    | some bracket => exact .some h

end Item.EqAnyCase

/-! ### Levels -/

namespace Level

/-- Two levels are the same but for the case of letters. -/
abbrev EqAnyCase : Level → Level → Prop :=
  List.Forall₂ Item.EqAnyCase

namespace EqAnyCase

variable {level level' : Level} (h : EqAnyCase level level')

include h

/-- A question about the current item that does not depend on case has the same answer in both. -/
theorem head?_map_eq {α : Type} {f : Item → α}
    (hf : ∀ {item item'}, item.EqAnyCase item' → f item = f item') :
    level.head?.map f = level'.head?.map f := by
  cases h with
  | nil => rfl
  | cons hitem => exact congrArg some (hf hitem)

theorem head?_any_eq {p : Item → Bool}
    (hp : ∀ {item item'}, item.EqAnyCase item' → p item = p item') :
    level.head?.any p = level'.head?.any p := by
  cases h with
  | nil => rfl
  | cons hitem => exact hp hitem

theorem atEnd_eq : level.atEnd = level'.atEnd := by
  cases h <;> rfl

/-- Tokens without letters stand in both levels at the same places. -/
theorem isToken_eq {text : String} (htext : isLetterless text.toList = true) :
    level.isToken text = level'.isToken text :=
  h.head?_any_eq fun hitem => hitem.isToken_eq htext

theorem isTokenAnyCase_eq (text : String) :
    level.isTokenAnyCase text = level'.isTokenAnyCase text :=
  h.head?_any_eq fun hitem => hitem.isTokenAnyCase_eq text

theorem isTypeKeyword_eq : level.isTypeKeyword = level'.isTypeKeyword :=
  h.head?_any_eq fun hitem => by rw [hitem.roles_eq]

theorem isIdentifier_eq : level.isIdentifier = level'.isIdentifier :=
  h.head?_any_eq fun hitem => by rw [hitem.roles_eq]

theorem map_value?_eq : level.value?.map upperCase = level'.value?.map upperCase := by
  rw [value?, value?, Option.map_map, Option.map_map]
  exact h.head?_map_eq fun hitem => hitem.upperCase_value

theorem bracket?_eq : level.bracket? = level'.bracket? := by
  cases h with
  | nil => rfl
  | cons hitem => exact hitem.bracket?_eq

/-- The current word is the same in capitals, or there is no word in either level. -/
theorem map_word?_eq : level.word?.map upperCase = level'.word?.map upperCase := by
  rw [word?, word?, h.bracket?_eq]
  split
  · exact h.map_value?_eq
  · rfl

theorem next : EqAnyCase level.next level'.next := by
  cases h with
  | nil => exact .nil
  | cons _ hrest => exact hrest

/-- What stands in a group of the given brackets differs in the case of letters only. -/
theorem groupContents? (bracket : Bracket) :
    Option.Rel EqAnyCase (level.groupContents? bracket) (level'.groupContents? bracket) := by
  rw [Level.groupContents?, Level.groupContents?, h.bracket?_eq]
  split
  · cases h with
    | nil => exact .none
    | cons hitem => exact hitem.contents?
  · exact .none

/-- A group that is written alike holds the same. -/
theorem groupContents?_eq {bracket : Bracket}
    (hgroup : level.isGroup bracket = true → level.head? = level'.head?) :
    level.groupContents? bracket = level'.groupContents? bracket := by
  cases hlist : level.groupContents? bracket with
  | some list =>
    have hhead := hgroup (isGroup_of_groupContents? hlist)
    rw [← hlist, Level.groupContents?, bracket?, contents?, hhead]
    rfl
  | none =>
    have hrel := h.groupContents? bracket
    rw [hlist] at hrel
    generalize level'.groupContents? bracket = list' at hrel ⊢
    cases hrel
    rfl

/-- The same items are dropped from both levels, if the question about them does not depend on
case. -/
theorem dropWhile {p : Item → Bool} (hp : ∀ {item item'}, item.EqAnyCase item' → p item = p item') :
    EqAnyCase (level.dropWhile p) (level'.dropWhile p) := by
  induction h with
  | nil => exact .nil
  | @cons item item' rest rest' hitem hrest ih =>
    rw [List.dropWhile_cons, List.dropWhile_cons, hp hitem]
    split
    · exact ih
    · exact .cons hitem hrest

theorem skipPast {delimiter : String} (hdelimiter : isLetterless delimiter.toList = true) :
    EqAnyCase (level.skipPast delimiter) (level'.skipPast delimiter) :=
  (h.dropWhile fun hitem => by rw [hitem.isToken_eq hdelimiter]).next

/-- A statement ends in both levels at the same item: neither a `,` nor a `;` has a case. -/
theorem atStatementEnd_eq : level.atStatementEnd = level'.atStatementEnd := by
  rw [atStatementEnd, atStatementEnd, h.atEnd_eq, h.isToken_eq (by decide)]

/-- What stands behind a declarator up to the next `,` or `;` is passed in both levels. -/
theorem afterDeclarator : EqAnyCase level.afterDeclarator level'.afterDeclarator := by
  have hrest : EqAnyCase (level.skipToAny [",", ";"]) (level'.skipToAny [",", ";"]) := by
    refine h.dropWhile fun hitem => ?_
    simp (disch := decide) only [List.any_cons, List.any_nil, hitem.isToken_eq]
  unfold Level.afterDeclarator
  dsimp only
  rw [hrest.isToken_eq (by decide)]
  split
  · exact hrest.next
  · exact hrest

/-- The next `;` stands at the same place in both levels. -/
theorem afterSemicolon : EqAnyCase level.afterSemicolon level'.afterSemicolon := by
  unfold Level.afterSemicolon
  rw [h.isToken_eq (by decide)]
  split
  · exact h.next
  · exact h

/-- The same empty statements are passed in both levels. -/
theorem afterEmptyStatements :
    EqAnyCase (Declaration.afterEmptyStatements level) (Declaration.afterEmptyStatements level') :=
  h.dropWhile fun hitem => hitem.isToken_eq (by decide)

end EqAnyCase

end Level

/-! ### Numbers and types -/

section

variable {α : Type} {result result' : Except Fault α}

/-- Where two results are related up to their faults, both are a fault or neither is. -/
theorem ok_or_error_of_rel {related : α → α → Prop}
    (h : Option.Rel related result.toOption result'.toOption) :
    (∃ a a', result = .ok a ∧ result' = .ok a' ∧ related a a') ∨
      ∃ fault fault', result = .error fault ∧ result' = .error fault' := by
  cases result with
  | ok a =>
    cases result' with
    | ok a' =>
      cases h with
      | some ha => exact Or.inl ⟨a, a', rfl, rfl, ha⟩
    | error fault' => cases h
  | error fault =>
    cases result' with
    | ok a' => cases h
    | error fault' => exact Or.inr ⟨fault, fault', rfl, rfl⟩

/-- Two results of one value both give it, or both are faults, which need not be the same. -/
theorem ok_or_error_of_toOption_eq (h : result.toOption = result'.toOption) :
    (∃ a, result = .ok a ∧ result' = .ok a) ∨ ∃ fault fault',
      result = .error fault ∧ result' = .error fault' := by
  have hrel : Option.Rel Eq result.toOption result'.toOption := by
    rw [h]
    cases result'.toOption with
    | none => exact .none
    | some a => exact .some rfl
  rcases ok_or_error_of_rel hrel with ⟨a, _, hok, hok', rfl⟩ | hfaults
  · exact Or.inl ⟨a, hok, hok'⟩
  · exact Or.inr hfaults

end

namespace Fortran

open Level

/-- Digits are the same in capitals. -/
theorem map_toUpper_of_isDigit {digits : List Char} (h : digits.all Char.isDigit = true) :
    digits.map Char.toUpper = digits := by
  refine (List.map_congr_left fun c hc => ?_).trans (List.map_id digits)
  refine Char.toUpper_eq_of_not_isLower fun hlower => ?_
  have hdigit : c.isDigit = true := List.all_eq_true.mp h c hc
  simp [Char.isLower, Char.isDigit, UInt32.le_iff_toNat_le] at hlower hdigit
  omega

/-- A text without the plus sign that it may start with. -/
def unsigned : List Char → List Char
  | '+' :: rest => rest
  | digits => digits

/-- The plus sign of a number is no letter. -/
theorem unsigned_map (text : List Char) :
    unsigned (text.map Char.toUpper) = (unsigned text).map Char.toUpper := by
  cases text with
  | nil => rfl
  | cons c rest =>
    by_cases hc : c = '+'
    · subst hc
      rfl
    · have hc' : c.toUpper ≠ '+' := mt (toUpper_eq_iff rfl).mp hc
      simp [unsigned, hc, hc']

/-- A number is a row of digits behind an optional plus sign, and it fits into 32 bits. -/
theorem number?_eq (text : String) : number? text =
    if !(unsigned text.toList).isEmpty && (unsigned text.toList).all Char.isDigit &&
      digitsValue (unsigned text.toList) < 4294967296 then some (digitsValue (unsigned text.toList))
        else none := rfl

/-- A number is written without letters. -/
theorem number?_upperCase (text : String) : number? (upperCase text) = number? text := by
  rw [number?_eq, number?_eq, toList_upperCase, unsigned_map]
  generalize unsigned text.toList = digits
  by_cases hall : digits.all Char.isDigit = true
  · rw [map_toUpper_of_isDigit hall]
  · have hall' : (digits.map Char.toUpper).all Char.isDigit = false := by
      rw [List.all_map, show Char.isDigit ∘ Char.toUpper = Char.isDigit from funext isDigit_toUpper]
      exact Bool.eq_false_iff.mpr hall
    simp only [hall', Bool.eq_false_iff.mpr hall, Bool.and_false, Bool.false_and,
      Bool.false_eq_true, ↓reduceIte]

/-- The width of a type depends on the number alone; the keyword only appears in the fault. -/
theorem toOption_widthOf (keyword : String) (found : Option String) :
    (widthOf keyword found).toOption = found.map upperCase >>= number? := by
  have hnumber : found.map upperCase >>= number? = found >>= number? := by
    cases found with
    | none => rfl
    | some text => exact number?_upperCase text
  rw [hnumber, widthOf]
  cases found >>= number? <;> rfl

variable {level level' : Level}

/-- The keyword of a type is given in capitals, so it is the same in both levels. -/
theorem keywordAt_eqAnyCase (h : level.EqAnyCase level') :
    (keywordAt level).1 = (keywordAt level').1 ∧
      EqAnyCase (keywordAt level).2 (keywordAt level').2 := by
  have hkeyword : upperCase (level.value?.getD "") = upperCase (level'.value?.getD "") := by
    rw [← Option.getD_map upperCase, ← Option.getD_map upperCase, h.map_value?_eq]
  unfold keywordAt
  dsimp only
  rw [hkeyword, h.next.isTokenAnyCase_eq]
  split
  · exact ⟨rfl, h.next.next⟩
  · exact ⟨rfl, h.next⟩

/-- The width in the list of a type is the same in both cases, or both have a fault. -/
theorem toOption_widthInList_eq {list list' : Level} (h : list.EqAnyCase list') (keyword : String) :
    (widthInList keyword list).toOption = (widthInList keyword list').toOption := by
  -- Three things are asked of the list: whether it has a `LEN`, its words, and the last one.
  have hany : list.any (Item.isTokenAnyCase "LEN") = list'.any (Item.isTokenAnyCase "LEN") := by
    induction h with
    | nil => rfl
    | cons hitem _ ih => rw [List.any_cons, List.any_cons, hitem.isTokenAnyCase_eq, ih]
  have hvalues : list.map (upperCase ∘ Item.value) = list'.map (upperCase ∘ Item.value) := by
    rw [← List.forall₂_eq_eq_eq, List.forall₂_map_left_iff, List.forall₂_map_right_iff]
    exact h.imp fun _ _ hitem => hitem.upperCase_value
  have hlast : (list.getLast?.map Item.value).map upperCase =
      (list'.getLast?.map Item.value).map upperCase := by
    rw [Option.map_map, Option.map_map, ← List.getLast?_map, ← List.getLast?_map, hvalues]
  have hwidth : (widthOf keyword (list.getLast?.map Item.value)).toOption =
      (widthOf keyword (list'.getLast?.map Item.value)).toOption := by
    rw [toOption_widthOf, toOption_widthOf, hlast]
  -- A list with `LEN` is no width; any other list gives the width that its last word spells.
  unfold widthInList
  rw [hany]
  split
  · rfl
  · rcases ok_or_error_of_toOption_eq hwidth with ⟨width, hok, hok'⟩ |
      ⟨fault, fault', herror, herror'⟩
    · rw [hok, hok']
    · rw [herror, herror']
      rfl

/-- The types of two levels are the same, or both have a fault. -/
theorem readType_eqAnyCase (h : level.EqAnyCase level') :
    (readType level).1.toOption = (readType level').1.toOption ∧
      EqAnyCase (readType level).2 (readType level').2 := by
  unfold readType
  rw [h.isTypeKeyword_eq]
  -- Along the forms of a type: a star and a width, a list in parentheses, or the keyword alone.
  split
  · obtain ⟨hkeyword, hrest⟩ := keywordAt_eqAnyCase h
    generalize keywordAt level = found at hkeyword hrest
    generalize keywordAt level' = found' at hkeyword hrest
    obtain ⟨keyword, rest⟩ := found
    obtain ⟨keyword', rest'⟩ := found'
    obtain rfl : keyword = keyword' := hkeyword
    replace hrest : EqAnyCase rest rest' := hrest
    dsimp only
    -- The `*` has no case, so both levels take the same branch.
    rw [hrest.isToken_eq (by decide)]
    split
    · have hwidth : (widthOf keyword rest.next.value?).toOption =
          (widthOf keyword rest'.next.value?).toOption := by
        rw [toOption_widthOf, toOption_widthOf, hrest.next.map_value?_eq]
      -- The fault of a width quotes the text, so the two faults may differ.
      rcases ok_or_error_of_toOption_eq hwidth with ⟨width, hok, hok'⟩ |
        ⟨fault, fault', herror, herror'⟩
      · rw [hok, hok']
        exact ⟨rfl, hrest.next.next⟩
      · rw [herror, herror']
        exact ⟨rfl, hrest.next⟩
    · have hgroup := hrest.groupContents? .parenthesis
      generalize rest.groupContents? .parenthesis = found at hgroup ⊢
      generalize rest'.groupContents? .parenthesis = found' at hgroup ⊢
      cases hgroup with
      | none => exact ⟨rfl, hrest⟩
      | some hlist =>
        rcases ok_or_error_of_toOption_eq (toOption_widthInList_eq hlist keyword) with
          ⟨width, hok, hok'⟩ | ⟨fault, fault', herror, herror'⟩
        · dsimp only
          rw [hok, hok']
          exact ⟨rfl, hrest.next⟩
        · dsimp only
          rw [herror, herror']
          exact ⟨rfl, hrest⟩
  · exact ⟨rfl, h⟩

/-! ### Attributes -/

/-- Both steps fail, or both leave the same declarator and give related results. -/
def EndAlike {α : Type} (related : α → α → Prop) (step step' : Attributing α)
    (declarator : Declarator) : Prop :=
  (∃ a a' after, step declarator = .ok a after ∧ step' declarator = .ok a' after ∧ related a a') ∨
    ∃ fault last fault' last', step declarator = .error fault last ∧ step' declarator =
      .error fault' last'

section

variable {α β : Type} {related : α → α → Prop} {related' : β → β → Prop} {declarator : Declarator}

/-- Steps that change nothing are alike if their results are related. -/
theorem endAlike_pure {a a' : α} (h : related a a') :
    EndAlike related (pure a) (pure a') declarator :=
  Or.inl ⟨a, a', declarator, rfl, rfl, h⟩

/-- Steps that fail are alike, whatever their faults are. -/
theorem endAlike_throw (fault fault' : Fault) :
    EndAlike related (throw fault : Attributing α) (throw fault') declarator :=
  Or.inr ⟨fault, declarator, fault', declarator, rfl, rfl⟩

/-- Steps that are alike can be continued by steps that are alike for related results. -/
theorem EndAlike.bind {step step' : Attributing α} {k k' : α → Attributing β}
    (h : EndAlike related step step' declarator)
    (hk : ∀ a a' after, step declarator = .ok a after →
      step' declarator = .ok a' after → related a a' → EndAlike related' (k a) (k' a') after) :
        EndAlike related' (step >>= k) (step' >>= k') declarator := by
  rcases h with ⟨a, a', after, hstep, hstep', ha⟩ | ⟨fault, last, fault', last', hstep, hstep'⟩
  · have hgoesOn := hk a a' after hstep hstep' ha
    unfold EndAlike
    rwa [bind_of_ok hstep, bind_of_ok hstep']
  · exact Or.inr ⟨fault, last, fault', last', bind_of_error hstep, bind_of_error hstep'⟩

/-- A change of the declarator in front of two steps. -/
theorem EndAlike.modify {f : Declarator → Declarator} {k k' : PUnit → Attributing β}
    (h : EndAlike related' (k ⟨⟩) (k' ⟨⟩) (f declarator)) :
    EndAlike related' (modify f >>= k) (modify f >>= k') declarator := h

theorem EndAlike.get {k k' : Declarator → Attributing β}
    (h : EndAlike related' (k declarator) (k' declarator) declarator) :
    EndAlike related' (get >>= k) (get >>= k') declarator := h

end

/-- The words of an `INTENT` are compared without regard to case. -/
theorem intentAt?_eqAnyCase (h : level.EqAnyCase level') : intentAt? level = intentAt? level' := by
  have hgroup := h.groupContents? .parenthesis
  unfold intentAt?
  generalize level.groupContents? .parenthesis = list at hgroup ⊢
  generalize level'.groupContents? .parenthesis = list' at hgroup ⊢
  cases hgroup with
  | none => rfl
  | some hlist => exact hlist.map_value?_eq

/-- An attribute does the same in either case, if the list of a DIMENSION is written alike. -/
theorem applyAttribute_eqAnyCase (h : level.EqAnyCase level')
    (hdimension : attributeWord? level = some "DIMENSION" → level.next.isGroup .parenthesis = true →
      level.next.head? = level'.next.head?) (scope : Scope) (declarator : Declarator) :
    EndAlike (Option.Rel fun result result' => result.1 = result'.1 ∧ EqAnyCase result.2 result'.2)
      (applyAttribute scope level) (applyAttribute scope level') declarator := by
  obtain ⟨htype, hrest⟩ := readType_eqAnyCase h
  unfold applyAttribute
  generalize hread : readType level = read at htype hrest
  generalize readType level' = read' at htype hrest
  obtain ⟨type, rest⟩ := read
  obtain ⟨type', rest'⟩ := read'
  -- The type comes first: both levels give it, neither has one, or both have a fault.
  rcases ok_or_error_of_toOption_eq htype with ⟨name, rfl, rfl⟩ | ⟨fault, fault', rfl, rfl⟩
  · cases name with
    | some name => exact .modify (endAlike_pure (.some ⟨rfl, hrest⟩))
    | none =>
      have hkeyword := isTypeKeyword_of_readType hread
      dsimp only
      -- Without a type, the word of the attribute decides; it is the same in capitals.
      rw [← h.map_word?_eq]
      split
      · exact endAlike_pure .none
      · rw [intentAt?_eqAnyCase h.next]
        split
        · exact .modify (endAlike_pure (.some ⟨rfl, h.next.next⟩))
        · exact endAlike_throw _ _
      · rename_i hfound
        -- The dimensions are taken as written, hence the assumption on the list of a `DIMENSION`.
        rw [h.next.groupContents?_eq
          (hdimension (attributeWord?_eq_some_iff.mpr ⟨hkeyword, hfound⟩))]
        split
        · exact .modify (endAlike_pure (.some ⟨rfl, h.next.next⟩))
        · exact endAlike_throw _ _
      · rename_i word _ _ _
        refine .get ?_
        -- What is left are the attributes that are a word alone.
        cases wordAttribute? scope.settings.markers word declarator with
        | none => exact endAlike_pure .none
        | some changed => exact Or.inl ⟨_, _, changed, rfl, rfl, .some ⟨rfl, h.next⟩⟩
  · exact endAlike_throw _ _

end Fortran

end CommonDecl

import CommonDecl.Proofs.LikeDeclarators
import CommonDecl.Proofs.RoundTrip

/-!
# How far readers look

A declarator is read without a look at what stands after it: whatever is appended to its level, as
long as it does not start with a bracket, stays as it is behind the rest (`Declarator.read_append`).
The same holds of an entity of Fortran, and of a list of attributes up to its `::`
(`Fortran.readAttributes_append`).
-/

namespace CommonDecl

open Level

variable {level stop : Level}

namespace Level

/-! ### What is appended -/

/-- A level does not start with a bracket. -/
def NoBracket (level : Level) : Prop :=
  ∀ item ∈ level.head?, item.bracket? = none

theorem NoBracket.noGroup (h : stop.NoBracket) (bracket : Bracket) : stop.NoGroup bracket := by
  intro item hitem
  rw [Item.isGroup, h item hitem]
  rfl

/-- The current item is one of the level itself. -/
theorem head?_append (h : level ≠ []) (stop : Level) : (level ++ stop).head? = level.head? := by
  cases level with
  | nil => exact absurd rfl h
  | cons item rest => rfl

/-- The step to the next item stays inside the level. -/
theorem next_append (h : level ≠ []) (stop : Level) : (level ++ stop).next = level.next ++ stop :=
  List.tail_append_of_ne_nil h

theorem isToken_append (h : level ≠ []) (stop : Level) (text : String) :
    (level ++ stop).isToken text = level.isToken text := by
  rw [isToken, isToken, head?_append h]

/-- No group stands at the end of the level. -/
theorem isGroup_append (hstop : stop.NoBracket) (bracket : Bracket) :
    (level ++ stop).isGroup bracket = level.isGroup bracket := by
  cases level with
  | nil => exact isGroup_of_noGroup (hstop.noGroup bracket)
  | cons item rest => rfl

/-- A group that is entered is one of the level. -/
theorem groupContents?_append (hstop : stop.NoBracket) (bracket : Bracket) :
    (level ++ stop).groupContents? bracket = level.groupContents? bracket := by
  cases level with
  | nil => exact groupContents?_of_noGroup (hstop.noGroup bracket)
  | cons item rest => rfl

theorem takeWhile_append_of_head {p : Item → Bool} (hstop : ∀ item ∈ stop.head?, p item = false) :
    (level ++ stop).takeWhile p = level.takeWhile p := by
  induction level with
  | nil => exact takeWhile_append_eq (by simp) hstop
  | cons item rest ih => rw [List.cons_append, List.takeWhile_cons, List.takeWhile_cons, ih]

theorem dropWhile_append_of_head {p : Item → Bool} (hstop : ∀ item ∈ stop.head?, p item = false) :
    (level ++ stop).dropWhile p = level.dropWhile p ++ stop := by
  induction level with
  | nil => exact dropWhile_append_eq (by simp) hstop
  | cons item rest ih =>
    rw [List.cons_append, List.dropWhile_cons, List.dropWhile_cons, ih]
    split <;> rfl

/-- No dimensions are appended. -/
theorem dimensions_append (hstop : stop.NoBracket) :
    (level ++ stop).dimensions = level.dimensions := by
  rw [dimensions, dimensions, takeWhile_append_of_head (hstop.noGroup .square)]

theorem afterDimensions_append (hstop : stop.NoBracket) :
    (level ++ stop).afterDimensions = level.afterDimensions ++ stop :=
  dropWhile_append_of_head (hstop.noGroup .square)

/-- What is taken from the front of a level, where it ends within the level, is the same with
anything appended. -/
theorem takeWhile_append_of_dropWhile {p : Item → Bool} (h : level.dropWhile p ≠ [])
    (stop : Level) : (level ++ stop).takeWhile p = level.takeWhile p ∧
      (level ++ stop).dropWhile p = level.dropWhile p ++ stop := by
  induction level with
  | nil => exact absurd rfl h
  | cons item rest ih =>
    rw [List.cons_append, List.takeWhile_cons, List.takeWhile_cons, List.dropWhile_cons,
      List.dropWhile_cons]
    rw [List.dropWhile_cons] at h
    by_cases hitem : p item = true
    · rw [if_pos hitem] at h
      obtain ⟨htake, hdrop⟩ := ih h
      simp only [if_pos hitem, htake, hdrop, and_self]
    · simp only [if_neg hitem, List.cons_append, and_self]

/-- Qualifiers that end within a level are the same with anything appended to it. -/
theorem qualifiers_append (h : level.afterQualifiers ≠ []) (stop : Level) :
    (level ++ stop).qualifiers = level.qualifiers ∧
      (level ++ stop).afterQualifiers = level.afterQualifiers ++ stop := by
  obtain ⟨htake, hdrop⟩ := takeWhile_append_of_dropWhile h stop
  exact ⟨by rw [qualifiers, htake, qualifiers], hdrop⟩

end Level

/-! ### Declarators of C -/

namespace Declarator

variable {scope : Scope}

/-- The name stands on the level, or none does. -/
theorem afterName_append (h : level ≠ []) (stop : Level) :
    afterName (level ++ stop) = afterName level ++ stop := by
  have hname : atName (level ++ stop) = atName level := by
    rw [atName, atName, isIdentifier, isIdentifier, head?_append h, isToken_append h]
  rw [afterName, afterName, hname, next_append h]
  split <;> rfl

/-- A name and its dimensions stand on the level. -/
theorem readName_append (h : level ≠ []) (hstop : stop.NoBracket) (declarator : Declarator) :
    readName declarator (level ++ stop) = readName declarator level := by
  have hname : atName (level ++ stop) = atName level := by
    rw [atName, atName, isIdentifier, isIdentifier, head?_append h, isToken_append h]
  have hvalue : (level ++ stop).value? = level.value? := by rw [value?, value?, head?_append h]
  rw [readName, readName, hname, hvalue, afterName_append h, dimensions_append hstop]

/-- As many nests are found as without what is appended. -/
theorem nestsAt_append (hstop : stop.NoBracket) : nestsAt (level ++ stop) = nestsAt level := by
  have hcontents : (level ++ stop).groupContents? .parenthesis =
      level.groupContents? .parenthesis :=
    groupContents?_append hstop .parenthesis
  cases h : level.groupContents? .parenthesis with
  | none => rw [nestsAt_of_none h, nestsAt_of_none (hcontents.trans h)]
  | some contents => rw [nestsAt_of_group h, nestsAt_of_group (hcontents.trans h)]

/-- No argument list is appended. -/
theorem readArgumentList_append (hstop : stop.NoBracket) :
    readArgumentList scope (level ++ stop) = readArgumentList scope level := by
  have hcontents : (level ++ stop).groupContents? .parenthesis =
      level.groupContents? .parenthesis :=
    groupContents?_append hstop .parenthesis
  cases h : level.groupContents? .parenthesis with
  | none => rw [readArgumentList_of_none h, readArgumentList_of_none (hcontents.trans h)]
  | some contents => rw [readArgumentList_of_group h, readArgumentList_of_group (hcontents.trans h)]

/-- The kind of the declarator does not depend on what is appended. -/
theorem kindAt_append (h : level ≠ []) (hstop : stop.NoBracket) (depth : Nat) :
    kindAt depth (level ++ stop) = kindAt depth level := by
  unfold kindAt
  rw [next_append h, isGroup_append hstop, afterName_append h, isGroup_append hstop]
  cases hafter : afterName level with
  | nil => rfl
  | cons item rest => rw [next_append (List.cons_ne_nil _ _), isGroup_append hstop]

/-- What is left behind the name or the nest has the appended items at its end. -/
theorem afterNests_append (h : level ≠ []) (hstop : stop.NoBracket) (depth : Nat)
    (kind : DeclaratorKind) :
    afterNests depth kind (level ++ stop) = afterNests depth kind level ++ stop := by
  unfold afterNests
  rw [afterName_append h, next_append h, afterDimensions_append hstop, afterDimensions_append hstop]
  split_ifs <;> rfl

/-- The dimensions behind the nests stand on the level. -/
theorem dimensionsAfterNests_append (h : level ≠ []) (hstop : stop.NoBracket) (depth : Nat)
    (kind : DeclaratorKind) :
    dimensionsAfterNests depth kind (level ++ stop) = dimensionsAfterNests depth kind level := by
  unfold dimensionsAfterNests
  rw [next_append h, dimensions_append hstop]

/-- The first nest is the current item, so what stands behind a level is not looked at for it. -/
theorem readNests_succ_append (h : level ≠ []) (depth : Nat) :
    readNests scope (depth + 1) (level ++ stop) = readNests scope (depth + 1) level := by
  have hcontents : (level ++ stop).contents? = level.contents? := by
    rw [contents?, contents?, head?_append h]
  cases hinside : level.contents? with
  | none =>
    rw [readNests_of_none depth hinside, readNests_of_none depth (hcontents.trans hinside), value?,
      value?, head?_append h]
  | some contents =>
    rw [readNests_of_contents depth hinside,
      readNests_of_contents depth (hcontents.trans hinside)]

/-- The nests are read inside the current item.  Where there are none, the name stands on the level
itself. -/
theorem readNests_append (h : level ≠ []) (hstop : stop.NoBracket) {depth : Nat}
    {nests : List Declarator} {innermost : Level}
    (hread : readNests scope depth level = .ok (nests, innermost)) :
    ∃ innermost', readNests scope depth (level ++ stop) = .ok (nests, innermost') ∧
      ∀ declarator, readName declarator innermost' = readName declarator innermost := by
  -- Without nests the innermost level is the level itself, and otherwise it is inside the first
  -- group.
  cases depth with
  | zero =>
    rw [readNests_zero] at hread
    cases hread
    exact ⟨level ++ stop, readNests_zero scope _, readName_append h hstop⟩
  | succ depth => exact ⟨innermost, by rw [readNests_succ_append h, hread], fun _ => rfl⟩

/-- Where the part after the type is not empty, what stands after it is not looked at. -/
theorem read_append_of_core {template : Option Declarator}
    {declarator result : Declarator} {rest : Level}
    (hafter : afterTypePart scope template (level ++ stop) =
    afterTypePart scope template level ++ stop)
    (htype : readType scope template declarator (level ++ stop) =
      readType scope template declarator level)
    (hne : afterTypePart scope template level ≠ []) (hstop : stop.NoBracket)
    (hread : read scope template declarator level = .ok (result, rest)) :
    read scope template declarator (level ++ stop) = .ok (result, rest ++ stop) := by
  -- Part by part; all but the rest is the same.
  rw [read_eq_ok_iff] at hread ⊢
  obtain ⟨nests, innermost, arguments, hnests, rfl, hrest⟩ := hread
  obtain ⟨innermost', hnests', hname⟩ := readNests_append hne hstop hnests
  refine ⟨nests, innermost', arguments, ?_, ?_, ?_⟩
  · rw [hafter, nestsAt_append hstop]
    exact hnests'
  · unfold assemble
    dsimp only
    rw [hafter, nestsAt_append hstop, kindAt_append hne hstop, htype, hname,
      dimensionsAfterNests_append hne hstop]
  · rw [hafter, nestsAt_append hstop, kindAt_append hne hstop, afterNests_append hne hstop]
    split
    · rename_i hfunction
      rw [if_pos hfunction] at hrest
      obtain ⟨hlist, rfl⟩ := hrest
      -- An argument list takes a group, so the level does not end in front of it.
      refine ⟨(readArgumentList_append hstop).trans hlist, (next_append ?_ stop).symm⟩
      rintro hnil
      rw [hnil, readArgumentList_of_none rfl] at hlist
      cases hlist
    · rename_i hfunction
      rw [if_neg hfunction] at hrest
      exact ⟨hrest.1, by rw [hrest.2]⟩

/-- A declarator that does not end in its qualifiers is read without a look at what stands after it.
-/
theorem read_append {shared declarator result : Declarator} {rest : Level}
    (h : level.afterQualifiers ≠ []) (hstop : stop.NoBracket)
    (hread : read scope (some shared) declarator level = .ok (result, rest)) :
    read scope (some shared) declarator (level ++ stop) = .ok (result, rest ++ stop) := by
  obtain ⟨hqualifiers, hcore⟩ := qualifiers_append h stop
  refine read_append_of_core hcore ?_ h hstop hread
  unfold readType
  dsimp only
  rw [hqualifiers]

end Declarator

/-! ### Attributes of Fortran -/

namespace Fortran

variable {scope : Scope} {colons : Item}

/-- The last item of the level is the `::` after its attributes. -/
def EndsIn (colons : Item) (level : Level) : Prop :=
  ∃ attributes, level = attributes ++ [colons]

/-- A level of attributes has at least the `::`. -/
theorem EndsIn.ne_nil (h : EndsIn colons level) : level ≠ [] := by
  obtain ⟨attributes, rfl⟩ := h
  exact List.append_ne_nil_of_right_ne_nil _ (List.cons_ne_nil _ _)

/-- Before its end, a level goes on to a level with the same end. -/
theorem EndsIn.next (h : EndsIn colons level) (hcolons : colons.isToken "::" = true)
    (hhead : level.isToken "::" = false) : EndsIn colons level.next := by
  obtain ⟨attributes, rfl⟩ := h
  cases attributes with
  | nil =>
    have hend : Level.isToken ([] ++ [colons]) "::" = true := hcolons
    rw [hend] at hhead
    cases hhead
  | cons item attributes => exact ⟨attributes, rfl⟩

/-- The current word is one of the level. -/
theorem value?_append (h : level ≠ []) (tail : Level) : (level ++ tail).value? = level.value? := by
  rw [value?, value?, head?_append h]

/-- The current group is one of the level. -/
theorem groupContents?_append (h : level ≠ []) (tail : Level) (bracket : Bracket) :
    (level ++ tail).groupContents? bracket = level.groupContents? bracket := by
  rw [groupContents?, groupContents?, bracket?, bracket?, contents?, contents?, head?_append h]

section

variable (h : EndsIn colons level) (hcolons : colons.isToken "::" = true) (tail : Level)
include h hcolons

/-- Behind a group the attributes go on to their `::`. -/
theorem EndsIn.next_of_group {bracket : Bracket} {list : Level}
    (hlist : level.groupContents? bracket = some list) : EndsIn colons level.next :=
  h.next hcolons (isToken_eq_false_of_groupContents? hlist)

/-- The keyword of a type stands before the end of the attributes. -/
theorem keywordAt_append (hhead : level.isToken "::" = false) :
    EndsIn colons (keywordAt level).2 ∧
      keywordAt (level ++ tail) = ((keywordAt level).1, (keywordAt level).2 ++ tail) := by
  have hnext := h.next hcolons hhead
  have hany : (level.next ++ tail).isTokenAnyCase "PRECISION" =
      level.next.isTokenAnyCase "PRECISION" := by
    rw [isTokenAnyCase, isTokenAnyCase, head?_append hnext.ne_nil]
  unfold keywordAt
  dsimp only
  rw [value?_append h.ne_nil, next_append h.ne_nil, hany, next_append hnext.ne_nil]
  split
  · rename_i hdouble
    -- `PRECISION` is no `::`, so the attributes go on behind it.
    obtain ⟨value, hvalue, heq⟩ := value?_of_isTokenAnyCase hdouble.2
    refine ⟨hnext.next hcolons (isToken_eq_false_of_value? ?_), rfl⟩
    rw [hvalue]
    rintro ⟨rfl⟩
    exact absurd heq (by decide +kernel)
  · exact ⟨hnext, rfl⟩

/-- A type that is read stands before the end of the attributes: its width is no `::`. -/
theorem readType_append (hhead : level.isToken "::" = false) {type : Option String} {rest : Level}
    (hread : readType level = (.ok type, rest)) :
    EndsIn colons rest ∧ readType (level ++ tail) = (.ok type, rest ++ tail) := by
  obtain ⟨hends, hkeyword⟩ := keywordAt_append h hcolons tail hhead
  have htype : (level ++ tail).isTypeKeyword = level.isTypeKeyword := by
    rw [isTypeKeyword, isTypeKeyword, head?_append h.ne_nil]
  unfold readType at hread ⊢
  rw [htype, hkeyword]
  generalize keywordAt level = found at hends hread
  obtain ⟨keyword, after⟩ := found
  dsimp only at hends hread ⊢
  rw [isToken_append hends.ne_nil, groupContents?_append hends.ne_nil, next_append hends.ne_nil]
  -- Along the forms of a type; each of its parts stands before the `::`, as none of them can be
  -- one.
  split at hread
  · rename_i hkeyword
    rw [if_pos hkeyword]
    split at hread
    · rename_i hstar
      have hafter := hends.next hcolons (isToken_eq_false_of_isToken hstar (by decide))
      rw [if_pos hstar, value?_append hafter.ne_nil, next_append hafter.ne_nil]
      split at hread
      · rename_i width hwidth
        obtain ⟨htype, rfl⟩ := Prod.mk.inj hread
        rw [htype]
        refine ⟨hafter.next hcolons (isToken_eq_false_of_value? fun hvalue => ?_), rfl⟩
        rw [hvalue] at hwidth
        -- A width is a number, and `::` is none.
        exact absurd hwidth (by simp [widthOf, show number? "::" = none by decide])
      · cases hread
    · rename_i hstar
      rw [if_neg hstar]
      split at hread
      · rename_i list hlist
        split at hread
        · rename_i width hwidth
          obtain ⟨htype, rfl⟩ := Prod.mk.inj hread
          rw [htype]
          exact ⟨hends.next_of_group hcolons hlist, rfl⟩
        · cases hread
      · rename_i hlist
        obtain ⟨htype, rfl⟩ := Prod.mk.inj hread
        rw [htype]
        exact ⟨hends, rfl⟩
  · rename_i hkeyword
    cases hread
    rw [if_neg hkeyword]
    exact ⟨h, rfl⟩

/-- An attribute that is applied stands before the end of the attributes. -/
theorem applyAttribute_append (hhead : level.isToken "::" = false) {declarator changed : Declarator}
    {result : Option (Bool × Level)}
    (happly : applyAttribute scope level declarator = .ok result changed) :
    (∀ found ∈ result, EndsIn colons found.2) ∧
      applyAttribute scope (level ++ tail) declarator =
        .ok (result.map fun found => (found.1, found.2 ++ tail)) changed := by
  have hnext := h.next hcolons hhead
  have hword : (level ++ tail).word? = level.word? := by
    rw [word?, word?, bracket?, bracket?, head?_append h.ne_nil, value?_append h.ne_nil]
  unfold applyAttribute at happly ⊢
  generalize hread : readType level = read at happly
  obtain ⟨type, rest⟩ := read
  -- Along the branches of the definition, with the same branch taken on both sides.
  cases type with
  | error fault => cases happly
  | ok type =>
    obtain ⟨hrest, hread'⟩ := readType_append h hcolons tail hhead hread
    rw [hread']
    cases type with
    | some typeName =>
      cases happly
      exact ⟨by simpa using hrest, rfl⟩
    | none =>
      -- What follows the word of an attribute is a group, which is no `::` either.
      have hlist : (level ++ tail).next.groupContents? .parenthesis =
          level.next.groupContents? .parenthesis := by
        rw [next_append h.ne_nil, groupContents?_append hnext.ne_nil]
      have hafter : (level ++ tail).next.next = level.next.next ++ tail := by
        rw [next_append h.ne_nil, next_append hnext.ne_nil]
      dsimp only at happly ⊢
      rw [hword, intentAt?, hlist, hafter, next_append h.ne_nil]
      generalize level.word?.map upperCase = word at happly ⊢
      split at happly
      · cases happly
        exact ⟨by simp, rfl⟩
      · rw [intentAt?] at happly
        cases hintent : (level.next.groupContents? .parenthesis >>= Level.value?).map upperCase with
        | none =>
          rw [hintent] at happly
          cases happly
        | some intent =>
          rw [hintent] at happly
          cases happly
          obtain ⟨value, hvalue, -⟩ := Option.map_eq_some_iff.mp hintent
          obtain ⟨list, hlist, -⟩ := Option.bind_eq_some_iff.mp hvalue
          exact ⟨by simpa using hnext.next_of_group hcolons hlist, rfl⟩
      · cases hdimensions : level.next.groupContents? .parenthesis with
        | none =>
          rw [hdimensions] at happly
          cases happly
        | some list =>
          rw [hdimensions] at happly
          cases happly
          exact ⟨by simpa using hnext.next_of_group hcolons hdimensions, rfl⟩
      · rename_i word _ _
        obtain ⟨current, _, hget, happly⟩ := bind_apply_eq_ok_iff.mp happly
        cases hget
        rw [bind_of_ok (show (get : Attributing Declarator) declarator =
          .ok declarator declarator from rfl)]
        cases hchanged : wordAttribute? scope.settings.markers word declarator with
        | none =>
          rw [hchanged] at happly
          cases happly
          exact ⟨by simp, rfl⟩
        | some other =>
          rw [hchanged] at happly
          cases happly
          exact ⟨by simpa using hnext, rfl⟩

/-- Attributes that are applied end where their level does, whatever stands after it. -/
theorem applyAttributes_append {deferred deferred' : Bool}
    {declarator changed : Declarator} {rest : Level}
    (happly : applyAttributes scope deferred level declarator = .ok (deferred', rest) changed) :
    applyAttributes scope deferred (level ++ tail) declarator =
      .ok (deferred', rest ++ tail) changed := by
  -- Along the loop; the level ends in its `::` at each round.
  induction deferred, level using applyAttributes_induct generalizing declarator with
  | ends deferred level hend => exact absurd (List.isEmpty_iff.mp hend) h.ne_nil
  | colons deferred level hend hdone =>
    rw [applyAttributes, if_neg hend, if_pos hdone] at happly
    cases happly
    have hend' : ¬ (level ++ tail).atEnd = true := by
      simpa [Level.atEnd] using fun h' => absurd h' h.ne_nil
    rw [applyAttributes, if_neg hend', if_pos (by rwa [isToken_append h.ne_nil]),
      next_append h.ne_nil]
    rfl
  | entry deferred level hend hdone ih =>
    have hend' : ¬ (level ++ tail).atEnd = true := by
      simpa [Level.atEnd] using fun h' => absurd h' h.ne_nil
    have hdone' : ¬ (level ++ tail).isToken "::" = true := by rwa [isToken_append h.ne_nil]
    rw [applyAttributes, if_neg hend, if_neg hdone] at happly
    obtain ⟨result, middle, hattribute, happly⟩ := bind_apply_eq_ok_iff.mp happly
    obtain ⟨hends, hattribute'⟩ :=
      applyAttribute_append h hcolons tail (Bool.eq_false_iff.mpr hdone) hattribute
    rw [applyAttributes, if_neg hend', if_neg hdone', bind_of_ok hattribute']
    cases result with
    | none =>
      cases happly
      rfl
    | some found =>
      obtain ⟨deferredHere, after⟩ := found
      have hafter : EndsIn colons after := hends _ rfl
      dsimp only [Option.map_some] at happly ⊢
      rw [isToken_append hafter.ne_nil, next_append hafter.ne_nil, isToken_append hafter.ne_nil]
      -- Both rests are shorter, or neither is: the same items are appended to them.
      have hshorter : (after.next ++ tail).length < (level ++ tail).length ↔
          after.next.length < level.length := by
        rw [List.length_append, List.length_append, Nat.add_lt_add_iff_right]
      split at happly
      · rename_i hcomma
        rw [if_pos ⟨hcomma.1, hshorter.mpr hcomma.2⟩]
        have hnext := hafter.next hcolons (isToken_eq_false_of_isToken hcomma.1 (by decide))
        exact ih deferredHere after hcomma hnext happly
      · rename_i hcomma
        rw [if_neg fun h => hcomma ⟨h.1, hshorter.mp h.2⟩]
        cases happly
        split <;> rfl

/-- Attributes are read up to their `::` whatever stands after it. -/
theorem readAttributes_append {declarator changed : Declarator} {rest : Level}
    (hread : readAttributes scope level declarator = .ok rest changed) :
    readAttributes scope (level ++ tail) declarator = .ok (rest ++ tail) changed := by
  unfold readAttributes at hread ⊢
  obtain ⟨⟨deferred, after⟩, middle, happly, hread⟩ := bind_apply_eq_ok_iff.mp hread
  rw [bind_of_ok (applyAttributes_append h hcolons tail happly)]
  dsimp only at hread ⊢
  cases deferred with
  | false =>
    cases hread
    rfl
  | true =>
    cases hread
    rfl

end

end Fortran

end CommonDecl

import CommonDecl.Qualifiers.Edit
import Mathlib.Algebra.Group.Nat.Defs
import Mathlib.Data.List.Infix

/-!
# Edits of qualifiers and edits of lists

Positions and lengths are words of 64 bits.  What an edit makes of a list of names is said here by
the parts that the list is put together from, with lengths that are natural numbers (`Edit.Makes`).
Qualifiers are edited in that way, and an edit that makes nothing of their list is refused and
leaves them as they are (`make_eq_error`); so edits one after the other do the same to the
qualifiers as to the list (`makesAll_iff`).  The one bound is that no list on the way is `2 ^ 63`
names long, as no list in memory is.
-/

namespace CommonDecl

/-! ### Sums of words -/

/-- A sum of two words that exceeds a word wraps below either of them. -/
theorem add_lt_iff {a b : UInt64} : a + b < a ↔ 2 ^ 64 ≤ a.toNat + b.toNat := by
  have ha := a.toNat_lt
  have hb := b.toNat_lt
  rw [UInt64.lt_iff_toNat_lt, UInt64.toNat_add]
  omega

theorem checkedAdd_of_lt {a b : UInt64} (h : a.toNat + b.toNat < 2 ^ 64) :
    ∃ sum, checkedAdd a b = some sum ∧ sum.toNat = a.toNat + b.toNat := by
  refine ⟨a + b, ?_, ?_⟩
  · rw [checkedAdd, if_neg (by rw [add_lt_iff]; omega)]
  · rw [UInt64.toNat_add, Nat.mod_eq_of_lt h]

theorem checkedAdd_of_le {a b : UInt64} (h : 2 ^ 64 ≤ a.toNat + b.toNat) :
    checkedAdd a b = none := by
  rw [checkedAdd, if_pos (add_lt_iff.mpr h)]

theorem saturatingAdd_of_le {a b : UInt64} (h : 2 ^ 64 ≤ a.toNat + b.toNat) :
    (saturatingAdd a b).toNat = 2 ^ 64 - 1 := by
  rw [saturatingAdd, checkedAdd_of_le h]
  rfl

namespace Qualifiers

variable {name : String} {names names' front gone back : List String}
  {position length : UInt64} {edit : Edit} {edits : List Edit}

/-! ### Edits by position -/

/-- A name is put in where the list is parted. -/
theorem addAt_append (h : front.length = position.toNat) :
    addAt ⟨front ++ back⟩ name position = .ok ⟨front ++ name :: back⟩ := by
  have hinsert : (front ++ back).insertIdx front.length name = front ++ name :: back :=
    List.modifyTailIdx_add (List.cons name) 0 front back
  have hcount : ¬ count ⟨front ++ back⟩ < position.toNat := by
    rw [count, List.length_append]
    omega
  rw [addAt, if_neg hcount, ← h, hinsert]

theorem addAt_of_lt (h : names.length < position.toNat) :
    addAt ⟨names⟩ name position = .error (.outOfRange position.toNat names.length) :=
  if_pos h

/-- The part between two others is taken out. -/
theorem removeRange_append (hfront : front.length = position.toNat)
    (hgone : gone.length = length.toNat) (h : (front ++ gone ++ back).length < 2 ^ 64) :
    removeRange ⟨front ++ gone ++ back⟩ position length = .ok ⟨front ++ back⟩ := by
  rw [List.length_append, List.length_append] at h
  obtain ⟨stop, hadd, hstop⟩ := checkedAdd_of_lt (a := position) (b := length) (by omega)
  have hle : stop.toNat ≤ count ⟨front ++ gone ++ back⟩ := by
    rw [count, List.length_append, List.length_append]
    omega
  have hboth : (front ++ gone).length = stop.toNat := by
    rw [List.length_append]
    omega
  rw [removeRange, hadd]
  dsimp only
  rw [if_pos hle, List.drop_left' hboth, List.append_assoc, List.take_left' hfront]

/-- A range that ends behind the last name is refused; the fault names a place behind the last name.
-/
theorem removeRange_of_lt (hcount : names.length < 2 ^ 63)
    (h : names.length < position.toNat + length.toNat) :
    ∃ index, removeRange ⟨names⟩ position length = .error (.outOfRange index names.length) ∧
      names.length ≤ index := by
  rw [removeRange]
  by_cases hword : position.toNat + length.toNat < 2 ^ 64
  · obtain ⟨stop, hadd, hstop⟩ := checkedAdd_of_lt hword
    have hlt : ¬ stop.toNat ≤ count ⟨names⟩ := by
      show ¬ stop.toNat ≤ names.length
      omega
    refine ⟨stop.toNat - 1, ?_, by omega⟩
    rw [hadd]
    dsimp only
    rw [if_neg hlt, count]
  · -- The end is no word, and the largest word is taken for it.
    have hword : 2 ^ 64 ≤ position.toNat + length.toNat := Nat.le_of_not_lt hword
    refine ⟨2 ^ 64 - 1 - 1, ?_, by omega⟩
    rw [checkedAdd_of_le hword]
    dsimp only
    rw [saturatingAdd_of_le hword, count]

/-! ### One edit -/

/-- What an edit makes of a list of names. -/
inductive Edit.Makes : Edit → List String → List String → Prop where
  | add (name : String) (names : List String) : Makes (.add name) names (names ++ [name])
  | pushFront (name : String) (names : List String) : Makes (.pushFront name) names (name :: names)
  | addAt {name : String} {position : UInt64} {front back : List String} (hfront : front.length =
    position.toNat) :
    Makes (.addAt name position) (front ++ back) (front ++ name :: back)
  /-- Only the first of several equal names goes. -/
  | remove {name : String} {front back : List String} (hfront : name ∉ front) :
    Makes (.remove name) (front ++ name :: back) (front ++ back)
  | removeNothing {name : String} {names : List String} (hnames : name ∉ names) :
    Makes (.remove name) names names
  | removeRange {position length : UInt64} {front gone back : List String}
    (hfront : front.length = position.toNat) (hgone : gone.length = length.toNat) :
    Makes (.removeRange position length) (front ++ gone ++ back) (front ++ back)
  | clear (names : List String) : Makes .clear names []

/-- The qualifiers become what the edit makes of their list. -/
theorem Edit.Makes.make_eq (h : edit.Makes names names') (hcount : names.length < 2 ^ 64) :
    edit.make ⟨names⟩ = .ok () ⟨names'⟩ := by
  cases h with
  | add name names => rfl
  | pushFront name names => rfl
  | addAt hfront => rw [make, Editing.replaceBy, addAt_append hfront]
  | @remove name front back hfront =>
    have herase : (front ++ name :: back).erase name = front ++ back := by
      rw [List.erase_append_right _ hfront, List.erase_cons_head]
    exact congrArg (fun list => EStateM.Result.ok () (⟨list⟩ : Qualifiers)) herase
  | removeNothing hnames =>
    exact congrArg (fun list => EStateM.Result.ok () (⟨list⟩ : Qualifiers))
      (List.erase_of_not_mem hnames)
  | removeRange hfront hgone =>
    rw [make, Editing.replaceBy, removeRange_append hfront hgone hcount]
  | clear names => rfl

/-- An edit makes one list at most. -/
theorem Edit.Makes.unique {names₁ names₂ : List String} (h₁ : edit.Makes names names₁)
    (h₂ : edit.Makes names names₂) (hcount : names.length < 2 ^ 64) : names₁ = names₂ := by
  have heq := (h₁.make_eq hcount).symm.trans (h₂.make_eq hcount)
  cases heq
  rfl

theorem exists_makes_addAt_iff :
    (∃ names', (Edit.addAt name position).Makes names names') ↔ position.toNat ≤ names.length := by
  constructor
  · rintro ⟨names', h⟩
    cases h with
    | addAt hfront =>
      rw [List.length_append]
      omega
  · intro hle
    have hfront : (names.take position.toNat).length = position.toNat := List.length_take_of_le hle
    have hmakes : (Edit.addAt name position).Makes
        (names.take position.toNat ++ names.drop position.toNat) _ :=
      .addAt hfront
    rw [List.take_append_drop] at hmakes
    exact ⟨_, hmakes⟩

theorem exists_makes_removeRange_iff :
    (∃ names', (Edit.removeRange position length).Makes names names') ↔
      position.toNat + length.toNat ≤ names.length := by
  constructor
  · rintro ⟨names', h⟩
    cases h with
    | removeRange hfront hgone =>
      rw [List.length_append, List.length_append]
      omega
  · intro hle
    have hfront : (names.take position.toNat).length = position.toNat :=
      List.length_take_of_le (by omega)
    have hgone : ((names.drop position.toNat).take length.toNat).length = length.toNat := by
      rw [List.length_take, List.length_drop]
      omega
    have hmakes : (Edit.removeRange position length).Makes (names.take position.toNat ++
        (names.drop position.toNat).take length.toNat ++ (names.drop position.toNat).drop
            length.toNat) _ :=
      .removeRange hfront hgone
    rw [List.append_assoc, List.take_append_drop, List.take_append_drop] at hmakes
    exact ⟨_, hmakes⟩

theorem exists_makes_remove : ∃ names', (Edit.remove name).Makes names names' := by
  by_cases h : name ∈ names
  · obtain ⟨front, back, hfront, rfl, -⟩ := List.exists_erase_eq h
    exact ⟨_, .remove hfront⟩
  · exact ⟨_, .removeNothing h⟩

/-- An edit that makes nothing of the list is refused; the fault names the length of the list and a
place behind its last name. -/
theorem make_eq_error (h : ∀ names', ¬ edit.Makes names names') (hcount : names.length < 2 ^ 63) :
    ∃ index, edit.make ⟨names⟩ = .error (.outOfRange index names.length) ⟨names⟩ ∧
      names.length ≤ index := by
  cases edit with
  | add name => exact (h _ (.add name names)).elim
  | pushFront name => exact (h _ (.pushFront name names)).elim
  | addAt name position =>
    have hlt : names.length < position.toNat :=
      Nat.lt_of_not_le fun hle => not_exists.mpr h (exists_makes_addAt_iff.mpr hle)
    refine ⟨position.toNat, ?_, Nat.le_of_lt hlt⟩
    rw [Edit.make, Editing.replaceBy, addAt_of_lt hlt]
  | remove name => exact (not_exists.mpr h exists_makes_remove).elim
  | removeRange position length =>
    have hlt : names.length < position.toNat + length.toNat :=
      Nat.lt_of_not_le fun hle => not_exists.mpr h (exists_makes_removeRange_iff.mpr hle)
    obtain ⟨index, hremove, hindex⟩ := removeRange_of_lt hcount hlt
    refine ⟨index, ?_, hindex⟩
    rw [Edit.make, Editing.replaceBy, hremove]
  | clear => exact (h _ (.clear names)).elim

/-! ### Edits one after the other -/

/-- The qualifiers after edits, those left out that are refused. -/
def afterAll (qualifiers : Qualifiers) : List Edit → Qualifiers
  | [] => qualifiers
  | edit :: rest =>
    match edit.make qualifiers with
    | .ok () edited => afterAll edited rest
    | .error _ left => afterAll left rest

/-- What edits one after the other make of a list of names, those left out that make nothing of it.
-/
inductive MakesAll : List Edit → List String → List String → Prop where
  | nil (names : List String) : MakesAll [] names names
  | made {edit : Edit} {rest : List Edit} {names names' names'' : List String}
    (hedit : edit.Makes names names')
    (hrest : MakesAll rest names' names'') : MakesAll (edit :: rest) names names''
  | leftOut {edit : Edit} {rest : List Edit} {names names' : List String} (hedit : ∀ made,
    ¬ edit.Makes names made)
    (hrest : MakesAll rest names names') : MakesAll (edit :: rest) names names'

theorem afterAll_of_makes (h : edit.Makes names names') (hcount : names.length < 2 ^ 63)
    (rest : List Edit) :
    afterAll ⟨names⟩ (edit :: rest) = afterAll ⟨names'⟩ rest := by
  rw [afterAll, h.make_eq (by omega)]

theorem afterAll_of_not_makes (h : ∀ made, ¬ edit.Makes names made) (hcount : names.length < 2 ^ 63)
    (rest : List Edit) : afterAll ⟨names⟩ (edit :: rest) = afterAll ⟨names⟩ rest := by
  obtain ⟨index, hmake, -⟩ := make_eq_error h hcount
  rw [afterAll, hmake]

/-- No list of names on the way through edits is `2 ^ 63` names long. -/
def StaysShort (qualifiers : Qualifiers) (edits : List Edit) : Prop :=
  ∀ before ∈ edits.inits, (qualifiers.afterAll before).count < 2 ^ 63

instance (qualifiers : Qualifiers) (edits : List Edit) : Decidable (StaysShort qualifiers edits) :=
  inferInstanceAs (Decidable (∀ before ∈ edits.inits, (qualifiers.afterAll before).count < 2 ^ 63))

theorem StaysShort.count_lt (h : StaysShort ⟨names⟩ edits) : names.length < 2 ^ 63 :=
  h [] ((List.mem_inits [] edits).mpr List.nil_prefix)

theorem StaysShort.of_makes {rest : List Edit} (h : StaysShort ⟨names⟩ (edit :: rest))
    (hedit : edit.Makes names names') :
    StaysShort ⟨names'⟩ rest := by
  intro before hbefore
  have hmem : edit :: before ∈ (edit :: rest).inits := by simpa using hbefore
  have hcount := h _ hmem
  rwa [afterAll_of_makes hedit h.count_lt] at hcount

theorem StaysShort.of_not_makes {rest : List Edit} (h : StaysShort ⟨names⟩ (edit :: rest))
    (hedit : ∀ made, ¬ edit.Makes names made) : StaysShort ⟨names⟩ rest := by
  intro before hbefore
  have hmem : edit :: before ∈ (edit :: rest).inits := by simpa using hbefore
  have hcount := h _ hmem
  rwa [afterAll_of_not_makes hedit h.count_lt] at hcount

/-- Edits make of qualifiers what they make of their list. -/
theorem makesAll_iff (h : StaysShort ⟨names⟩ edits) :
    MakesAll edits names names' ↔ names' = (afterAll ⟨names⟩ edits).toList := by
  induction edits generalizing names with
  | nil =>
    constructor
    · rintro ⟨⟩
      rfl
    · rintro rfl
      exact .nil _
  | cons edit rest ih =>
    have hcount := h.count_lt
    -- An edit is made or left out, and never both; what it makes is the one list it can make.
    by_cases hedit : ∃ made, edit.Makes names made
    · obtain ⟨made, hmade⟩ := hedit
      rw [afterAll_of_makes hmade hcount, ← ih (h.of_makes hmade)]
      constructor
      · intro hall
        cases hall with
        | made hedit hrest => rwa [hmade.unique hedit (by omega)]
        | leftOut hedit hrest => exact (hedit made hmade).elim
      · exact .made hmade
    · have hedit : ∀ made, ¬ edit.Makes names made := not_exists.mp hedit
      rw [afterAll_of_not_makes hedit hcount, ← ih (h.of_not_makes hedit)]
      constructor
      · intro hall
        cases hall with
        | made hmade hrest => exact (hedit _ hmade).elim
        | leftOut _ hrest => exact hrest
      · exact .leftOut hedit

/-! ### Exact edits -/

/-- The qualifiers are edited as their list is, and an edit that cannot be made changes nothing. -/
structure AreEditedExactly (qualifiers : Qualifiers) : Prop where
  /-- An edit succeeds where it makes something of the list, and gives that. -/
  make_eq_ok_iff (edit : Edit) (edited : Qualifiers) :
    edit.make qualifiers = .ok () edited ↔ edit.Makes qualifiers.toList edited.toList
  /-- A refused edit leaves the qualifiers as they are.  The fault names their number and a place
  behind the last one. -/
  of_make_eq_error (edit : Edit) (fault : Fault) (left : Qualifiers) (h : edit.make qualifiers =
    .error fault left) :
    left = qualifiers ∧ ∃ index, fault = .outOfRange index qualifiers.count ∧
      qualifiers.count ≤ index
  /-- A range is taken out exactly where it ends within the list. -/
  removeRange_iff (position length : UInt64) :
    (∃ edited, (Edit.removeRange position length).make qualifiers = .ok () edited) ↔
      position.toNat + length.toNat ≤ qualifiers.count
  /-- A name is put in exactly at the places of the list and at its end. -/
  addAt_iff (name : String) (position : UInt64) :
    (∃ edited, (Edit.addAt name position).make qualifiers = .ok () edited) ↔
      position.toNat ≤ qualifiers.count
  /-- A name that was put in and is taken out again leaves no trace. -/
  removeRange_addAt (name : String) (position : UInt64) (edited : Qualifiers)
    (h : (Edit.addAt name position).make qualifiers = .ok () edited) :
    (Edit.removeRange position 1).make edited = .ok () qualifiers
  /-- Edits one after the other make of the qualifiers what they make of the list. -/
  edits_iff (edits : List Edit) (h : StaysShort qualifiers edits) (names : List String) :
    MakesAll edits qualifiers.toList names ↔ names = (qualifiers.afterAll edits).toList

/-- Qualifiers are edited exactly, as long as memory can hold them. -/
theorem areEditedExactly {qualifiers : Qualifiers} (h : qualifiers.count < 2 ^ 63) :
    AreEditedExactly qualifiers := by
  obtain ⟨names⟩ := qualifiers
  have hcount : names.length < 2 ^ 63 := h
  have hword : names.length < 2 ^ 64 := by omega
  -- An edit succeeds exactly where it makes something of the names, for otherwise it fails.
  have hmake (edit : Edit) (edited : Qualifiers) :
      edit.make ⟨names⟩ = .ok () edited ↔ edit.Makes names edited.toList := by
    refine ⟨fun hok => ?_, fun hmakes => hmakes.make_eq hword⟩
    by_cases hmakes : ∃ names', edit.Makes names names'
    · obtain ⟨names', hmakes⟩ := hmakes
      cases (hmakes.make_eq hword).symm.trans hok
      exact hmakes
    · obtain ⟨index, herror, -⟩ := make_eq_error (not_exists.mp hmakes) hcount
      cases herror.symm.trans hok
  have hexists (edit : Edit) : (∃ edited, edit.make ⟨names⟩ = .ok () edited) ↔ ∃ names',
      edit.Makes names names' :=
    ⟨fun ⟨edited, hok⟩ => ⟨edited.toList, (hmake edit edited).mp hok⟩,
      fun ⟨names', hmakes⟩ => ⟨⟨names'⟩, hmakes.make_eq hword⟩⟩
  constructor
  case make_eq_ok_iff => exact hmake
  case of_make_eq_error =>
    intro edit fault left herror
    have hnothing : ∀ names', ¬ edit.Makes names names' := by
      intro names' hmakes
      cases (hmakes.make_eq hword).symm.trans herror
    obtain ⟨index, hfault, hindex⟩ := make_eq_error hnothing hcount
    cases hfault.symm.trans herror
    exact ⟨rfl, index, rfl, hindex⟩
  case removeRange_iff =>
    intro position length
    rw [hexists, exists_makes_removeRange_iff]
    rfl
  case addAt_iff =>
    intro name position
    rw [hexists, exists_makes_addAt_iff]
    rfl
  case removeRange_addAt =>
    intro name position edited hok
    obtain ⟨names'⟩ := edited
    cases (hmake _ _).mp hok with
    | @addAt _ _ front back hfront =>
      -- What was put between the two parts is taken out from between them.
      have hmakes : (Edit.removeRange position 1).Makes (front ++ [name] ++ back) (front ++ back) :=
        .removeRange hfront rfl
      rw [List.append_assoc, List.singleton_append] at hmakes
      refine hmakes.make_eq ?_
      rw [List.length_append] at hcount
      rw [List.length_append, List.length_cons]
      omega
  case edits_iff => exact fun edits hshort names' => makesAll_iff hshort

/-- Edits of which the third to the fifth are refused: two ranges whose end is no word, and an empty
one behind the last name. -/
def severalEdits : List Edit :=
  [.addAt "volatile" 1, .removeRange 3 0, .removeRange 1 0xFFFFFFFFFFFFFFFF,
    .removeRange 0xFFFFFFFFFFFFFFFF 1, .removeRange 4 0, .pushFront "static", .removeRange 1 2,
    .add "&", .remove "*", .addAt "*" 2]

theorem areEditedExactly_constPointer :
    count ⟨["const", "*"]⟩ < 2 ^ 63 ∧ AreEditedExactly ⟨["const", "*"]⟩ ∧
      StaysShort ⟨["const", "*"]⟩ severalEdits ∧ MakesAll severalEdits ["const", "*"] ["static",
        "&", "*"] := by
  have hcount : count ⟨["const", "*"]⟩ < 2 ^ 63 := by decide
  have hshort : StaysShort ⟨["const", "*"]⟩ severalEdits := by decide +kernel
  have hafter : ["static", "&", "*"] = (afterAll ⟨["const", "*"]⟩ severalEdits).toList := by
    decide +kernel
  have hexact := areEditedExactly hcount
  exact ⟨hcount, hexact, hshort, (hexact.edits_iff severalEdits hshort _).mpr hafter⟩

end Qualifiers

end CommonDecl

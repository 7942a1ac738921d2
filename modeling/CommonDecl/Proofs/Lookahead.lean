import CommonDecl.Declarator.Read
import CommonDecl.Proofs.Places
import CommonDecl.Proofs.Rests

/-!
# Looking ahead in a declarator

Before a declarator is read, a look ahead counts its nests (`nestsAt`) and decides from what stands
after them whether an argument list follows (`kindAt`).  The look ahead goes over exactly the items
that the readers go over afterwards, so they find the groups that it promised: reading a declarator
never fails (`Declarator.exists_read`).  Which name is read depends on the items alone
(`Declarator.read_name`).
-/

namespace CommonDecl

open Level

variable {level contents : Level}

namespace Declarator

/-! ### The nests that were counted -/

/-- Where a nest was counted there is a group, and inside it one nest less. -/
theorem exists_nest {depth : Nat} (h : depth + 1 ≤ nestsAt level) :
    ∃ contents, level.contents? = some contents ∧ depth ≤ nestsAt (insideNest contents) := by
  cases hcontents : level.groupContents? .parenthesis with
  | none =>
    rw [nestsAt_of_none hcontents] at h
    omega
  | some contents =>
    rw [nestsAt_of_group hcontents] at h
    refine ⟨contents, contents?_of_groupContents? hcontents, ?_⟩
    split at h
    · omega
    · omega

/-- A declarator that was classified as a function has its argument list where it is read. -/
theorem exists_arguments_of_kindAt {depth : Nat} (h : (kindAt depth level).isFunction = true) :
    ∃ contents, (afterNests depth (kindAt depth level) level).groupContents? .parenthesis =
      some contents := by
  apply exists_groupContents?
  by_cases hdepth : 0 < depth
  · have hpointer : level.next.isGroup .parenthesis = true := by
      cases hother : level.next.isGroup .parenthesis with
      | true => rfl
      | false =>
        rw [kindAt, if_pos hdepth, hother] at h
        cases h
    rwa [afterNests, if_neg (by omega), if_pos h]
  · have hlist : (afterName level).isGroup .parenthesis = true := by
      cases hother : (afterName level).isGroup .parenthesis with
      | true => rfl
      | false =>
        rw [kindAt, if_neg hdepth, hother] at h
        cases h
    rw [afterNests, if_pos (by omega)]
    -- Dimensions stand in square brackets, so there are none before the list.
    cases hname : afterName level with
    | nil =>
      rw [hname] at hlist
      cases hlist
    | cons item rest =>
      rw [hname] at hlist
      have hbracket : item.bracket? = some .parenthesis := eq_of_beq hlist
      have hsquare : ¬ item.isGroup .square = true := by
        rw [Item.isGroup, hbracket]
        decide
      rw [afterDimensions, List.dropWhile_cons_of_neg hsquare]
      exact hlist

/-- Reading a declarator never fails, whatever was read into it before and whatever the items are,
and neither does reading its arguments or its nests, as many as were counted. -/
theorem exists_read_all (scope : Scope) :
    (∀ template declarator level, ∃ result, read scope template declarator level = .ok result) ∧
    (∀ level, ∃ result, readArgumentList scope level = .ok result) ∧
    (∀ level, ∃ result, readArguments scope level = .ok result) ∧
    ∀ depth level, depth ≤ nestsAt level → ∃ result, readNests scope depth level = .ok result := by
  -- By the readers' own induction.  Each nest that is read leaves one less to be counted.
  apply read_induct scope
  case declarator =>
    intro template declarator level core depth kind rest hnests harguments
    rw [read]
    -- As many nests are read as were counted.
    refine exists_bind_ok (hnests (Nat.le_refl _)) fun result _ => ?_
    dsimp only
    split
    · rename_i hfunction
      refine exists_bind_ok harguments fun arguments hread => ?_
      obtain ⟨contents, hcontents⟩ := exists_arguments_of_kindAt hfunction
      rw [readArgumentList_of_group hcontents] at hread
      obtain ⟨found, -, hfound⟩ := bind_eq_ok_iff.mp hread
      cases hfound
      exact ⟨_, rfl⟩
    · exact ⟨_, rfl⟩
  case list =>
    intro level contents hcontents ih
    rw [readArgumentList_of_group hcontents]
    exact exists_bind_ok ih fun arguments _ => ⟨some arguments, rfl⟩
  case noList =>
    intro level hnone
    exact ⟨none, readArgumentList_of_none hnone⟩
  case noArgument =>
    intro level hend
    rw [readArguments, if_pos hend]
    exact ⟨[], rfl⟩
  case argument =>
    intro level hend hread ih
    rw [readArguments, if_neg hend]
    refine exists_bind_ok hread fun result _ => ?_
    dsimp only
    split
    · rename_i hlt
      exact exists_bind_ok (ih result.2 hlt) fun arguments _ => ⟨_, rfl⟩
    · exact ⟨_, rfl⟩
  case innermost =>
    intro level _
    rw [readNests]
    exact ⟨_, rfl⟩
  case noNest =>
    intro level depth hnone hdepth
    obtain ⟨contents, hcontents, -⟩ := exists_nest hdepth
    rw [hnone] at hcontents
    cases hcontents
  case nest =>
    intro level depth contents hcontents harguments ih hdepth
    obtain ⟨other, hother, hinner⟩ := exists_nest hdepth
    rw [hcontents, Option.some.injEq] at hother
    subst hother
    rw [readNests_of_contents depth hcontents]
    refine exists_bind_ok harguments fun arguments _ => ?_
    exact exists_bind_ok (ih hinner) fun result _ => ⟨_, rfl⟩

theorem exists_read (scope : Scope) (template : Option Declarator) (declarator : Declarator)
    (level : Level) : ∃ result, read scope template declarator level = .ok result :=
  (exists_read_all scope).1 template declarator level

/-- Where a nest is read there is a group, of which the part outside of the next nest is read for
arguments and the part inside for further nests. -/
theorem exists_of_readNests_succ {scope : Scope} {depth : Nat} {innermost : Level}
    {nests : List Declarator} (h : readNests scope (depth + 1) level = .ok (nests, innermost)) :
    ∃ contents arguments inner, level.contents? = some contents ∧
      readArgumentList scope (outsideNest depth contents) = .ok arguments ∧
        readNests scope depth (insideNest contents) = .ok (inner, innermost) ∧
          nests = nestOf contents.next.qualifiers arguments (outsideNest depth contents) ::
            inner := by
  cases hcontents : level.contents? with
  | none =>
    rw [readNests_of_none depth hcontents] at h
    cases h
  | some contents =>
    rw [readNests_of_contents depth hcontents] at h
    obtain ⟨arguments, harguments, h⟩ := bind_eq_ok_iff.mp h
    obtain ⟨⟨inner, _⟩, hinner, h⟩ := bind_eq_ok_iff.mp h
    cases h
    exact ⟨contents, arguments, inner, rfl, harguments, hinner, rfl⟩

/-! ### The name -/

/-- The level inside as many nests. -/
def insideNests : Nat → Level → Level
  | 0, level => level
  | depth + 1, level => insideNests depth (insideNest (level.contents?.getD []))

/-- The name that stands inside the nests which the level starts with. -/
def nameAt? (level : Level) : Option String :=
  let innermost := insideNests (nestsAt level) level
  if atName innermost then innermost.value? else none

theorem eq_insideNests_of_readNests {scope : Scope} {depth : Nat} :
    ∀ {level innermost : Level} {nests : List Declarator},
      readNests scope depth level = .ok (nests, innermost) →
        innermost = insideNests depth level := by
  induction depth with
  | zero =>
    intro level innermost nests h
    rw [readNests] at h
    cases h
    rfl
  | succ depth ih =>
    intro level innermost nests h
    obtain ⟨contents, arguments, inner, hcontents, -, hinner, -⟩ := exists_of_readNests_succ h
    rw [insideNests, hcontents]
    exact ih hinner

/-- A declarator that was read has the name that stands inside its nests, or keeps the name that it
had. -/
theorem read_name {scope : Scope} {template : Option Declarator} {declarator result : Declarator}
    {rest : Level} (h : read scope template declarator level = .ok (result, rest)) :
    result.name = (nameAt? (afterTypePart scope template level)).or declarator.name := by
  have hname (named : Declarator) (innermost : Level) :
      (readName named innermost).name =
        (if atName innermost then innermost.value? else none).or named.name := by
    rw [readName]
    cases innermost with
    | nil => rfl
    | cons item rest => split <;> rfl
  rw [read] at h
  obtain ⟨⟨nests, innermost⟩, hnests, h⟩ := bind_eq_ok_iff.mp h
  have hinnermost := eq_insideNests_of_readNests hnests
  have htyped : (readType scope template declarator level).name = declarator.name := by
    cases template <;> rfl
  rw [nameAt?, ← hinnermost, ← htyped]
  dsimp only at h
  split at h
  · obtain ⟨arguments, -, h⟩ := bind_eq_ok_iff.mp h
    cases arguments with
    | none => cases h
    | some arguments =>
      cases h
      exact hname _ _
  · cases h
    exact hname _ _

/-! ### Where the name stands -/

theorem reaches_insideNests {depth : Nat} :
    ∀ {level : Level}, depth ≤ nestsAt level → level.Reaches (insideNests depth level) := by
  induction depth with
  | zero => exact fun _ => .start
  | succ depth ih =>
    intro level h
    obtain ⟨contents, hcontents, hinner⟩ := exists_nest h
    have hinside : level.Reaches (insideNest contents) :=
      .rest (.inside .start hcontents) (insideNest_suffix contents)
    rw [insideNests, hcontents]
    exact hinside.trans (ih hinner)

/-- The name of a declarator stands at some place in its level. -/
theorem offers_of_nameAt? {name : String} (h : nameAt? level = some name) : level.Offers name := by
  have hreaches : level.Reaches (insideNests (nestsAt level) level) :=
    reaches_insideNests (Nat.le_refl _)
  unfold nameAt? at h
  dsimp only at h
  split at h
  · rename_i hname
    rw [atName, Bool.or_eq_true] at hname
    refine ⟨_, hreaches, h, ?_⟩
    rcases hname with hname | hname
    · exact Or.inl hname
    · exact Or.inr (Or.inr hname)
  · cases h

/-- A declarator that had no name before gets one that stands in its level. -/
theorem offers_of_read {scope : Scope} {template : Option Declarator} {result : Declarator}
    {rest : Level} {name : String} (h : read scope template {} level = .ok (result, rest))
    (hname : result.name = some name) : level.Offers name := by
  have hread := read_name h
  rw [show ({} : Declarator).name = none from rfl, Option.or_none, hname] at hread
  exact .of_reaches (reaches_of_suffix (afterTypePart_suffix scope template level))
    (offers_of_nameAt? hread.symm)

end Declarator

end CommonDecl

import CommonDecl.Proofs.DeclaratorEnds

/-!
# The form of declarators

A value of `Declarator` has a place for everything that any declarator of C can have, but no
declarator has all of it: a variable has no arguments, a function no dimensions, and a nest holds
only what stands in it. `Declarator.WellFormed` says which parts go together, at every depth.
Reading gives nothing else, whatever the items are (`Declarator.exists_read_wellFormed`): the parts
are taken from where the look ahead at the kind found them.
-/

namespace CommonDecl.Declarator

open Level

variable {scope : Scope} {level : Level}

/-! ### Forms -/

/-- A nest holds the qualifiers after its `*` and what follows the nest inside it, and nothing else.
-/
structure IsNest (nest : Declarator) : Prop where
  left : nest.left = {}
  base : nest.base = none
  name : nest.name = none
  nests : nest.nests = []
  outerDimensions : nest.outerDimensions = []
  kind : nest.kind = .variable ∨ nest.kind = .nestedFunction
  arguments : nest.arguments ≠ [] → nest.kind = .nestedFunction

/-- No nest stands inside the innermost one, so nothing follows there. -/
structure IsInnermostNest (nest : Declarator) : Prop where
  kind : nest.kind = .variable
  arguments : nest.arguments = []
  dimensions : nest.dimensions = []

/-- The parts of a declarator go with its kind. -/
structure FitsKind (declarator : Declarator) : Prop where
  kind : declarator.kind ≠ .nestedFunction
  functionPointer : declarator.kind = .functionPointer →
    declarator.nests ≠ [] ∧ declarator.outerDimensions = []
  function : declarator.kind = .functionDeclaration ∨ declarator.kind = .functionDefinition →
    declarator.nests = [] ∧ declarator.dimensions = [] ∧ declarator.outerDimensions = []
  outerDimensions : declarator.outerDimensions ≠ [] → declarator.kind = .variable ∧
    declarator.nests ≠ []
  arguments : declarator.arguments ≠ [] → declarator.kind.isFunction = true
  nests : ∀ nest ∈ declarator.nests, nest.IsNest
  innermost : ∀ nest ∈ declarator.nests.getLast?, nest.IsInnermostNest

/-- The parts of a declarator go together, and so do those of every argument in it and in its nests.
-/
inductive WellFormed : Declarator → Prop
  | intro {declarator : Declarator} : declarator.FitsKind →
      (∀ argument ∈ declarator.arguments, WellFormed argument) →
      (∀ nest ∈ declarator.nests, ∀ argument ∈ nest.arguments, WellFormed argument) →
        WellFormed declarator

/-! ### Nests -/

theorem isNest_nestOf (right : Qualifiers) (arguments : Option (List Declarator)) (level : Level) :
    (nestOf right arguments level).IsNest := by
  cases arguments with
  | none => exact ⟨rfl, rfl, rfl, rfl, rfl, .inl rfl, fun h => absurd rfl h⟩
  | some arguments => exact ⟨rfl, rfl, rfl, rfl, rfl, .inr rfl, fun _ => rfl⟩

/-- Every nest that is read has the form of one, and nothing follows in the innermost one. -/
theorem isNest_of_readNests {depth : Nat} {nests : List Declarator} {innermost : Level}
    (hread : readNests scope depth level = .ok (nests, innermost)) :
    (∀ nest ∈ nests, nest.IsNest) ∧ ∀ nest ∈ nests.getLast?, nest.IsInnermostNest := by
  induction depth generalizing level nests with
  | zero =>
    rw [readNests_zero] at hread
    cases hread
    simp
  | succ depth ih =>
    obtain ⟨contents, arguments, inner, -, hlist, hinner, rfl⟩ := exists_of_readNests_succ hread
    obtain ⟨hnests, hlast⟩ := ih hinner
    refine ⟨List.forall_mem_cons.mpr ⟨isNest_nestOf _ _ _, hnests⟩, ?_⟩
    cases inner with
    | nil =>
      -- Where no nest is inside, nothing is read of what stands after the name.
      obtain rfl : depth = 0 := by simpa using (isEmpty_of_readNests hinner).symm
      rw [outsideNest, if_pos rfl, readArgumentList_of_none rfl] at hlist
      cases hlist
      rintro nest ⟨⟩
      exact ⟨rfl, rfl, rfl⟩
    | cons nest inner => rwa [List.getLast?_cons_cons]

/-! ### Declarators -/

/-- An argument list behind the name makes a function, and one behind a nest a pointer to a
function. -/
theorem kindAt_cases (nests : Nat) (core : Level) :
    (behindName nests core).isGroup .parenthesis = false ∧ kindAt nests core = .variable ∨
      (behindName nests core).isGroup .parenthesis = true ∧ 0 < nests ∧ kindAt nests core =
        .functionPointer ∨
      (behindName nests core).isGroup .parenthesis = true ∧ nests = 0 ∧
        (kindAt nests core = .functionDeclaration ∨ kindAt nests core = .functionDefinition) := by
  rw [kindAt_behindName]
  split_ifs with hlist hnests hbody
  · exact .inr (.inl ⟨hlist, hnests, rfl⟩)
  · exact .inr (.inr ⟨hlist, by omega, .inr rfl⟩)
  · exact .inr (.inr ⟨hlist, by omega, .inl rfl⟩)
  · exact .inl ⟨Bool.eq_false_iff.mpr hlist, rfl⟩

section

variable (template : Option Declarator) (nests arguments : List Declarator) (innermost : Level)

theorem kind_assemble :
    (assemble scope template {} level nests innermost arguments).kind =
      kindAt (nestsAt (afterTypePart scope template level))
        (afterTypePart scope template level) := by
  cases template <;> rfl

theorem arguments_assemble :
    (assemble scope template {} level nests innermost arguments).arguments = arguments := by
  cases template <;> rfl

theorem nests_assemble :
    (assemble scope template {} level nests innermost arguments).nests = nests := by
  cases template <;> rfl

end

/-- The parts that are put together go with the kind that was found ahead. -/
theorem fitsKind_assemble {template : Option Declarator} {nests arguments : List Declarator}
    {innermost : Level}
    (hnests : readNests scope (nestsAt (afterTypePart scope template level))
    (afterTypePart scope template level) =
      .ok (nests, innermost))
    (harguments : (kindAt (nestsAt (afterTypePart scope template level))
      (afterTypePart scope template level)).isFunction = false → arguments = []) :
    (assemble scope template {} level nests innermost arguments).FitsKind := by
  generalize hcore : afterTypePart scope template level = core at hnests harguments
  have hparts : assemble scope template {} level nests innermost arguments =
      { assemble scope template {} level nests innermost arguments with
        kind := kindAt (nestsAt core) core
        dimensions := (afterName innermost).dimensions
        outerDimensions := dimensionsAfterNests (nestsAt core) (kindAt (nestsAt core) core) core
        arguments := arguments
        nests := nests } := by
    subst hcore
    cases template <;> rfl
  have hempty : nests = [] ↔ nestsAt core = 0 := by
    rw [← List.isEmpty_iff, isEmpty_of_readNests hnests, decide_eq_true_iff]
  have houter := dimensionsAfterNests_kindAt (nestsAt core) core
  obtain ⟨hisNest, hinnermost⟩ := isNest_of_readNests hnests
  rw [hparts]
  rcases kindAt_cases (nestsAt core) core with ⟨hlist, hkind⟩ | ⟨hlist, hdepth, hkind⟩ |
    ⟨hlist, hdepth, hkind⟩
  case inl =>
    have hnone : arguments = [] := harguments (by rw [hkind]; rfl)
    exact {
      kind := by simp [hkind]
      functionPointer := by simp [hkind]
      function := by simp [hkind]
      outerDimensions := fun hne =>
        ⟨hkind, fun hnil => hne (houter.trans (if_pos (hempty.mp hnil)))⟩
      arguments := fun hne => absurd hnone hne
      nests := hisNest
      innermost := hinnermost }
  case inr.inl =>
    -- Dimensions behind the nests would stand where the argument list is.
    rw [if_neg (Nat.ne_of_gt hdepth), (dimensions_of_parenthesis hlist).1] at houter
    exact {
      kind := by simp [hkind]
      functionPointer := fun _ => ⟨fun hnil => Nat.ne_of_gt hdepth (hempty.mp hnil), houter⟩
      function := by simp [hkind]
      outerDimensions := fun hne => absurd houter hne
      arguments := fun _ => by rw [hkind]; rfl
      nests := hisNest
      innermost := hinnermost }
  case inr.inr =>
    -- So would dimensions behind the name.
    rw [hdepth, readNests_zero] at hnests
    cases hnests
    rw [if_pos hdepth] at houter
    rw [hdepth, behindName, if_pos rfl] at hlist
    exact {
      kind := by rcases hkind with hkind | hkind <;> simp [hkind]
      functionPointer := by rcases hkind with hkind | hkind <;> simp [hkind]
      function := fun _ => ⟨rfl, (dimensions_of_parenthesis hlist).1, houter⟩
      outerDimensions := fun hne => absurd houter hne
      arguments := fun _ => by rcases hkind with hkind | hkind <;> rw [hkind] <;> rfl
      nests := hisNest
      innermost := hinnermost }

theorem arguments_nestOf (right : Qualifiers) (arguments : Option (List Declarator))
    (level : Level) : (nestOf right arguments level).arguments = arguments.getD [] := by
  cases arguments <;> rfl

/-- Whatever is read has the form of what it is read as. -/
theorem wellFormed_of_read (scope : Scope) :
    (∀ template declarator level, declarator = {} → ∀ result rest,
      read scope template declarator level = .ok (result, rest) → result.WellFormed) ∧
    (∀ level arguments, readArgumentList scope level = .ok arguments →
      ∀ argument ∈ arguments.getD [], argument.WellFormed) ∧
    (∀ level arguments, readArguments scope level = .ok arguments →
      ∀ argument ∈ arguments, argument.WellFormed) ∧
    ∀ depth level nests innermost, readNests scope depth level = .ok (nests, innermost) →
      ∀ nest ∈ nests, ∀ argument ∈ nest.arguments, argument.WellFormed := by
  -- By the readers' own induction: arguments are read into empty declarators again.
  apply read_induct scope
  case declarator =>
    rintro template declarator level core depth kind rest hnests harguments rfl result rest' hread
    obtain ⟨nests, innermost, arguments, hinside, rfl, hrest⟩ := read_eq_ok_iff.mp hread
    refine .intro (fitsKind_assemble hinside fun hfunction => ?_) ?_ ?_
    · rw [if_neg (by simp [hfunction])] at hrest
      exact hrest.1
    · rw [arguments_assemble]
      split at hrest
      · exact harguments (some arguments) hrest.1
      · rw [hrest.1]
        simp
    · rw [nests_assemble]
      exact hnests nests innermost hinside
  case list =>
    intro level contents hcontents ih arguments hread
    rw [readArgumentList_of_group hcontents] at hread
    obtain ⟨found, hfound, hread⟩ := bind_eq_ok_iff.mp hread
    cases hread
    exact ih found hfound
  case noList =>
    intro level hnone arguments hread
    rw [readArgumentList_of_none hnone] at hread
    cases hread
    simp
  case noArgument =>
    intro level hend arguments hread
    rw [readArguments, if_pos hend] at hread
    cases hread
    simp
  case argument =>
    intro level hend hfirst ih arguments hread
    rw [readArguments, if_neg hend] at hread
    obtain ⟨⟨argument, rest⟩, hargument, hread⟩ := bind_eq_ok_iff.mp hread
    have hformed : argument.WellFormed := hfirst rfl argument rest hargument
    dsimp only at hread
    split at hread
    · rename_i hlt
      obtain ⟨others, hothers, hread⟩ := bind_eq_ok_iff.mp hread
      cases hread
      exact List.forall_mem_cons.mpr ⟨hformed, ih rest hlt others hothers⟩
    · cases hread
      exact List.forall_mem_singleton.mpr hformed
  case innermost =>
    intro level nests innermost hread
    rw [readNests_zero] at hread
    cases hread
    simp
  case noNest =>
    intro level depth hnone nests innermost hread
    rw [readNests_of_none depth hnone] at hread
    cases hread
  case nest =>
    intro level depth contents hcontents harguments ih nests innermost hread
    rw [readNests_of_contents depth hcontents] at hread
    obtain ⟨arguments, hlist, hread⟩ := bind_eq_ok_iff.mp hread
    obtain ⟨⟨inner, inside⟩, hinner, hread⟩ := bind_eq_ok_iff.mp hread
    cases hread
    refine List.forall_mem_cons.mpr ⟨?_, ih inner _ hinner⟩
    rw [arguments_nestOf]
    exact harguments arguments hlist

/-- A level of any items is read as a declarator whose parts go together, at every depth. -/
theorem exists_read_wellFormed (scope : Scope) (template : Option Declarator) (level : Level) :
    ∃ declarator rest, read scope template {} level = .ok (declarator, rest) ∧
      declarator.WellFormed := by
  obtain ⟨⟨declarator, rest⟩, hread⟩ := exists_read scope template {} level
  exact ⟨declarator, rest, hread,
    (wellFormed_of_read scope).1 template {} level rfl declarator rest hread⟩

end CommonDecl.Declarator

import CommonDecl.Proofs.Boundaries
import CommonDecl.Proofs.Likeness

/-!
# Declarators on levels that are alike

`declaredNames` collects the names that a declaration declares, at any depth.  What a level shows of
a declarator is the same on two levels that are alike up to words which name types by now, as long
as none of these words is declared as a name: its name, the number of its nests, its kind and its
dimensions.  What is read of a declarator is put together from that (`Declarator.read_eq_ok_iff`).
-/

namespace CommonDecl

open Level

/-! ### The names that a declaration declares -/

mutual

/-- The names that a declarator declares: its own one, those of its arguments and those in its
nests. -/
def Declarator.declaredNames : Declarator → List String
  | ⟨_, _, _, _, name, _, _, arguments, nests⟩ =>
    name.toList ++ declaredNamesOf arguments ++ declaredNamesOf nests

/-- The names that declarators declare. -/
def Declarator.declaredNamesOf : List Declarator → List String
  | [] => []
  | declarator :: rest => declarator.declaredNames ++ declaredNamesOf rest

end

/-- The names of a declarator by its parts. -/
theorem Declarator.declaredNames_eq (declarator : Declarator) :
    declarator.declaredNames = declarator.name.toList ++ declaredNamesOf declarator.arguments ++
      declaredNamesOf declarator.nests := by
  cases declarator
  rw [Declarator.declaredNames]

theorem Declarator.declaredNamesOf_eq_flatMap (declarators : List Declarator) :
    declaredNamesOf declarators = declarators.flatMap declaredNames := by
  induction declarators with
  | nil => rfl
  | cons declarator rest ih => rw [declaredNamesOf, ih, List.flatMap_cons]

theorem Declarator.declaredNamesOf_append (first second : List Declarator) :
    declaredNamesOf (first ++ second) = declaredNamesOf first ++ declaredNamesOf second := by
  rw [declaredNamesOf_eq_flatMap, declaredNamesOf_eq_flatMap, declaredNamesOf_eq_flatMap,
    List.flatMap_append]

mutual

/-- The names that a type declares beside its own tag: the fields in it, and the name of a typedef.
-/
def TypeDecl.declaredNames : TypeDecl → List String
  | .tagged _ _ none => []
  | .tagged _ _ (some members) => Member.declaredNamesOf members
  | .synonym _ _ ⟨_, none, declarator⟩ => declarator.declaredNames
  | .synonym _ _ ⟨_, some definition, declarator⟩ =>
    definition.declaredNames ++ declarator.declaredNames

/-- The names that members declare, the entries of an enum apart. -/
def Member.declaredNamesOf : List Member → List String
  | [] => []
  | .declaration declaration :: rest => declaration.declaredNames ++ Member.declaredNamesOf rest
  | .enumerator _ _ :: rest => Member.declaredNamesOf rest

/-- The names that a statement declares. -/
def Declaration.declaredNames : Declaration → List String
  | .type declared instances => declared.declaredNames ++ Declarator.declaredNamesOf instances
  | .names declarators => Declarator.declaredNamesOf declarators

end

/-- The names that statements declare. -/
def Declaration.declaredNamesOf (declarations : List Declaration) : List String :=
  declarations.flatMap declaredNames

/-- None of the names is an added one. -/
def Spares (added : String → Prop) (names : List String) : Prop :=
  ∀ name ∈ names, ¬ added name

variable {added : String → Prop}

@[simp]
theorem spares_nil : Spares added [] := by
  simp [Spares]

@[simp]
theorem spares_append {first second : List String} :
    Spares added (first ++ second) ↔ Spares added first ∧ Spares added second := by
  simp only [Spares, List.mem_append, or_imp, forall_and]

/-! ### Declarators -/

namespace Declarator

variable {scope : Scope} {tail tail' level level' : Level}

/-- A word that names a type is no `;`. -/
theorem isToken_semicolon_of_typeAt? (hlookup : scope.lookup ";" = none)
    (h : (typeAt? scope level).isSome = true) : level.isToken ";" = false := by
  apply isToken_eq_false_of_value?
  intro hvalue
  rw [typeAt?, word?] at h
  split at h
  · rw [hvalue, Option.bind_eq_bind, Option.bind_some, hlookup] at h
    cases h
  · cases h

/-- What is inside a nest is alike where the group is. -/
theorem insideNest_alike (h : Alike added [] [] level level') :
    Alike added [] [] (insideNest level) (insideNest level') :=
  h.next_nil.afterQualifiers .ends

section

variable (h : Alike added tail tail' level level') (hstop : StopAlike tail tail')
include h hstop

/-- A word is a name in both levels, unless it is an added one. -/
theorem atName_eq (hname : atName level = true → ∀ name, level.value? = some name → ¬ added name) :
    atName level = atName level' := by
  -- Only an added word can have another role on the other level.
  rcases h.head hstop with ⟨rfl, rfl⟩ | ⟨item, item', others, others', rfl, rfl, hitem, -⟩
  · rfl
  · cases hitem with
    | token => rfl
    | added hadded => exact absurd hadded (hname rfl _ rfl)
    | group => rfl

/-- Going past the name leaves levels that are alike, if both have one or neither has. -/
theorem afterName_alike (hname : atName level = atName level') :
    Alike added tail tail' (afterName level) (afterName level') := by
  rw [afterName, afterName, ← hname]
  split
  · rename_i hword
    -- A name is an item in front of the tail, for the `;` that a tail starts with is none.
    cases h with
    | tail =>
      cases hstop with
      | ends => exact .tail
      | semicolon => exact absurd hword (show ¬ (";" == "...") = true by decide)
    | cons hitem hrest => exact hrest
  · exact h

/-- As many nests are counted on both levels. -/
theorem nestsAt_eq : nestsAt level = nestsAt level' := by
  -- By induction on the nests, each of them on levels that are alike up to their ends.
  induction level using nestsAt_induct generalizing tail tail' level' with
  | nest level contents hcontents hstar ih =>
    obtain ⟨contents', hcontents', halike⟩ := h.exists_groupContents? hstop hcontents
    -- What is inside the parentheses is alike, up to the end of both groups.
    have hinside := alike_nil_iff.mpr halike
    rw [nestsAt_of_group hcontents, nestsAt_of_group hcontents', ← hinside.isToken_eq .ends,
      if_pos hstar, if_pos hstar, ih (insideNest_alike hinside) .ends]
  | noStar level contents hcontents hstar =>
    obtain ⟨contents', hcontents', halike⟩ := h.exists_groupContents? hstop hcontents
    have hinside := alike_nil_iff.mpr halike
    rw [nestsAt_of_group hcontents, nestsAt_of_group hcontents', ← hinside.isToken_eq .ends,
      if_neg hstar, if_neg hstar]
  | noGroup level hnone =>
    rw [nestsAt_of_none hnone, nestsAt_of_none (h.groupContents?_eq_none hstop hnone)]

omit h hstop in
/-- A level that starts with nests goes on with what stands after them. -/
theorem next_alike_of_nestsAt (h : Alike added tail tail' level level')
    (hstop : StopAlike tail tail') (hnests : nestsAt level ≠ 0) :
    Alike added tail tail' level.next level'.next :=
  h.next hstop (isToken_eq_false_of_isGroup (isGroup_of_nestsAt hnests))

/-- What stands after the name or the nests decides the kind of both declarators. -/
theorem kindAt_eq (hname : nestsAt level = 0 → atName level = atName level') :
    kindAt (nestsAt level) level = kindAt (nestsAt level) level' := by
  -- Without nests the list of arguments stands after the name, otherwise after the nests.
  by_cases hnests : nestsAt level = 0
  · have hafter := afterName_alike h hstop (hname hnests)
    unfold kindAt
    rw [hnests, if_neg (Nat.lt_irrefl 0), if_neg (Nat.lt_irrefl 0), hafter.isGroup_eq hstop]
    cases hlist : (afterName level').isGroup .parenthesis with
    | false => rfl
    | true =>
      have hlist' : (afterName level).isGroup .parenthesis = true := by
        rw [hafter.isGroup_eq hstop, hlist]
      rw [(hafter.next hstop (isToken_eq_false_of_isGroup hlist')).isGroup_eq hstop]
  · have hpos : 0 < nestsAt level := by omega
    unfold kindAt
    rw [if_pos hpos, if_pos hpos, (next_alike_of_nestsAt h hstop hnests).isGroup_eq hstop]

/-- What stands after a declarator without its arguments is alike on both levels. -/
theorem afterNests_alike (hname : nestsAt level = 0 → atName level = atName level')
    (kind : DeclaratorKind) :
    Alike added tail tail' (afterNests (nestsAt level) kind level)
      (afterNests (nestsAt level) kind level') := by
  by_cases hnests : nestsAt level = 0
  · unfold afterNests
    rw [if_pos hnests, if_pos hnests]
    exact (afterName_alike h hstop (hname hnests)).afterDimensions hstop
  · have hnext := next_alike_of_nestsAt h hstop hnests
    unfold afterNests
    rw [if_neg hnests, if_neg hnests]
    split
    · exact hnext
    · exact hnext.afterDimensions hstop

/-- The dimensions that stand after nests are the same on both levels. -/
theorem dimensionsAfterNests_eq (kind : DeclaratorKind) :
    dimensionsAfterNests (nestsAt level) kind level =
      dimensionsAfterNests (nestsAt level) kind level' := by
  unfold dimensionsAfterNests
  split
  · rfl
  · rename_i hkind
    exact (next_alike_of_nestsAt h hstop fun hnests => hkind (Or.inl hnests)).dimensions_eq hstop

end

/-- What stands outside a nest is alike where the group is. -/
theorem outsideNest_alike (depth : Nat) (h : Alike added [] [] level level') :
    Alike added [] [] (outsideNest depth level) (outsideNest depth level') := by
  unfold outsideNest
  split
  · exact .tail
  · exact (insideNest_alike h).next_nil

/-! ### Readers of declarators -/

/-- The declarator that is put together from what a level starts with, the nests and arguments that
were read, and the level inside the nests. -/
def assemble (scope : Scope) (template : Option Declarator) (declarator : Declarator)
    (level : Level) (nests : List Declarator) (innermost : Level) (arguments : List Declarator) :
    Declarator :=
  let core := afterTypePart scope template level
  let kind := kindAt (nestsAt core) core
  let typed := readType scope template declarator level
  let named := readName { typed with kind, nests := typed.nests ++ nests } innermost
  { named with
    outerDimensions := named.outerDimensions ++ dimensionsAfterNests (nestsAt core) kind core
    arguments := named.arguments ++ arguments }

/-- A declarator is read where its nests are read and, for a function, its arguments. -/
theorem read_eq_ok_iff {template : Option Declarator} {declarator result : Declarator}
    {rest : Level} :
    read scope template declarator level = .ok (result, rest) ↔
      let core := afterTypePart scope template level
      let kind := kindAt (nestsAt core) core
      let after := afterNests (nestsAt core) kind core
      ∃ nests innermost arguments, readNests scope (nestsAt core) core = .ok (nests, innermost) ∧
        result = assemble scope template declarator level nests innermost arguments ∧
        if kind.isFunction then
          readArgumentList scope after = .ok (some arguments) ∧ rest = after.next
        else arguments = [] ∧ rest = after := by
  dsimp only
  -- Both directions follow the steps of the reader: the nests, and a list of arguments for a
  -- function.
  rw [read]
  constructor
  · intro h
    obtain ⟨⟨nests, innermost⟩, hnests, h⟩ := bind_eq_ok_iff.mp h
    dsimp only at h
    split at h
    · rename_i hfunction
      obtain ⟨arguments, hlist, h⟩ := bind_eq_ok_iff.mp h
      cases arguments with
      | none => cases h
      | some arguments =>
        cases h
        refine ⟨nests, innermost, arguments, hnests, rfl, ?_⟩
        rw [if_pos hfunction]
        exact ⟨hlist, rfl⟩
    · rename_i hfunction
      cases h
      refine ⟨nests, innermost, [], hnests, ?_, ?_⟩
      · simp only [assemble, List.append_nil]
      · rw [if_neg hfunction]
        exact ⟨rfl, rfl⟩
  · rintro ⟨nests, innermost, arguments, hnests, rfl, hlist⟩
    refine bind_eq_ok_iff.mpr ⟨(nests, innermost), hnests, ?_⟩
    dsimp only
    split at hlist
    · rename_i hfunction
      obtain ⟨hlist, rfl⟩ := hlist
      rw [if_pos hfunction]
      exact bind_eq_ok_iff.mpr ⟨some arguments, hlist, rfl⟩
    · rename_i hfunction
      obtain ⟨rfl, rfl⟩ := hlist
      rw [if_neg hfunction]
      simp only [assemble, List.append_nil]
      rfl

/-- The names of a declarator by the parts it was put together from. -/
theorem declaredNames_assemble (template : Option Declarator) (declarator : Declarator)
    (nests : List Declarator) (innermost : Level) (arguments : List Declarator) :
    (assemble scope template declarator level nests innermost arguments).declaredNames =
      ((if atName innermost then innermost.value? else declarator.name).toList ++
        (declaredNamesOf declarator.arguments ++ declaredNamesOf arguments)) ++
        (declaredNamesOf declarator.nests ++ declaredNamesOf nests) := by
  rw [declaredNames_eq, ← declaredNamesOf_append, ← declaredNamesOf_append]
  cases template <;> rfl

theorem declaredNames_nestOf (right : Qualifiers) (arguments : Option (List Declarator))
    (level : Level) :
    (nestOf right arguments level).declaredNames = declaredNamesOf (arguments.getD []) := by
  cases arguments with
  | none => rfl
  | some arguments => simp [nestOf, declaredNames, declaredNamesOf]

end Declarator

end CommonDecl

import CommonDecl.Proofs.References

/-!
# Declarations with other references

A reference holds the place of a type, its name, and whether it was a placeholder by then.  Two
declarations are often the same but for some of that.  `mapRefs` puts another reference in the place
of each one, at any depth, and two declarations are compared by what two such maps make of them
(`Declarator.SameBy`, `TypeDecl.SameBy`, `Declaration.SameBy`): the maps leave out or renumber what
does not count.
-/

namespace CommonDecl

/-! ### Mapped references -/

mutual

/-- The declarator with another reference in the place of each one. -/
def Declarator.mapRefs (f : TypeRef → TypeRef) : Declarator → Declarator
  | ⟨kind, left, right, base, name, dimensions, outerDimensions, arguments, nests⟩ =>
    ⟨kind, left, right, base.map f, name, dimensions, outerDimensions, mapRefsAll f arguments,
      mapRefsAll f nests⟩

/-- The declarators with another reference in the place of each one. -/
def Declarator.mapRefsAll (f : TypeRef → TypeRef) : List Declarator → List Declarator
  | [] => []
  | declarator :: rest => declarator.mapRefs f :: mapRefsAll f rest

end

mutual

/-- The type with another reference in the place of each one. -/
def TypeDecl.mapRefs (f : TypeRef → TypeRef) : TypeDecl → TypeDecl
  | .tagged qualifiers name none => .tagged qualifiers name none
  | .tagged qualifiers name (some members) =>
    .tagged qualifiers name (some (Member.mapRefsAll f members))
  | .synonym qualifiers name ⟨aliased, none, declarator⟩ =>
    .synonym qualifiers name ⟨f aliased, none, declarator.mapRefs f⟩
  | .synonym qualifiers name ⟨aliased, some definition, declarator⟩ =>
    .synonym qualifiers name ⟨f aliased, some (definition.mapRefs f), declarator.mapRefs f⟩

/-- The members with another reference in the place of each one. -/
def Member.mapRefsAll (f : TypeRef → TypeRef) : List Member → List Member
  | [] => []
  | .declaration declaration :: rest =>
    .declaration (declaration.mapRefs f) :: Member.mapRefsAll f rest
  | .enumerator name value :: rest => .enumerator name value :: Member.mapRefsAll f rest

/-- The statement with another reference in the place of each one. -/
def Declaration.mapRefs (f : TypeRef → TypeRef) : Declaration → Declaration
  | .type declared instances => .type (declared.mapRefs f) (Declarator.mapRefsAll f instances)
  | .names declarators => .names (Declarator.mapRefsAll f declarators)

end

variable {f g : TypeRef → TypeRef}

/-! ### Parts of declarations -/

namespace Declarator

/-- Each declarator of a list has its own references replaced. -/
theorem mapRefsAll_eq_map (f : TypeRef → TypeRef) (declarators : List Declarator) :
    mapRefsAll f declarators = declarators.map (mapRefs f) := by
  induction declarators with
  | nil => rfl
  | cons declarator rest ih => rw [mapRefsAll, ih, List.map_cons]

theorem mapRefsAll_append (f : TypeRef → TypeRef) (first second : List Declarator) :
    mapRefsAll f (first ++ second) = mapRefsAll f first ++ mapRefsAll f second := by
  simp only [mapRefsAll_eq_map, List.map_append]

/-- Two declarators are the same under two maps where each of their parts is. -/
theorem mapRefs_eq_iff {declarator declarator' : Declarator} :
    declarator.mapRefs f = declarator'.mapRefs g ↔
      declarator.kind = declarator'.kind ∧ declarator.left = declarator'.left ∧
        declarator.right = declarator'.right ∧ declarator.base.map f = declarator'.base.map g ∧
        declarator.name = declarator'.name ∧ declarator.dimensions = declarator'.dimensions ∧
        declarator.outerDimensions = declarator'.outerDimensions ∧
        mapRefsAll f declarator.arguments = mapRefsAll g declarator'.arguments ∧
        mapRefsAll f declarator.nests = mapRefsAll g declarator'.nests := by
  cases declarator
  cases declarator'
  simp only [mapRefs, mk.injEq]

/-- A name holds no reference. -/
@[simp]
theorem name_mapRefs (declarator : Declarator) : (declarator.mapRefs f).name = declarator.name := by
  cases declarator
  rfl

/-- Neither does a kind. -/
@[simp]
theorem kind_mapRefs (declarator : Declarator) : (declarator.mapRefs f).kind = declarator.kind := by
  cases declarator
  rfl

end Declarator

/-- The member with another reference in the place of each one. -/
def Member.mapRefs (f : TypeRef → TypeRef) : Member → Member
  | .declaration statement => .declaration (statement.mapRefs f)
  | .enumerator name value => .enumerator name value

namespace Member

/-- Each member of a list has its own references replaced. -/
theorem mapRefsAll_eq_map (f : TypeRef → TypeRef) (members : List Member) :
    mapRefsAll f members = members.map (mapRefs f) := by
  induction members with
  | nil => rfl
  | cons member rest ih => cases member <;> rw [mapRefsAll, ih, List.map_cons, mapRefs]

theorem mapRefsAll_append (f : TypeRef → TypeRef) (first second : List Member) :
    mapRefsAll f (first ++ second) = mapRefsAll f first ++ mapRefsAll f second := by
  simp only [mapRefsAll_eq_map, List.map_append]

end Member

namespace TypeDecl

variable (declared : TypeDecl)

/-- A type keeps its name when references are replaced. -/
@[simp]
theorem name?_mapRefs : (declared.mapRefs f).name? = declared.name? := by
  rcases declared with ⟨_, _, _ | _⟩ | ⟨_, _, ⟨_, _ | _, _⟩⟩ <;> rfl

@[simp]
theorem isSynonym_mapRefs : (declared.mapRefs f).isSynonym = declared.isSynonym := by
  rcases declared with ⟨_, _, _ | _⟩ | ⟨_, _, ⟨_, _ | _, _⟩⟩ <;> rfl

/-- A body stays a body, whatever its references are replaced by. -/
theorem isSome_members?_mapRefs :
    (declared.mapRefs f).members?.isSome = declared.members?.isSome := by
  rcases declared with ⟨_, _, _ | _⟩ | ⟨_, _, ⟨_, _ | _, _⟩⟩ <;> rfl

/-- A typedef stays a typedef. -/
theorem isSome_typedef?_mapRefs :
    (declared.mapRefs f).typedef?.isSome = declared.typedef?.isSome := by
  rcases declared with ⟨_, _, _ | _⟩ | ⟨_, _, ⟨_, _ | _, _⟩⟩ <;> rfl

end TypeDecl

/-! ### References that stay -/

mutual

/-- A map that leaves the references in a declarator alone leaves the declarator alone. -/
theorem Declarator.mapRefs_of_eq : (declarator : Declarator) →
    (∀ ref ∈ declarator.refs, f ref = ref) → declarator.mapRefs f = declarator
  | ⟨_, _, _, base, _, _, _, arguments, nests⟩, h => by
    simp only [refs, List.mem_append, or_imp, forall_and] at h
    obtain ⟨⟨hbase, harguments⟩, hnests⟩ := h
    rw [mapRefs, mapRefsAll_of_eq arguments harguments, mapRefsAll_of_eq nests hnests]
    cases base with
    | none => rfl
    | some ref => rw [Option.map_some, hbase ref (by simp)]

/-- Declarators stay the same where each reference in them does. -/
theorem Declarator.mapRefsAll_of_eq : (declarators : List Declarator) →
    (∀ ref ∈ refsOf declarators, f ref = ref) → mapRefsAll f declarators = declarators
  | [], _ => rfl
  | declarator :: rest, h => by
    simp only [refsOf, List.mem_append, or_imp, forall_and] at h
    rw [mapRefsAll, mapRefs_of_eq declarator h.1, mapRefsAll_of_eq rest h.2]

end

mutual

/-- A map that leaves the references in a type alone leaves the type alone. -/
theorem TypeDecl.mapRefs_of_eq : (declared : TypeDecl) →
    (∀ ref ∈ declared.refs, f ref = ref) → declared.mapRefs f = declared
  | .tagged _ _ none, _ => rfl
  | .tagged _ _ (some members), h => by rw [TypeDecl.mapRefs, Member.mapRefsAll_of_eq members h]
  | .synonym _ _ ⟨aliased, none, declarator⟩, h => by
    rw [TypeDecl.refs, List.forall_mem_cons] at h
    rw [TypeDecl.mapRefs, h.1, declarator.mapRefs_of_eq h.2]
  | .synonym _ _ ⟨aliased, some definition, declarator⟩, h => by
    simp only [TypeDecl.refs, List.mem_cons, List.mem_append, or_imp, forall_and, forall_eq] at h
    rw [TypeDecl.mapRefs, h.1, definition.mapRefs_of_eq h.2.1, declarator.mapRefs_of_eq h.2.2]

/-- Members stay the same where each reference in them does. -/
theorem Member.mapRefsAll_of_eq : (members : List Member) →
    (∀ ref ∈ Member.refsOf members, f ref = ref) → Member.mapRefsAll f members = members
  | [], _ => rfl
  | .declaration declaration :: rest, h => by
    simp only [Member.refsOf, List.mem_append, or_imp, forall_and] at h
    rw [Member.mapRefsAll, declaration.mapRefs_of_eq h.1, Member.mapRefsAll_of_eq rest h.2]
  | .enumerator _ _ :: rest, h => by rw [Member.mapRefsAll, Member.mapRefsAll_of_eq rest h]

/-- A statement stays the same where each reference in it does. -/
theorem Declaration.mapRefs_of_eq : (declaration : Declaration) →
    (∀ ref ∈ declaration.refs, f ref = ref) → declaration.mapRefs f = declaration
  | .type declared instances, h => by
    simp only [Declaration.refs, List.mem_append, or_imp, forall_and] at h
    rw [Declaration.mapRefs, declared.mapRefs_of_eq h.1, Declarator.mapRefsAll_of_eq instances h.2]
  | .names declarators, h => by
    rw [Declaration.mapRefs, Declarator.mapRefsAll_of_eq declarators h]

end

/-- To replace each reference by itself changes nothing. -/
@[simp]
theorem Declarator.mapRefs_id (declarator : Declarator) : declarator.mapRefs id = declarator :=
  declarator.mapRefs_of_eq fun _ _ => rfl

@[simp]
theorem Declarator.mapRefsAll_id (declarators : List Declarator) :
    mapRefsAll id declarators = declarators :=
  mapRefsAll_of_eq declarators fun _ _ => rfl

@[simp]
theorem TypeDecl.mapRefs_id (declared : TypeDecl) : declared.mapRefs id = declared :=
  declared.mapRefs_of_eq fun _ _ => rfl

@[simp]
theorem Member.mapRefsAll_id (members : List Member) : mapRefsAll id members = members :=
  mapRefsAll_of_eq members fun _ _ => rfl

@[simp]
theorem Declaration.mapRefs_id (declaration : Declaration) : declaration.mapRefs id = declaration :=
  declaration.mapRefs_of_eq fun _ _ => rfl

/-! ### Declarations that are the same under two maps -/

section

variable (f g)

/-- The second declarator is the first one, where the references count as far as the maps keep
them. -/
abbrev Declarator.SameBy (declarator declarator' : Declarator) : Prop :=
  declarator'.mapRefs g = declarator.mapRefs f

/-- The second declarators are the first ones, as far as the maps keep their references. -/
abbrev Declarator.SameAllBy (declarators declarators' : List Declarator) : Prop :=
  mapRefsAll g declarators' = mapRefsAll f declarators

/-- The second type is the first one, as far as the maps keep their references. -/
abbrev TypeDecl.SameBy (declared declared' : TypeDecl) : Prop :=
  declared'.mapRefs g = declared.mapRefs f

/-- The second members are the first ones, as far as the maps keep their references. -/
abbrev Member.SameAllBy (members members' : List Member) : Prop :=
  mapRefsAll g members' = mapRefsAll f members

/-- The second statement is the first one, as far as the maps keep their references. -/
abbrev Declaration.SameBy (declaration declaration' : Declaration) : Prop :=
  declaration'.mapRefs g = declaration.mapRefs f

end

/-- The empty declarator has no references to compare. -/
theorem Declarator.sameBy_empty (f g : TypeRef → TypeRef) : SameBy f g {} {} := rfl

/-- Declarators of types that count as the same are the same. -/
theorem Declarator.sameBy_ofBase {ref ref' : TypeRef} (h : g ref' = f ref) :
    SameBy f g (ofBase ref) (ofBase ref') :=
  mapRefs_eq_iff.mpr ⟨rfl, rfl, rfl, congrArg some h, rfl, rfl, rfl, rfl, rfl⟩

end CommonDecl

import CommonDecl.Declaration.Render
import CommonDecl.Proofs.MappedReferences
import Mathlib.Data.List.Forall2

/-!
# Declarations without the places of types

A reference to a type holds the place of the type in a table, its name, and whether it was a
placeholder by then.  Only the name is written, so a map of references that keeps the names changes
no text (`Declaration.render_mapRefs`).  Declarations that are the same without the rest are of the
same form and are written alike (`Member.looksLike_of_unplaced`).
-/

namespace CommonDecl

/-! ### Leaving out the places -/

/-- The reference with nothing but the name of its type. -/
def TypeRef.unplaced (ref : TypeRef) : TypeRef :=
  ⟨0, ref.name, false⟩

@[simp]
theorem TypeRef.name_unplaced (ref : TypeRef) : ref.unplaced.name = ref.name := rfl

/-- Two references are the same without their places where they name the same type. -/
theorem TypeRef.unplaced_inj {ref ref' : TypeRef} :
    ref.unplaced = ref'.unplaced ↔ ref.name = ref'.name := by
  simp [unplaced]

/-- The declarator without the places of types. -/
abbrev Declarator.unplaced (declarator : Declarator) : Declarator :=
  declarator.mapRefs TypeRef.unplaced

/-- The declarators without the places of types. -/
abbrev Declarator.unplacedAll (declarators : List Declarator) : List Declarator :=
  mapRefsAll TypeRef.unplaced declarators

/-- The members without the places of types. -/
abbrev Member.unplacedAll (members : List Member) : List Member :=
  mapRefsAll TypeRef.unplaced members

/-- The members are the same without the places of types. -/
abbrev Member.SameAll (members members' : List Member) : Prop :=
  SameAllBy TypeRef.unplaced TypeRef.unplaced members members'

/-! ### The text of declarations -/

variable {f : TypeRef → TypeRef}

/-- The type in front of a declarator is written by its name. -/
theorem Declarator.typeText_mapRefs (hnames : ∀ ref, (f ref).name = ref.name)
    (declarator : Declarator) : (declarator.mapRefs f).typeText = declarator.typeText := by
  rcases declarator with ⟨_, _, _, _ | ref, _, _, _, _, _⟩
  · rfl
  · simp only [mapRefs, typeText, Option.map_some, hnames]
    rfl

theorem Declarator.nestOpenings_mapRefs (declarator : Declarator) :
    (declarator.mapRefs f).nestOpenings = declarator.nestOpenings := by
  have hright : (mapRefsAll f declarator.nests).map (fun nest => "(*" ++ nest.right.leadingText) =
      declarator.nests.map fun nest => "(*" ++ nest.right.leadingText := by
    rw [mapRefsAll_eq_map, List.map_map]
    refine List.map_congr_left fun nest _ => ?_
    cases nest
    rfl
  cases declarator
  exact congrArg String.join hright

mutual

/-- A map of references that keeps the names changes nothing in the text of a declarator. -/
theorem Declarator.render_mapRefs (hnames : ∀ ref, (f ref).name = ref.name) (withType : Bool) :
    (declarator : Declarator) → (declarator.mapRefs f).render withType = declarator.render withType
  | ⟨kind, left, right, base, name, dimensions, outerDimensions, arguments, nests⟩ => by
    have htype := typeText_mapRefs hnames
      ⟨kind, left, right, base, name, dimensions, outerDimensions, arguments, nests⟩
    have hnests : (mapRefs f ⟨kind, left, right, base, name, dimensions, outerDimensions, arguments,
      nests⟩).nestOpenings = _ := nestOpenings_mapRefs _
    rw [mapRefs] at htype hnests ⊢
    rw [render, render, renderAll_mapRefs hnames arguments, nestClosings_mapRefs hnames nests,
      htype, hnests]
    rfl

theorem Declarator.renderAll_mapRefs (hnames : ∀ ref, (f ref).name = ref.name) :
    (declarators : List Declarator) → renderAll (mapRefsAll f declarators) = renderAll declarators
  | [] => rfl
  | declarator :: rest => by
    rw [mapRefsAll, renderAll, renderAll, render_mapRefs hnames true declarator,
      renderAll_mapRefs hnames rest]

theorem Declarator.nestClosings_mapRefs (hnames : ∀ ref, (f ref).name = ref.name) :
    (nests : List Declarator) → nestClosings (mapRefsAll f nests) = nestClosings nests
  | [] => rfl
  | ⟨_, _, _, _, _, _, _, arguments, _⟩ :: rest => by
    rw [mapRefsAll, mapRefs, nestClosings, nestClosings, nestClosings_mapRefs hnames rest,
      renderAll_mapRefs hnames arguments]

end

/-- The text of the declarators behind the first one does not show where their types are. -/
theorem furtherText_mapRefs (hnames : ∀ ref, (f ref).name = ref.name) (separator : String)
    (declarators : List Declarator) :
    furtherText separator (Declarator.mapRefsAll f declarators) =
      furtherText separator declarators := by
  refine furtherText_congr ?_ separator
  rw [Declarator.mapRefsAll_eq_map, List.map_map]
  exact List.map_congr_left fun declarator _ => declarator.render_mapRefs hnames false

mutual

theorem TypeDecl.render_mapRefs (hnames : ∀ ref, (f ref).name = ref.name) (depth : Nat) :
    (declared : TypeDecl) → (declared.mapRefs f).render depth = declared.render depth
  | .tagged _ _ none => rfl
  | .tagged _ _ (some members) => by
    rw [TypeDecl.mapRefs, TypeDecl.render, TypeDecl.render,
      renderMembers_mapRefs hnames (depth + 1) members]
  | .synonym _ _ ⟨_, none, declarator⟩ => by
    rw [TypeDecl.mapRefs, TypeDecl.render, TypeDecl.render, declarator.render_mapRefs hnames,
      hnames]
  | .synonym _ _ ⟨_, some definition, declarator⟩ => by
    rw [TypeDecl.mapRefs, TypeDecl.render, TypeDecl.render,
      TypeDecl.render_mapRefs hnames depth definition, declarator.render_mapRefs hnames]

theorem renderMembers_mapRefs (hnames : ∀ ref, (f ref).name = ref.name) (depth : Nat) :
    (members : List Member) →
      renderMembers depth (Member.mapRefsAll f members) = renderMembers depth members
  | [] => rfl
  | .declaration declaration :: rest => by
    rw [Member.mapRefsAll, renderMembers, renderMembers,
      Declaration.render_mapRefs hnames depth declaration, renderMembers_mapRefs hnames depth rest]
  | .enumerator _ _ :: rest => by
    -- An enumerator is written with a comma unless it is the last member.
    have hempty : (Member.mapRefsAll f rest).isEmpty = rest.isEmpty := by
      rw [Member.mapRefsAll_eq_map, List.isEmpty_map]
    rw [Member.mapRefsAll, renderMembers, renderMembers, renderMembers_mapRefs hnames depth rest,
      hempty]

/-- A map of references that keeps the names changes nothing in the text of a declaration. -/
theorem Declaration.render_mapRefs (hnames : ∀ ref, (f ref).name = ref.name) (depth : Nat) :
    (declaration : Declaration) → (declaration.mapRefs f).render depth = declaration.render depth
  | .type declared instances => by
    rw [Declaration.mapRefs, Declaration.render, Declaration.render,
      TypeDecl.render_mapRefs hnames depth declared, furtherText_mapRefs hnames,
      TypeDecl.isSynonym_mapRefs]
  | .names [] => rfl
  | .names (first :: rest) => by
    rw [Declaration.mapRefs, Declarator.mapRefsAll, Declaration.render, Declaration.render,
      first.render_mapRefs hnames, furtherText_mapRefs hnames]

end

namespace Member

/-- Both members are types, both are fields or both are neither, and they are written alike at every
depth. -/
structure LooksLike (member member' : Member) : Prop where
  isType_eq : member.isType = member'.isType
  isField_eq : member.isField = member'.isField
  render_eq : ∀ depth, member.render depth = member'.render depth

/-- A member is written as it is with its references mapped. -/
theorem looksLike_mapRefs (hnames : ∀ ref, (f ref).name = ref.name)
    (member : Member) : LooksLike (member.mapRefs f) member := by
  cases member with
  | declaration statement =>
    refine ⟨?_, ?_, fun depth => ?_⟩
    · cases statement <;> rfl
    · cases statement <;> rfl
    · rw [mapRefs, render, render, Declaration.render_mapRefs hnames]
  | enumerator name value => exact ⟨rfl, rfl, fun _ => rfl⟩

/-- Members that are the same without the places of types look alike. -/
theorem looksLike_of_unplaced {members members' : List Member}
    (h : unplacedAll members = unplacedAll members') : List.Forall₂ LooksLike members members' := by
  rw [unplacedAll, unplacedAll, mapRefsAll_eq_map, mapRefsAll_eq_map] at h
  -- Equal mapped lists are equal item by item.
  have hboth : List.Forall₂
      (fun member member' => member.mapRefs TypeRef.unplaced = member'.mapRefs TypeRef.unplaced)
      members members' := by
    have hmapped : List.Forall₂ Eq (members.map (mapRefs TypeRef.unplaced))
        (members'.map (mapRefs TypeRef.unplaced)) := by
      rw [h]
      exact List.forall₂_same.mpr fun _ _ => rfl
    exact List.forall₂_map_right_iff.mp (List.forall₂_map_left_iff.mp hmapped)
  refine hboth.imp fun member member' hsame => ?_
  -- Each member looks like what it is without places, and these are one and the same.
  have hfirst := looksLike_mapRefs TypeRef.name_unplaced member
  have hsecond := looksLike_mapRefs TypeRef.name_unplaced member'
  rw [← hsame] at hsecond
  exact ⟨hfirst.isType_eq.symm.trans hsecond.isType_eq,
    hfirst.isField_eq.symm.trans hsecond.isField_eq,
    fun depth => (hfirst.render_eq depth).symm.trans (hsecond.render_eq depth)⟩

end Member

end CommonDecl

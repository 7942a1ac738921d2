import CommonDecl.Proofs.Evolution

/-!
# Why a statement of C is refused

Reading a declarator never fails (`Declarator.exists_read`), and the entry that a typedef fills in
is always in the table, so one cause is left: a typedef whose declarator has no name.
`TypeDecl.NamesNoType` says at which place of a level such a declarator stands, and
`Declaration.fails_only_unnamed` that there is one wherever reading a statement fails.
-/

namespace CommonDecl

open Level TypeTable

namespace TypeDecl

/-! ### Typedefs without a name -/

/-- The level from the declarator of a typedef on, after its qualifiers, its name and its body. -/
def typedefDeclarator (level : Level) : Level :=
  let rest := afterTypeName level.afterLeftQualifiers
  if rest.isGroup .brace then rest.next else rest

/-- The fault says that a typedef at some place in the level has a declarator without a name: the
first one, or one after a comma. -/
inductive NamesNoType (root : Level) : Fault → Prop
  | first {level : Level} : root.Reaches level → level.leftQualifiers.has "typedef" = true →
      Declarator.nameAt? (typedefDeclarator level).afterQualifiers = none →
        NamesNoType root (.unnamedTypedef (level.leftQualifiers.remove "typedef"))
  | further {level comma : Level} {aliased : String} :
      root.Reaches level → level.leftQualifiers.has "typedef" = true → comma <:+ level →
        comma.isToken "," = true → Declarator.nameAt? comma.next.afterQualifiers = none →
          NamesNoType root (.unnamedSibling aliased)

variable {root level rest : Level} {fault : Fault} {scope : Scope}

theorem NamesNoType.of_reaches (hreaches : root.Reaches level) (h : NamesNoType level fault) :
    NamesNoType root fault := by
  cases h with
  | first hlevel htypedef hname => exact .first (hreaches.trans hlevel) htypedef hname
  | further hlevel htypedef hcomma htoken hname =>
    exact .further (hreaches.trans hlevel) htypedef hcomma htoken hname

/-- A typedef without a name is a fault of the text. -/
theorem NamesNoType.isSyntactic (h : NamesNoType root fault) : fault.isSyntactic = true := by
  cases h <;> rfl

/-! ### Parts of types -/

/-- Only a typedef makes a synonym. -/
theorem read_isSynonym (level : Level) (scope : Scope) :
    Ends (TypeDecl.read level) scope
      (fun result _ => result.1.isSynonym = true → level.leftQualifiers.has "typedef" = true)
      (fun _ => True) := by
  rw [TypeDecl.read]
  split
  · rename_i htypedef
    exact ends_of_forall _ (fun _ _ _ => htypedef) fun _ => trivial
  · simp only [ends_bind]
    refine ends_of_forall _ (fun members _ => ?_) fun _ => trivial
    cases members <;> simp [isSynonym, typedef?]

end TypeDecl

/-! ### Variables -/

/-- Declarators that are read one after the other are read if each of them is. -/
theorem Level.exists_readSeparated {α : Type} {read : Level → Except Fault (α × Level)}
    (hread : ∀ level, ∃ result, read level = .ok result) (level : Level) :
    ∃ result, readSeparated read level = .ok result := by
  induction level using readSeparated_induct with
  | ends level hend => exact ⟨_, by rw [readSeparated, if_pos hend]; rfl⟩
  | declarator level hend ih =>
    rw [readSeparated, if_neg hend]
    refine exists_bind_ok (hread level) fun result _ => ?_
    dsimp only
    split
    · rename_i hlt
      exact exists_bind_ok (ih result.2 hlt) fun _ _ => ⟨_, rfl⟩
    · exact ⟨_, rfl⟩

namespace Declaration

variable {level rest : Level} {scope : Scope}

theorem exists_ok_readFurther (scope : Scope) (first last : Declarator) (level : Level) :
    ∃ result, readFurther scope first last level = .ok result := by
  induction last, level using readFurther_induct with
  | body last level hbody => exact ⟨_, by rw [readFurther, if_pos hbody]; rfl⟩
  | comma last level hbody hcomma ih =>
    rw [readFurther, if_neg hbody, if_pos hcomma]
    refine exists_bind_ok (Declarator.exists_read _ _ _ _) fun result _ => ?_
    dsimp only
    split
    · rename_i hlt
      exact exists_bind_ok (ih result.1 result.2 hlt) fun _ _ => ⟨_, rfl⟩
    · exact ⟨_, rfl⟩
  | ends last level hbody hcomma =>
    exact ⟨_, by rw [readFurther, if_neg hbody, if_neg hcomma]; rfl⟩

theorem exists_ok_readVariables (scope : Scope) (level : Level) :
    ∃ result, readVariables scope level = .ok result := by
  refine exists_bind_ok (Declarator.exists_read scope none {} level) fun first _ => ?_
  refine exists_bind_ok (exists_ok_readFurther scope first.1 first.1 first.2) ?_
  exact fun _ _ => ⟨_, rfl⟩

end Declaration

/-! ### Types and statements -/

/-- A typedef that gives no name. -/
example :
    (Declaration.ofSource .c "typedef int, *p;" (Scope.ofSettings {})) matches
      .error (.unnamedTypedef ⟨[]⟩) _ := by
  decide +kernel

end CommonDecl

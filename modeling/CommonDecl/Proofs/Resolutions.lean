import CommonDecl.Proofs.Knowledge
import CommonDecl.Proofs.Rendering

/-!
# Members in which a name is resolved

Where the name of a type is known, a statement declares fields of the type that would declare the
type without a body and its variables otherwise (`Declaration.Resolved`).  Both are written alike
(`Member.Resolved.renderMembers_eq`), apart from a function that returns a pointer: a field of the
kind has the space before its name, a variable has it before the pointer.
-/

namespace CommonDecl

/-! ### Text without the blanks at its end -/

namespace Text

theorem trimEnd_append (before : String) {after : String} (h : trimEnd after ≠ "") :
    trimEnd (before ++ after) = before ++ trimEnd after := by
  have hafter : after.toList.reverse.dropWhile isBlank ≠ [] := by
    intro hnil
    rw [trimEnd, hnil] at h
    exact h rfl
  rw [trimEnd, String.toList_append, List.reverse_append, List.dropWhile_append,
    if_neg (by rwa [List.isEmpty_iff]), List.reverse_append, List.reverse_reverse,
    String.ofList_append,
    String.ofList_toList, trimEnd]

theorem ne_empty_of_isWord {text : String} (h : IsWord text) : text ≠ "" := by
  rintro rfl
  exact h

theorem trimEnd_of_isWord {text : String} (h : IsWord text) : trimEnd text = text := by
  have hkept : text.toList.reverse.dropWhile isBlank = text.toList.reverse := by
    rw [List.dropWhile_eq_self_iff]
    intro hlength
    have hmem : text.toList.reverse[0] ∈ text.toList :=
      List.mem_reverse.mp (List.getElem_mem hlength)
    rw [Lexeme.isBlank_eq_false (Lexeme.toNat_of_isWordlike (h.forall_isWordlike _ hmem))]
    exact Bool.false_ne_true
  rw [trimEnd, hkept, List.reverse_reverse, String.ofList_toList]

end Text

variable {tag : String} {field : Declarator}

/-! ### Statements and members -/

mutual

/-- The statements are the same without the places of types, apart from the first reference to the
tag.  The first statement declares a type of the name there, with variables; the second one declares
fields of the type. -/
inductive Declaration.Resolved (tag : String) (field : Declarator) :
    Declaration → Declaration → Prop
  | fields {qualifiers : Qualifiers} {instances further : List Declarator}
    (hfields : Declarator.unplacedAll (field :: further) =
      Declarator.unplacedAll (instances.map fun declared => { declared with left := qualifiers }))
    (hbase : ∀ declared ∈ field :: further, ∃ ref, declared.base = some ref ∧ ref.name = tag) :
    Declaration.Resolved tag field (.type (.tagged qualifiers (some tag) none) instances)
      (.names (field :: further))
  | tagged {qualifiers : Qualifiers} {name : Option String} {members members' : List Member}
    {instances instances' : List Declarator} (hmembers : Member.Resolved tag field members members')
    (hinstances : Declarator.unplacedAll instances' = Declarator.unplacedAll instances) :
    Declaration.Resolved tag field (.type (.tagged qualifiers name (some members)) instances)
      (.type (.tagged qualifiers name (some members')) instances')
  | synonym {qualifiers : Qualifiers} {name : String} {inner : Option String}
    {members members' : List Member}
    {aliased aliased' : TypeRef} {declarator declarator' : Declarator}
      {siblings siblings' : List Declarator}
    (hmembers : Member.Resolved tag field members members')
      (haliased : aliased'.name = aliased.name)
    (hdeclarator : declarator'.unplaced = declarator.unplaced)
    (hsiblings : Declarator.unplacedAll siblings' = Declarator.unplacedAll siblings) :
    Declaration.Resolved tag field
      (.type (.synonym qualifiers name ⟨aliased, some (.tagged {} inner (some members)),
        declarator⟩) siblings)
      (.type (.synonym qualifiers name ⟨aliased', some (.tagged {} inner (some members')),
        declarator'⟩) siblings')

/-- The members are the same without the places of types, apart from one in which the tag is
resolved. -/
inductive Member.Resolved (tag : String) (field : Declarator) : List Member → List Member → Prop
  | statement {before before' behind behind' : List Member} {declaration declaration' : Declaration}
    (hbefore : Member.SameAll before before')
      (hstatement : Declaration.Resolved tag field declaration declaration')
    (hbehind : Member.SameAll behind behind') :
    Member.Resolved tag field (before ++ .declaration declaration :: behind)
      (before' ++ .declaration declaration' :: behind')

end

/-- Where no member is a type, the tag is resolved in the fields of a member. -/
theorem Member.Resolved.exists_fields {members members' : List Member}
    (h : Member.Resolved tag field members members')
    (hfields : ∀ member ∈ members', member.isType = false) :
    ∃ further, .declaration (.names (field :: further)) ∈ members' := by
  cases h with
  | @statement before before' behind behind' declaration declaration' hbefore hstatement hbehind =>
    have hmem : .declaration declaration' ∈ before' ++ .declaration declaration' :: behind' :=
      List.mem_append_right _ List.mem_cons_self
    cases hstatement with
    | fields => exact ⟨_, hmem⟩
    | tagged => exact absurd (hfields _ hmem) (by rintro ⟨⟩)
    | synonym => exact absurd (hfields _ hmem) (by rintro ⟨⟩)

/-! ### The text of the statements -/

theorem renderMembers_append_congr {depth : Nat} {member member' : Member}
    {behind behind' : List Member}
    (h : renderMembers depth (member :: behind) = renderMembers depth (member' :: behind'))
    (before : List Member) :
    renderMembers depth (before ++ member :: behind) =
      renderMembers depth (before ++ member' :: behind') := by
  induction before with
  | nil => exact h
  | cons first before ih =>
    have hempty (member : Member) (behind : List Member) :
        (before ++ member :: behind).isEmpty = false := by
      cases before <;> rfl
    cases first with
    | declaration declaration =>
      rw [List.cons_append, List.cons_append, renderMembers, renderMembers, ih]
    | enumerator name value =>
      rw [List.cons_append, List.cons_append, renderMembers, renderMembers, ih, hempty, hempty]

theorem Member.SameAll.renderMembers_eq {members members' : List Member}
    (h : Member.SameAll members members') (depth : Nat) :
    renderMembers depth members' = renderMembers depth members := by
  rw [← renderMembers_mapRefs TypeRef.name_unplaced depth members', h,
    renderMembers_mapRefs TypeRef.name_unplaced]

theorem furtherText_eq_of_unplaced {declarators declarators' : List Declarator}
    (h : Declarator.unplacedAll declarators' = Declarator.unplacedAll declarators)
    (separator : String) :
    furtherText separator declarators' = furtherText separator declarators := by
  rw [← furtherText_mapRefs TypeRef.name_unplaced separator declarators',
    show Declarator.mapRefsAll _ declarators' = _ from h, furtherText_mapRefs TypeRef.name_unplaced]

theorem furtherText_cons (separator : String) (first : Declarator) (rest : List Declarator) :
    furtherText separator (first :: rest) =
      separator ++ (first.render false ++ furtherText ", " rest) := by
  cases rest with
  | nil =>
    show separator ++ ", ".intercalate [first.render false] =
      separator ++ (first.render false ++ "")
    rw [String.intercalate_singleton, String.append_empty]
  | cons second rest =>
    show separator ++ ", ".intercalate (first.render false :: _) = _
    rw [List.map_cons, String.intercalate_cons_cons, String.append_assoc]
    rfl

theorem TypeDecl.render_withoutBody (htag : IsWord tag) (qualifiers : Qualifiers) (depth : Nat) :
    (TypeDecl.tagged qualifiers (some tag) none).render depth = qualifiers.leadingText ++ tag := by
  have hword := Text.trimEnd_of_isWord htag
  have hne : Text.trimEnd tag ≠ "" := hword.symm ▸ Text.ne_empty_of_isWord htag
  rw [TypeDecl.render, Option.getD_some, Text.trimEnd_append _ hne, hword]

theorem Declarator.render_eq_of_unplaced {declarator declarator' : Declarator}
    (h : declarator'.unplaced = declarator.unplaced) (withType : Bool) :
    declarator'.render withType = declarator.render withType := by
  rw [← declarator'.render_mapRefs TypeRef.name_unplaced withType,
    show declarator'.mapRefs _ = _ from h, declarator.render_mapRefs TypeRef.name_unplaced]

/-- Without its type, a declarator is written the same with other qualifiers left of the type. -/
theorem Declarator.render_false_withLeft (declarator : Declarator) (qualifiers : Qualifiers) :
    Declarator.render false { declarator with left := qualifiers } = declarator.render false := by
  rw [render_eq, render_eq]
  rfl

/-- What a field is written with in front of the declarator. -/
theorem Declarator.render_true_of_base {ref : TypeRef} (hbase : field.base = some ref)
    (hspace : field.spaceBeforeName = false) (hfield : field.render false ≠ "") :
    field.render true = field.left.leadingText ++ ref.name ++ " " ++ field.render false := by
  have htype : field.typeText = field.left.leadingText ++ ref.name ++ " " := by
    rw [typeText, hbase, hspace]
    simp only [Bool.false_eq_true, if_false, String.append_assoc]
  have hcore :
      field.render false = Text.trimEnd (field.right.leadingText ++ coreText false field) := by
    rw [render_eq, Bool.false_and, if_neg Bool.false_ne_true, String.empty_append]
  rw [hcore] at hfield ⊢
  rw [render_eq, if_pos rfl, htype, hspace, Bool.and_false, String.append_assoc]
  exact Text.trimEnd_append _ hfield

/-- Members are written alike where the statement of one of them is, and the other ones are the
same. -/
theorem renderMembers_statement {depth : Nat} {before before' behind behind' : List Member}
    {declaration declaration' : Declaration} (hbefore : Member.SameAll before before')
    (hstatement : declaration'.render depth = declaration.render depth)
    (hbehind : Member.SameAll behind behind') :
    renderMembers depth (before' ++ .declaration declaration' :: behind') =
      renderMembers depth (before ++ .declaration declaration :: behind) := by
  have hsame : Member.SameAll (before ++ .declaration declaration' :: behind)
      (before' ++ .declaration declaration' :: behind') := by
    rw [Member.SameAll, Member.SameAllBy, Member.mapRefsAll_append, Member.mapRefsAll_append,
      hbefore, Member.mapRefsAll, Member.mapRefsAll, hbehind]
  have hlast : renderMembers depth (.declaration declaration' :: behind) =
      renderMembers depth (.declaration declaration :: behind) := by
    rw [renderMembers, renderMembers, hstatement]
  rw [hsame.renderMembers_eq, renderMembers_append_congr hlast]

/-- The variables of a type and the fields of the type are written alike. -/
theorem Declaration.render_fields (htag : IsWord tag) (hspace : field.spaceBeforeName = false)
    (hfield : field.render false ≠ "") {qualifiers : Qualifiers}
    {instances further : List Declarator} (hfields : Declarator.unplacedAll (field :: further) =
      Declarator.unplacedAll (instances.map fun declared => { declared with left := qualifiers }))
    (hbase : ∃ ref, field.base = some ref ∧ ref.name = tag) (depth : Nat) :
    (Declaration.names (field :: further)).render depth =
      (Declaration.type (.tagged qualifiers (some tag) none) instances).render depth := by
  obtain ⟨ref, href, rfl⟩ := hbase
  cases instances with
  | nil => cases hfields
  | cons first rest =>
    obtain ⟨hfirst, hrest⟩ := List.cons.inj hfields
    have hleft : field.left = qualifiers := (Declarator.mapRefs_eq_iff.mp hfirst).2.1
    have hfirstText : field.render false = first.render false := by
      rw [Declarator.render_eq_of_unplaced hfirst, Declarator.render_false_withLeft]
    have hrestText : furtherText ", " further = furtherText ", " rest := by
      rw [furtherText_eq_of_unplaced hrest]
      refine furtherText_congr ?_ _
      rw [List.map_map]
      exact List.map_congr_left fun declared _ => declared.render_false_withLeft qualifiers
    have hseparator : (TypeDecl.tagged qualifiers (some ref.name) none).isSynonym = false := rfl
    rw [Declaration.render, Declaration.render, TypeDecl.render_withoutBody htag, hseparator,
      if_neg Bool.false_ne_true, furtherText_cons,
      Declarator.render_true_of_base href hspace hfield, hleft,
      hfirstText, hrestText]
    simp only [String.append_assoc]

mutual

/-- A statement in which the tag is resolved is written as the one that it is resolved from. -/
theorem Declaration.Resolved.render_eq (htag : IsWord tag) (hspace : field.spaceBeforeName = false)
    (hfield : field.render false ≠ "") {declaration declaration' : Declaration} (depth : Nat) :
    Declaration.Resolved tag field declaration declaration' →
      declaration'.render depth = declaration.render depth
  | .fields hfields hbase =>
    Declaration.render_fields htag hspace hfield hfields (hbase field List.mem_cons_self) depth
  | .tagged hmembers hinstances => by
    rw [Declaration.render, Declaration.render, TypeDecl.render, TypeDecl.render,
      hmembers.renderMembers_eq htag hspace hfield (depth + 1),
      furtherText_eq_of_unplaced hinstances]
    rfl
  | .synonym hmembers _ hdeclarator hsiblings => by
    rw [Declaration.render, Declaration.render, TypeDecl.render, TypeDecl.render, TypeDecl.render,
      TypeDecl.render, hmembers.renderMembers_eq htag hspace hfield (depth + 1),
      Declarator.render_eq_of_unplaced hdeclarator, furtherText_eq_of_unplaced hsiblings]
    rfl

/-- Members in which the tag is resolved are written as the members that they are resolved from. -/
theorem Member.Resolved.renderMembers_eq (htag : IsWord tag)
    (hspace : field.spaceBeforeName = false) (hfield : field.render false ≠ "")
    {members members' : List Member} (depth : Nat) :
    Member.Resolved tag field members members' →
      renderMembers depth members' = renderMembers depth members
  | .statement hbefore hstatement hbehind =>
    renderMembers_statement hbefore (hstatement.render_eq htag hspace hfield depth) hbehind

end

end CommonDecl

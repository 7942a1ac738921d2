import CommonDecl.Proofs.AttributeOrder
import CommonDecl.Proofs.Distribution

/-!
# Dimensions behind a name

A list of dimensions behind a name is applied after all attributes.  It does what a DIMENSION at the
end of the attributes does (`read_concat_dimension`): the only difference is when the reference of
an INTENT is removed, and a list with one INTENT has no second reference.  It also takes the place
of the list of a DIMENSION among the attributes, of its pointers and of its dimensions, but a
reference that those pointers have removed does not come back (`readDeclarator_shared_dimension`).
-/

namespace CommonDecl

/-! ### Qualifiers -/

namespace Qualifiers

variable {qualifiers : Qualifiers} {name : String}

/-- Removing one name commutes with removing all of another. -/
theorem removeAll_remove (qualifiers : Qualifiers) (name other : String) :
    (qualifiers.remove name).removeAll other = (qualifiers.removeAll other).remove name :=
  congrArg mk List.erase_filter.symm

/-- A qualifier that stands at most once can be removed once only. -/
theorem remove_remove (h : qualifiers.countOf name ≤ 1) :
    (qualifiers.remove name).remove name = qualifiers.remove name := by
  refine remove_of_not_mem (List.count_eq_zero.mp ?_)
  have hcount : (qualifiers.toList.erase name).count name = qualifiers.toList.count name - 1 :=
    List.count_erase_self
  exact hcount.trans (Nat.sub_eq_zero_of_le h)

end Qualifiers

namespace Fortran

variable {scope : Scope} {attr : Attribute} {attributes : List Attribute}
  {declarator first second : Declarator} {list : Level} {separators : Separators}

/-! ### References -/

/-- An INTENT gives one reference, and no other attribute gives any. -/
theorem countOf_reference_apply_le (scope : Scope) (attr : Attribute) (declarator : Declarator) :
    (attr.apply scope declarator).right.countOf "&" ≤ declarator.right.countOf "&" +
      countOf "INTENT" [attr] := by
  cases attr with
  | pointer => exact List.count_append.le
  | intent word => exact List.count_cons_self.le
  | dimension list =>
    rw [Attribute.apply]
    have hremoved := countOf_removeAll declarator.right
    -- A list of dimensions takes references away, if it does anything.
    rcases blank_or_deferred_or_fixed list with hblank | hdeferred | ⟨hblank, hdeferred⟩
    · rw [withDimensions_of_blank hblank]
      exact Nat.le_add_right _ _
    · rw [withDimensions_of_deferred hdeferred]
      dsimp only
      rw [(countOf_rank_append list _).2, (countOf_remove _).2, hremoved.2]
      exact (Nat.sub_le _ _).trans (Nat.le_add_right _ _)
    · rw [withDimensions_of_fixed hblank hdeferred]
      exact hremoved.2.le.trans (Nat.le_add_right _ _)
  | _ => exact Nat.le_add_right _ _

/-- A list of attributes gives no more references than it has INTENT attributes. -/
theorem countOf_reference_applyAll_le (scope : Scope) (attributes : List Attribute)
    (declarator : Declarator) : (applyAll scope attributes declarator).right.countOf "&" ≤
      declarator.right.countOf "&" + countOf "INTENT" attributes := by
  induction attributes generalizing declarator with
  | nil => exact Nat.le_refl _
  | cons attr attributes ih =>
    have hone := countOf_reference_apply_le scope attr declarator
    have hrest := ih (attr.apply scope declarator)
    rw [← List.singleton_append, countOf_append, applyAll_append]
    rw [show applyAll scope [attr] declarator = attr.apply scope declarator from rfl]
    omega

/-! ### A DIMENSION at the end -/

/-- The declarator with one reference less. -/
def withoutReference (declarator : Declarator) : Declarator :=
  { declarator with right := declarator.right.remove "&" }

/-- The pointers of a list remove a reference, so one that is removed before makes no difference. -/
theorem withDimensions_withoutReference (h : isDeferred list = true)
    (hfew : declarator.right.countOf "&" ≤ 1) :
    withDimensions list (withoutReference declarator) = withDimensions list declarator ∧
      withoutReference (withDimensions list declarator) = withDimensions list declarator := by
  have hremoved : (declarator.right.removeAll "*").countOf "&" ≤ 1 :=
    (countOf_removeAll declarator.right).2.le.trans hfew
  rw [withDimensions_of_deferred h, withDimensions_of_deferred h, withoutReference,
    withoutReference]
  dsimp only
  rw [Qualifiers.removeAll_remove, remove_rank_append, Qualifiers.remove_remove hremoved]
  exact ⟨rfl, rfl⟩

/-- A DIMENSION at the end of a list does what its list does after all attributes. -/
theorem withAttributes_concat_dimension (hintents : countOf "INTENT" attributes ≤ 1)
    (list : Level) :
    withAttributes scope (attributes ++ [.dimension list]) {} =
      withDimensions list (withAttributes scope attributes {}) := by
  -- One INTENT gives one reference, so removing it twice does no more than removing it once.
  have hfew : (applyAll scope attributes {}).right.countOf "&" ≤ 1 :=
    (countOf_reference_applyAll_le scope attributes {}).trans ((Nat.zero_add _).le.trans hintents)
  have hlast (changed : Declarator) :
      applyAll scope [.dimension list] changed = withDimensions list changed := rfl
  have hany : [Attribute.dimension list].any Attribute.isDeferred = isDeferred list := by
    rw [List.any_cons, List.any_nil, Bool.or_false]
    rfl
  unfold withAttributes
  rw [applyAll_append, hlast, List.any_append, hany]
  generalize applyAll scope attributes {} = changed at hfew
  show (if _ then withoutReference (withDimensions list changed) else withDimensions list changed) =
    withDimensions list (if _ then withoutReference changed else changed)
  -- Only a deferred list removes the reference, and only there both orders differ.
  rcases blank_or_deferred_or_fixed list with hblank | hdeferred | ⟨hblank, hdeferred⟩
  · rw [isDeferred_of_blank hblank, Bool.or_false, withDimensions_of_blank hblank,
      withDimensions_of_blank hblank]
  · obtain ⟨hbefore, hbehind⟩ := withDimensions_withoutReference hdeferred hfew
    rw [hdeferred, Bool.or_true, if_pos rfl, hbehind]
    split
    · exact hbefore.symm
    · rfl
  · have hcommute : withDimensions list (withoutReference changed) =
        withoutReference (withDimensions list changed) := by
      rw [withDimensions_of_fixed hblank hdeferred, withDimensions_of_fixed hblank hdeferred,
        withoutReference, withoutReference]
      dsimp only
      rw [Qualifiers.removeAll_remove]
    rw [hdeferred, Bool.or_false]
    split
    · exact hcommute.symm
    · rfl

/-! ### Entities with attributes -/

/-- Whether a list applies before or after an entity takes its attributes makes no difference. -/
theorem withAttributesOf_withDimensions (list : Level) (shared : Declarator) :
    withAttributesOf (withDimensions list shared) {} =
      withDimensions list (withAttributesOf shared {}) := by
  rcases blank_or_deferred_or_fixed list with hblank | hdeferred | ⟨hblank, hdeferred⟩
  · rw [withDimensions_of_blank hblank, withDimensions_of_blank hblank]
  · rw [withDimensions_of_deferred hdeferred, withDimensions_of_deferred hdeferred]
    rfl
  · rw [withDimensions_of_fixed hblank hdeferred, withDimensions_of_fixed hblank hdeferred]
    rfl

theorem withDimensions_named (list : Level) (declarator : Declarator) (name : Option String) :
    withDimensions list { declarator with name := name } =
      { withDimensions list declarator with name := name } := by
  rcases blank_or_deferred_or_fixed list with hblank | hdeferred | ⟨hblank, hdeferred⟩
  · rw [withDimensions_of_blank hblank, withDimensions_of_blank hblank]
  · rw [withDimensions_of_deferred hdeferred, withDimensions_of_deferred hdeferred]
  · rw [withDimensions_of_fixed hblank hdeferred, withDimensions_of_fixed hblank hdeferred]

/-- Attributes change nothing but what an entity takes over from them. -/
theorem withAttributesOf_apply (scope : Scope) (attr : Attribute)
    (h : withAttributesOf declarator {} = declarator) :
    withAttributesOf (attr.apply scope declarator) {} = attr.apply scope declarator := by
  cases attr with
  | dimension list => rw [Attribute.apply, withAttributesOf_withDimensions, h]
  | _ =>
    rw [← h]
    rfl

theorem withAttributesOf_applyAll (scope : Scope) (attributes : List Attribute)
    (h : withAttributesOf declarator {} = declarator) :
    withAttributesOf (applyAll scope attributes declarator) {} =
      applyAll scope attributes declarator := by
  induction attributes generalizing declarator with
  | nil => exact h
  | cons attr attributes ih => exact ih (withAttributesOf_apply scope attr h)

theorem withAttributesOf_withAttributes (scope : Scope) (attributes : List Attribute) :
    withAttributesOf (withAttributes scope attributes {}) {} =
      withAttributes scope attributes {} := by
  have happly : withAttributesOf (applyAll scope attributes {}) {} = applyAll scope attributes {} :=
    withAttributesOf_applyAll scope attributes rfl
  unfold withAttributes
  dsimp only
  split
  · rw [← happly]
    rfl
  · exact happly

end Fortran

namespace Entity

open Fortran

variable {scope : Scope} (entity : Entity)

/-- The entity with this list of dimensions. -/
def withList (list : Item) (hlist : list.isGroup .parenthesis = true) : Entity :=
  { entity with
    dimensions := some list
    dimensions_isGroup := by
      rintro item ⟨⟩
      exact hlist }

/-- A variable without dimensions has no list to check. -/
theorem none_isGroup : ∀ item ∈ (none : Option Item), item.isGroup .parenthesis = true := by
  rintro item ⟨⟩

/-- The variable of this name, without dimensions. -/
def ofName (name : String) (hseparator : (Item.token name .unresolved).isSeparator = false)
    (hheading : eqAnyCase name "SUBROUTINE" = false ∧ eqAnyCase name "FUNCTION" = false) :
    Entity where
  name := .token name .unresolved
  dimensions := none
  name_isIdentifier := rfl
  name_not_separator := hseparator
  name_not_heading := hheading
  dimensions_isGroup := none_isGroup

theorem declarator_of_none (h : entity.dimensions = none) (shared : Declarator) :
    entity.declarator scope shared =
      { withAttributesOf shared {} with name := some entity.name.value } := by
  rw [declarator, level, h, Option.toList_none, readEntity_name]
  rfl

/-- An entity with a list has its attributes with this list. -/
theorem declarator_of_some {item : Item} {list : Level} (h : entity.dimensions = some item)
    (hlist : Level.groupContents? [item] .parenthesis = some list) (shared : Declarator) :
    entity.declarator scope shared =
      withDimensions list { withAttributesOf shared {} with name := some entity.name.value } := by
  rw [declarator, level, h, Option.toList_some, readEntity_name, readDimensions, hlist]

/-- A list of dimensions behind the name does what it does at the end of the attributes. -/
theorem declarator_withList {item : Item} (hitem : item.isGroup .parenthesis = true) {list : Level}
    (hlist : Level.groupContents? [item] .parenthesis = some list) (h : entity.dimensions = none)
    (shared : Declarator) :
    (entity.withList item hitem).declarator scope shared =
      entity.declarator scope (withDimensions list shared) := by
  rw [declarator_of_some (entity.withList item hitem) rfl hlist, declarator_of_none entity h,
    withAttributesOf_withDimensions, withDimensions_named]
  rfl

/-- An entity behind a list of attributes has these. -/
theorem readDeclarator_attributeList (separators : Fortran.Separators) {attributes : List Attribute}
    {parts : List Level} (hall : List.Forall₂ (Attribute.IsWritten scope) attributes parts)
    (hparts : ∀ part ∈ parts, IsPart part) {stop : Level} (hstop : stop.NoBracket) :
    readDeclarator scope none (attributeList separators parts (entity.level ++ stop)) {} =
      .ok stop (entity.declarator scope (withAttributes scope attributes {})) := by
  have hread : readAttributes scope (attributeList separators parts (entity.level ++ stop)) {} =
      .ok (entity.level ++ stop) (withAttributes scope attributes {}) :=
    (readAttributes_attributeList_iff hparts).mpr ⟨attributes, hall, rfl⟩
  unfold readDeclarator
  dsimp only
  rw [bind_of_ok hread, readRest, ← withAttributesOf_withAttributes,
    entity.readEntity_append scope _ hstop, withAttributesOf_withAttributes]

end Entity

namespace Fortran

variable {scope : Scope} {declarator : Declarator} {list : Level} {separators : Separators}

/-- Entities behind a list of attributes have these. -/
theorem readStatement_attributeList (separators : Separators) {attributes : List Attribute}
    {parts : List Level} (hall : List.Forall₂ (Attribute.IsWritten scope) attributes parts)
    (hparts : ∀ part ∈ parts, IsPart part) (entries : List (Entity × Initialiser)) {stop : Level}
    (hstop : stop.atStatementEnd = true) :
    readStatement scope (attributeList separators parts
        ([separators.comma].intercalate (entries.map Entity.withInitialiser) ++ stop)) =
      .ok (.names (entries.map fun entry =>
        entry.1.declarator scope (withAttributes scope attributes {})), stop.afterSemicolon) := by
  have hread : readAttributes scope (attributeList separators parts
      ([separators.comma].intercalate (entries.map Entity.withInitialiser) ++ stop)) {} = .ok _ _ :=
    (readAttributes_attributeList_iff hparts).mpr ⟨attributes, hall, rfl⟩
  unfold readStatement
  rw [hread]
  dsimp only
  rw [readSeparated_entities separators.isToken_comma hstop]
  rfl

/-- Attributes that go on to the end of their level end at a `::` behind it. -/
theorem applyAttributes_append_colons {level : Level}
    (hlevel : ∀ item ∈ level, item.isToken "::" = false) {deferred deferred' : Bool}
    {declarator changed : Declarator}
    (h : applyAttributes scope deferred level declarator = .ok (deferred', []) changed)
    (rest : Level) :
    applyAttributes scope deferred (level ++ separators.colons :: rest) declarator =
      .ok (deferred', rest) changed := by
  obtain ⟨hcolons, hcomma⟩ := separators.isToken_colons_cons rest
  -- By induction along the entries of the list, none of which sees the `::` behind it.
  induction deferred, level using applyAttributes_induct generalizing declarator with
  | ends deferred level hend =>
    rw [applyAttributes, if_pos hend] at h
    cases h
    have hend' : ¬ Level.atEnd (separators.colons :: rest) = true := Bool.false_ne_true
    rw [List.isEmpty_iff.mp hend, List.nil_append, applyAttributes, if_neg hend', if_pos hcolons]
    rfl
  | colons deferred level hend hdone =>
    obtain ⟨item, level, rfl⟩ := List.exists_cons_of_ne_nil fun hnil =>
      hend (List.isEmpty_iff.mpr hnil)
    exact absurd hdone (Bool.eq_false_iff.mp (hlevel item List.mem_cons_self))
  | entry deferred level hend hdone ih =>
    have hne : level ≠ [] := fun hnil => hend (List.isEmpty_iff.mpr hnil)
    have hend' : ¬ (level ++ separators.colons :: rest).atEnd = true := by simp [Level.atEnd]
    have hdone' : ¬ (level ++ separators.colons :: rest).isToken "::" = true := by
      rwa [Level.isToken_append hne]
    rw [applyAttributes, if_neg hend, if_neg hdone] at h
    obtain ⟨result, middle, happly, h⟩ := bind_apply_eq_ok_iff.mp h
    have happend :=
      (ends_of_ok happly).mp (applyAttribute_append_separator scope (.inr hcolons) hne declarator)
    rw [applyAttributes, if_neg hend', if_neg hdone', bind_of_ok happend]
    cases result with
    | none =>
      cases h
      exact absurd rfl hne
    | some found =>
      obtain ⟨deferredHere, after⟩ := found
      obtain ⟨attr, hattr⟩ := Attribute.exists_startsAt happly
      dsimp only [Option.map_some] at h ⊢
      -- Behind the last entry stands the `::`, behind any other one its comma.
      cases after with
      | nil =>
        cases h
        rw [List.nil_append, if_neg fun h => hcomma h.1, if_pos hcolons]
        rfl
      | cons item after =>
        have hsuffix : item :: after <:+ level := hattr.suffix
        have hitem : ¬ Level.isToken (item :: after) "::" = true :=
          Bool.eq_false_iff.mp (hlevel item (hsuffix.subset List.mem_cons_self))
        by_cases hgoes : Level.isToken (item :: after) "," = true
        · have hshorter : List.length (Level.next (item :: after)) < level.length :=
            hsuffix.length_le
          have hshorter' : List.length (Level.next (item :: after ++ separators.colons :: rest)) <
              (level ++ separators.colons :: rest).length := by
            simpa [Level.next] using hshorter
          rw [if_pos ⟨hgoes, hshorter⟩] at h
          rw [if_pos ⟨hgoes, hshorter'⟩]
          exact ih deferredHere _ ⟨hgoes, hshorter⟩ (fun other hother => hlevel other
            (hsuffix.subset (List.mem_cons_of_mem _ hother))) h
        · rw [if_neg fun h => hgoes h.1, if_neg hitem] at h
          cases h

/-- The parts of a list and the commas between them are no `::`. -/
theorem not_colons_of_isPart {parts : List Level} (hparts : ∀ part ∈ parts, IsPart part) :
    ∀ item ∈ [separators.comma].intercalate parts, item.isToken "::" = false := by
  have hpart (part : Level) (h : part ∈ parts) (item : Item) (hitem : item ∈ part) :
      item.isToken "::" = false :=
    ((hparts part h).not_separator item hitem).2
  have hcomma : separators.comma.isToken "::" = false :=
    Level.isToken_eq_false_of_isToken (separators.isToken_comma_cons []) (by decide)
  cases parts with
  | nil => exact List.forall_mem_nil _
  | cons part parts =>
    rw [intercalate_cons_eq_flatMap]
    intro item hitem
    rcases List.mem_append.mp hitem with hitem | hitem
    · exact hpart part List.mem_cons_self item hitem
    · obtain ⟨other, hother, hitem⟩ := List.mem_flatMap.mp hitem
      rcases List.mem_cons.mp hitem with rfl | hitem
      · exact hcomma
      · exact hpart other (List.mem_cons_of_mem _ hother) item hitem

/-- What a list in two pieces consists of comes in two pieces. -/
theorem exists_append_of_isWritten {attributes : List Attribute} {before behind : List Level}
    (h : List.Forall₂ (Attribute.IsWritten scope) attributes (before ++ behind)) :
    ∃ front back : List Attribute, attributes = front ++ back ∧
      List.Forall₂ (Attribute.IsWritten scope) front before ∧
        List.Forall₂ (Attribute.IsWritten scope) back behind :=
  ⟨_, _, (List.take_append_drop before.length attributes).symm, List.forall₂_take_append _ _ _ h,
    List.forall₂_drop_append _ _ _ h⟩

/-- A list that is read to its end consists of attributes. -/
theorem exists_isWritten_of_readAttributes {parts : List Level}
    (hparts : ∀ part ∈ parts, IsPart part) {shared : Declarator}
    (h : readAttributes scope ([separators.comma].intercalate parts) {} = .ok [] shared) :
    ∃ attributes, List.Forall₂ (Attribute.IsWritten scope) attributes parts := by
  obtain ⟨⟨deferred, after⟩, middle, happly, h⟩ := bind_apply_eq_ok_iff.mp h
  obtain rfl : after = [] := by cases deferred <;> cases h <;> rfl
  have happend : applyAttributes scope false (attributeList separators parts []) {} =
      .ok (deferred, []) middle :=
    applyAttributes_append_colons (not_colons_of_isPart hparts) happly []
  exact exists_isWritten_of_applyAttributes hparts happend

/-- The part of a list that is DIMENSION with its list. -/
theorem isWritten_dimensionPart {keyword item : Item} {list : Level}
    (hkeyword : attributeWord? [keyword] = some "DIMENSION")
    (hlist : Level.groupContents? [item] .parenthesis = some list) :
    (Attribute.dimension list).IsWritten scope [keyword, item] ∧ IsPart [keyword, item] := by
  have hword : attributeWord? [keyword, item] = some "DIMENSION" := hkeyword
  refine ⟨Attribute.startsAt_dimension hword hlist, List.cons_ne_nil _ _, ?_⟩
  -- Neither the word DIMENSION nor the group of its list is a separator.
  have hkeywordToken (text : String) (hne : upperCase text ≠ "DIMENSION") :
      keyword.isToken text = false :=
    have htoken : Level.isToken [keyword] text = false :=
      isToken_eq_false_of_word? (attributeWord?_eq_some_iff.mp hkeyword).2 hne
    htoken
  have hitemToken (text : String) : item.isToken text = false :=
    have htoken : Level.isToken [item] text = false :=
      Level.isToken_eq_false_of_groupContents? hlist
    htoken
  simp only [List.forall_mem_cons, List.not_mem_nil, false_imp_iff, implies_true, and_true]
  exact ⟨⟨hkeywordToken "," (by decide +kernel), hkeywordToken "::" (by decide +kernel)⟩,
    hitemToken ",", hitemToken "::"⟩

/-- A list of dimensions behind a name, or behind each name of a statement, does what a DIMENSION
with this list does at the end of the attributes, where at most one of these is an INTENT. -/
theorem read_concat_dimension (scope : Scope) (separators : Separators) {parts : List Level}
    {shared : Declarator} (hparts : ∀ part ∈ parts, IsPart part)
    (hintents : (parts.map attributeWord?).count (some "INTENT") ≤ 1)
    (haccepted : readAttributes scope ([separators.comma].intercalate parts) {} = .ok [] shared)
    {keyword list : Item} (hkeyword : attributeWord? [keyword] = some "DIMENSION")
    (hlist : list.isGroup .parenthesis = true) :
    (∀ entity : Entity, entity.dimensions = none → ∀ stop : Level, stop.NoBracket → ∃ declarator,
      readDeclarator scope none
          (attributeList separators (parts ++ [[keyword, list]]) (entity.level ++ stop)) {} =
            .ok stop declarator ∧
        readDeclarator scope none
          (attributeList separators parts ((entity.withList list hlist).level ++ stop)) {} =
            .ok stop declarator) ∧
    ∀ entries : List (Entity × Initialiser), (∀ entry ∈ entries, entry.1.dimensions = none) →
      ∀ stop : Level, stop.atStatementEnd = true → ∃ declaration,
        readStatement scope (attributeList separators (parts ++ [[keyword, list]])
            ([separators.comma].intercalate (entries.map Entity.withInitialiser) ++ stop)) =
          .ok (declaration, stop.afterSemicolon) ∧
        readStatement scope (attributeList separators parts
            ([separators.comma].intercalate
              ((entries.map fun entry => (entry.1.withList list hlist, entry.2)).map
                Entity.withInitialiser) ++ stop)) =
          .ok (declaration, stop.afterSemicolon) := by
  obtain ⟨attributes, hall⟩ := exists_isWritten_of_readAttributes hparts haccepted
  have hgroup : Level.isGroup [list] .parenthesis = true := hlist
  obtain ⟨contents, hcontents⟩ := Level.exists_groupContents? hgroup
  obtain ⟨hdimension, hpart⟩ :
      (Attribute.dimension contents).IsWritten scope [keyword, list] ∧ IsPart _ :=
    isWritten_dimensionPart hkeyword hcontents
  -- Both lists of parts are written attributes, the longer one with the DIMENSION at its end.
  have hallParts : ∀ part ∈ parts ++ [[keyword, list]], IsPart part :=
    List.forall_mem_append.mpr ⟨hparts, List.forall_mem_singleton.mpr hpart⟩
  have hallWritten : List.Forall₂ (Attribute.IsWritten scope) (attributes ++ [.dimension contents])
      (parts ++ [[keyword, list]]) := List.rel_append hall (.cons hdimension .nil)
  have hlast : withAttributes scope (attributes ++ [.dimension contents]) {} =
      withDimensions contents (withAttributes scope attributes {}) := by
    refine withAttributes_concat_dimension ?_ contents
    rwa [countOf, map_word?_of_isWritten hall]
  -- Each entity has the same declarator in both.
  have hentity (entity : Entity) (hnone : entity.dimensions = none) :
      (entity.withList list hlist).declarator scope (withAttributes scope attributes {}) =
        entity.declarator scope
            (withAttributes scope (attributes ++ [.dimension contents]) {}) := by
    rw [hlast, entity.declarator_withList hlist hcontents hnone]
  constructor
  · intro entity hnone stop hstop
    refine ⟨_, entity.readDeclarator_attributeList separators hallWritten hallParts hstop, ?_⟩
    rw [← hentity entity hnone]
    exact (entity.withList list hlist).readDeclarator_attributeList separators hall hparts hstop
  · intro entries hnone stop hstop
    refine ⟨_, readStatement_attributeList separators hallWritten hallParts entries hstop, ?_⟩
    rw [readStatement_attributeList separators hall hparts _ hstop, List.map_map]
    exact congrArg (fun declarators =>
      Except.ok (Declaration.names declarators, stop.afterSemicolon))
      (List.map_congr_left fun entry hentry => hentity entry.1 (hnone entry hentry))

/-- `REAL, POINTER, INTENT(IN), DIMENSION(:, 10) :: x, y` declares what `REAL, POINTER, INTENT(IN)
:: x(:, 10), y(:, 10)` does, and `REAL, POINTER, INTENT(IN), DIMENSION(:, 10) :: x` what `REAL,
POINTER, INTENT(IN) :: x(:, 10)` does. -/
theorem read_concat_dimension_mixed :
    let parts :=
      [[.token "REAL" .typeName], wordPart "POINTER", listPart "INTENT" (.token "IN" .unresolved)]
    let keyword := Item.token "DIMENSION" .unresolved
    let list := Item.group "(" {} [.token ":" {}, .token "," {}, .token "10" {}]
    let x := Entity.ofName "x" (by decide) (by decide +kernel)
    let y := Entity.ofName "y" (by decide) (by decide +kernel)
    (∀ part ∈ parts, IsPart part) ∧ (parts.map attributeWord?).count (some "INTENT") ≤ 1 ∧
      readAttributes (Scope.ofSettings {}) ([.token "," {}].intercalate parts) {} =
        .ok [] { left := ⟨["const", "INTENTIN"]⟩, right := ⟨["&", "*"]⟩,
                 base := (Scope.ofSettings {}).lookup "float" } ∧
      (∃ declarator,
        readDeclarator (Scope.ofSettings {}) none
            (attributeList {} (parts ++ [[keyword, list]]) (x.level ++ [])) {} = .ok [] declarator ∧
          readDeclarator (Scope.ofSettings {}) none
            (attributeList {} parts ((x.withList list rfl).level ++ [])) {} = .ok [] declarator) ∧
      ∃ declaration,
        readStatement (Scope.ofSettings {}) (attributeList {} (parts ++ [[keyword, list]])
            ([.token "," {}].intercalate
              ([(x, .none), (y, .none)].map Entity.withInitialiser) ++ [])) =
          .ok (declaration, []) ∧
        readStatement (Scope.ofSettings {}) (attributeList {} parts
            ([.token "," {}].intercalate
                (([(x, .none), (y, .none)].map fun entry : Entity × Initialiser =>
              (entry.1.withList list rfl, entry.2)).map Entity.withInitialiser) ++ [])) =
          .ok (declaration, []) := by
  intro parts keyword list x y
  have hparts : ∀ part ∈ parts, IsPart part := by
    simp only [parts, List.forall_mem_cons]
    exact ⟨⟨by simp, by decide⟩, ⟨by simp [wordPart], by decide⟩, ⟨by simp [listPart], by decide⟩,
      List.forall_mem_nil _⟩
  have hintents : (parts.map attributeWord?).count (some "INTENT") ≤ 1 := by decide +kernel
  have haccepted : readAttributes (Scope.ofSettings {}) ([.token "," {}].intercalate parts) {} =
      .ok [] { left := ⟨["const", "INTENTIN"]⟩, right := ⟨["&", "*"]⟩,
               base := (Scope.ofSettings {}).lookup "float" } := by
    cbv
  obtain ⟨hone, hall⟩ := read_concat_dimension (Scope.ofSettings {}) {} hparts hintents haccepted
    (show attributeWord? [keyword] = some "DIMENSION" by decide +kernel)
      (show list.isGroup .parenthesis = true from rfl)
  refine ⟨hparts, hintents, haccepted, hone x rfl [] (by simp [Level.NoBracket]), hall _ ?_ [] rfl⟩
  simp only [List.forall_mem_cons]
  exact ⟨rfl, rfl, List.forall_mem_nil _⟩

/-! ### A DIMENSION among the attributes -/

/-- The right qualifiers of a declarator are pointers and references. -/
def HasOnlyMarkers (declarator : Declarator) : Prop :=
  ∀ text ∈ declarator.right.toList, text = "*" ∨ text = "&"

theorem HasOnlyMarkers.withoutReference (h : HasOnlyMarkers declarator) :
    HasOnlyMarkers (withoutReference declarator) :=
  fun text htext => h text (List.mem_of_mem_erase htext)

theorem HasOnlyMarkers.apply (scope : Scope) (attr : Attribute) (h : HasOnlyMarkers declarator) :
    HasOnlyMarkers (attr.apply scope declarator) := by
  cases attr with
  | pointer => exact List.forall_mem_append.mpr ⟨h, List.forall_mem_singleton.mpr (.inl rfl)⟩
  | intent word => exact List.forall_mem_cons.mpr ⟨.inr rfl, h⟩
  | dimension list =>
    rw [Attribute.apply]
    have hfiltered : ∀ text ∈ (declarator.right.removeAll "*").toList, text = "*" ∨ text = "&" :=
      fun text htext => h text (List.mem_of_mem_filter htext)
    -- A list puts pointers in front or takes markers away.
    rcases blank_or_deferred_or_fixed list with hblank | hdeferred | ⟨hblank, hdeferred⟩
    · rwa [withDimensions_of_blank hblank]
    · rw [withDimensions_of_deferred hdeferred]
      refine List.forall_mem_append.mpr ⟨fun text htext => .inl (List.eq_of_mem_replicate htext),
        fun text htext => ?_⟩
      exact hfiltered text (List.mem_of_mem_erase htext)
    · rw [withDimensions_of_fixed hblank hdeferred]
      exact hfiltered
  | _ => exact h

theorem HasOnlyMarkers.applyAll (scope : Scope) (attributes : List Attribute)
    (h : HasOnlyMarkers declarator) :
    HasOnlyMarkers (applyAll scope attributes declarator) := by
  induction attributes generalizing declarator with
  | nil => exact h
  | cons attr attributes ih => exact ih (h.apply scope attr)

/-- Attributes leave only pointers and references right of the type. -/
theorem hasOnlyMarkers_withAttributes (scope : Scope) (attributes : List Attribute) :
    HasOnlyMarkers (withAttributes scope attributes {}) := by
  have hall : HasOnlyMarkers (applyAll scope attributes {}) :=
    HasOnlyMarkers.applyAll scope attributes (List.forall_mem_nil _)
  unfold withAttributes
  dsimp only
  split
  · exact hall.withoutReference
  · exact hall

/-- Without its pointers, such a declarator has its references. -/
theorem HasOnlyMarkers.removeAll (h : HasOnlyMarkers declarator) :
    declarator.right.removeAll "*" = ⟨List.replicate (declarator.right.countOf "&") "&"⟩ := by
  refine congrArg Qualifiers.mk (List.eq_replicate_iff.mpr ⟨?_, fun text htext => ?_⟩)
  · rw [← List.countP_eq_length_filter]
    refine List.countP_congr fun text htext => ?_
    rcases h text htext with rfl | rfl <;> decide
  · obtain ⟨hmem, hne⟩ := List.mem_filter.mp htext
    rcases h text hmem with rfl | rfl
    · exact absurd hne (by decide)
    · rfl

/-- The number of references that a list behind the name leaves. -/
def referencesLeft (list : Level) (references : Nat) : Nat :=
  if isDeferred list then references - 1 else references

/-- What a list that is not blank leaves of the right qualifiers and the dimensions of a declarator
is the number of its references. -/
theorem HasOnlyMarkers.withDimensions_eq (h : HasOnlyMarkers declarator)
    (hblank : isBlankList list = false) :
    withDimensions list declarator =
      { declarator with
        right := (if isDeferred list then rank list else {}) ++
          ⟨List.replicate (referencesLeft list (declarator.right.countOf "&")) "&"⟩
        dimensions := dimensionsOf list } := by
  unfold referencesLeft dimensionsOf
  cases hdeferred : isDeferred list with
  | true =>
    rw [withDimensions_of_deferred hdeferred, withDimensions_of_deferred hdeferred, h.removeAll]
    dsimp only
    rw [if_pos rfl, if_pos rfl, Qualifiers.remove]
    dsimp only
    rw [List.erase_replicate_self]
  | false =>
    rw [withDimensions_of_fixed hblank hdeferred, withDimensions_of_fixed hblank hdeferred,
      h.removeAll]
    rfl

/-- Behind the names of two declarators that differ in their shape only, a list leaves a difference
only in the number of references. -/
theorem withDimensions_eq_iff {first second : Declarator} (hfirst : HasOnlyMarkers first)
    (hsecond : HasOnlyMarkers second) (hshape : withoutShape second = withoutShape first)
    (hblank : isBlankList list = false) :
    withDimensions list second =
      { withDimensions list first with right := (withDimensions list second).right } ∧
        (withDimensions list second).pointerCount = (withDimensions list first).pointerCount ∧
      (withDimensions list second = withDimensions list first ↔
        referencesLeft list (second.right.countOf "&") =
            referencesLeft list (first.right.countOf "&")) := by
  -- References behind the pointers do not count as pointers.
  have hpointers (count : Nat) (pointers : Qualifiers) :
      (pointers ++ ⟨List.replicate count "&"⟩ : Qualifiers).countOf "*" = pointers.countOf "*" := by
    have hnone : (List.replicate count "&").count "*" = 0 := List.count_eq_zero.mpr fun h => by
      exact absurd (List.eq_of_mem_replicate h) (by decide)
    exact List.count_append.trans (by rw [hnone]; rfl)
  -- Behind the same pointers the number of references is the difference.
  have hreferences {count count' : Nat} {pointers : Qualifiers}
      (h : pointers ++ ⟨List.replicate count "&"⟩ =
        pointers ++ (⟨List.replicate count' "&"⟩ : Qualifiers)) :
      count = count' := by
    have hlists := List.append_cancel_left (congrArg Qualifiers.toList h)
    exact List.length_replicate.symm.trans
      ((congrArg List.length hlists).trans List.length_replicate)
  -- Apart from right qualifiers and dimensions both declarators are one.
  have hsame : { second with right := first.right, dimensions := first.dimensions } = first := by
    cases first
    cases second
    simp only [withoutShape, Declarator.mk.injEq] at hshape ⊢
    tauto
  rw [hfirst.withDimensions_eq hblank, hsecond.withDimensions_eq hblank]
  generalize (if isDeferred list then rank list else {}) = pointers
  generalize first.right.countOf "&" = references
  generalize second.right.countOf "&" = references'
  rw [← hsame]
  refine ⟨rfl, (hpointers _ _).trans (hpointers _ _).symm, fun h => ?_, fun h => by rw [h]⟩
  exact hreferences (congrArg Declarator.right h)

/-- The number of references that attributes with a DIMENSION leave, by the number of those with
INTENT in front of it and behind it. -/
def referencesOf (list : Level) (before behind : Nat) : Nat :=
  if isDeferred list then before - 1 + behind - 1 else before + behind

/-- A list behind the name takes the place of the list of a DIMENSION, where no INTENT stands among
the attributes or that one gives no pointers.  Otherwise a reference is gone, which makes no
difference if it is the only one and the list behind the name gives pointers too. -/
theorem referencesLeft_eq_iff (shared own : Level) (before behind : Nat) :
    referencesLeft own (referencesOf shared before behind) = referencesLeft own (before + behind) ↔
      isDeferred shared = false ∨ before + behind = 0 ∨ isDeferred own = true ∧
        before + behind = 1 := by
  unfold referencesLeft referencesOf
  cases isDeferred shared <;> cases isDeferred own <;> simp <;> omega

/-- Attributes with a DIMENSION, but without another one and without a POINTER, and the same ones
without it. -/
theorem withAttributes_shared_dimension (scope : Scope)
    {before behind : List Attribute} (list : Level)
    (hdimension : ∀ attr ∈ before ++ behind, attr.word? ≠ some "DIMENSION") :
    withoutShape (withAttributes scope (before ++ .dimension list :: behind) {}) =
        withoutShape (withAttributes scope (before ++ behind) {}) ∧
      (withAttributes scope (before ++ .dimension list :: behind) {}).right.countOf "&" =
        referencesOf list (countOf "INTENT" before) (countOf "INTENT" behind) ∧
      (withAttributes scope (before ++ behind) {}).right.countOf "&" =
        countOf "INTENT" before + countOf "INTENT" behind := by
  refine ⟨?_, (hasShape_withAttributes scope list hdimension).references, ?_⟩
  · rw [withoutShape_withAttributes, withoutShape_withAttributes, applyAll_append, applyAll_append,
      applyAll_cons]
    exact withoutShape_applyAll (withoutShape_withDimensions list _)
  · have hempty : HasShape {} [] 0 0 := ⟨rfl, rfl, rfl⟩
    have hshape := (hempty.applyAll scope hdimension).withAttributes
    rw [any_isDeferred hdimension, Nat.zero_add, Nat.zero_add, if_neg Bool.false_ne_true] at hshape
    exact hshape.references.trans (countOf_append _ _ _)

/-- A list behind the name takes the place of the list of a DIMENSION among the attributes.  The
declarator is as without the DIMENSION except for its references, and also in these unless the
DIMENSION gives pointers and has removed the reference of an INTENT. -/
theorem readDeclarator_shared_dimension (scope : Scope) (separators : Separators)
    {before behind : List Level} {shared : Declarator}
    (hothers : ∀ part ∈ before ++ behind, IsPart part ∧ attributeWord? part ≠ some "DIMENSION")
    (haccepted : readAttributes scope ([separators.comma].intercalate (before ++ behind)) {} =
      .ok [] shared)
    {keyword item own : Item} {sharedList ownList : Level}
    (hkeyword : attributeWord? [keyword] = some "DIMENSION")
    (hitem : Level.groupContents? [item] .parenthesis = some sharedList) (entity : Entity)
    (hown : entity.dimensions = some own)
    (hownList : Level.groupContents? [own] .parenthesis = some ownList)
    (hblank : isBlankList ownList = false) {stop : Level} (hstop : stop.NoBracket) :
    let intents := ((before ++ behind).map attributeWord?).count (some "INTENT")
    ∃ first second,
      readDeclarator scope none
        (attributeList separators (before ++ behind) (entity.level ++ stop)) {} =
          .ok stop first ∧
        readDeclarator scope none
            (attributeList separators (before ++ [keyword, item] :: behind)
              (entity.level ++ stop)) {} =
          .ok stop second ∧
        second = { first with right := second.right } ∧ second.pointerCount = first.pointerCount ∧
        (second = first ↔
          isDeferred sharedList = false ∨ intents = 0 ∨ isDeferred ownList = true ∧
              intents = 1) := by
  intro intents
  rw [List.forall_mem_append] at hothers
  have hparts : ∀ part ∈ before ++ behind, IsPart part :=
    List.forall_mem_append.mpr ⟨fun part h => (hothers.1 part h).1, fun part h =>
      (hothers.2 part h).1⟩
  -- The DIMENSION is one more attribute, between those in front of it and those behind it.
  obtain ⟨hdimension, hpart⟩ :
      (Attribute.dimension sharedList).IsWritten scope [keyword, item] ∧ IsPart _ :=
    isWritten_dimensionPart hkeyword hitem
  have hpartsShared : ∀ part ∈ before ++ [keyword, item] :: behind, IsPart part :=
    List.forall_mem_append.mpr ⟨fun part h => (hothers.1 part h).1,
      List.forall_mem_cons.mpr ⟨hpart, fun part h => (hothers.2 part h).1⟩⟩
  obtain ⟨attributes, hall⟩ := exists_isWritten_of_readAttributes hparts haccepted
  obtain ⟨front, back, rfl, hfront, hback⟩ := exists_append_of_isWritten hall
  have hwords : ∀ attr ∈ front ++ back, attr.word? ≠ some "DIMENSION" :=
    word?_ne_of_isWritten hall
      (List.forall_mem_append.mpr ⟨fun part h => (hothers.1 part h).2, fun part h =>
        (hothers.2 part h).2⟩)
  obtain ⟨hshape, hshared, halone⟩ := withAttributes_shared_dimension scope sharedList hwords
  -- The references that are left are counted by the INTENT attributes on either side.
  have hintents : intents = countOf "INTENT" front + countOf "INTENT" back := by
    rw [← countOf_append, countOf, map_word?_of_isWritten hall]
  have hfirst := entity.readDeclarator_attributeList separators hall hparts hstop
  have hsecond :=
    entity.readDeclarator_attributeList separators (List.rel_append hfront (.cons hdimension hback))
    hpartsShared hstop
  refine ⟨_, _, hfirst, hsecond, ?_⟩
  rw [hintents, ← referencesLeft_eq_iff, ← hshared, ← halone]
  rw [entity.declarator_of_some hown hownList, entity.declarator_of_some hown hownList,
    withAttributesOf_withAttributes, withAttributesOf_withAttributes]
  -- Attributes leave pointers and references only.
  have hmarkers (attributes : List Attribute) :
      HasOnlyMarkers { withAttributes scope attributes {} with name := some entity.name.value } :=
    hasOnlyMarkers_withAttributes scope attributes
  refine withDimensions_eq_iff (hmarkers _) (hmarkers _) ?_ hblank
  exact congrArg (fun declarator : Declarator =>
    { declarator with name := some entity.name.value }) hshape

/-- In `REAL, INTENT(OUT), DIMENSION(:,:), VOLATILE :: a(5)` the reference of the INTENT is gone. -/
theorem readDeclarator_shared_dimension_deferred :
    let before := [[.token "REAL" .typeName], listPart "INTENT" (.token "OUT" .unresolved)]
    let behind := [wordPart "VOLATILE"]
    let item := Item.group "(" {} [.token ":" {}, .token "," {}, .token ":" {}]
    let own := Item.group "(" {} [.token "5" {}]
    let entity := (Entity.ofName "a" (by decide) (by decide +kernel)).withList own rfl
    ∃ first second,
      readDeclarator (Scope.ofSettings {}) none
        (attributeList {} (before ++ behind) (entity.level ++ [])) {} =
          .ok [] first ∧
        readDeclarator (Scope.ofSettings {}) none
            (attributeList {} (before ++ [.token "DIMENSION" .unresolved, item] :: behind)
              (entity.level ++ [])) {} =
          .ok [] second ∧
        second = { first with right := second.right } ∧ second.pointerCount = first.pointerCount ∧
        second ≠ first := by
  intro before behind item own entity
  have hothers : ∀ part ∈ before ++ behind,
      IsPart part ∧ attributeWord? part ≠ some "DIMENSION" := by
    simp only [before, behind, List.cons_append, List.nil_append, List.forall_mem_cons]
    exact ⟨⟨⟨by simp, by decide⟩, by decide +kernel⟩,
      ⟨⟨by simp [listPart], by decide⟩, by decide +kernel⟩,
      ⟨⟨by simp [wordPart], by decide⟩, by decide +kernel⟩, List.forall_mem_nil _⟩
  have haccepted :
      readAttributes (Scope.ofSettings {}) ([.token "," {}].intercalate (before ++ behind)) {} =
      .ok [] { left := ⟨["INTENTOUT", "volatile"]⟩, right := ⟨["&"]⟩,
               base := (Scope.ofSettings {}).lookup "float" } := by
    cbv
  obtain ⟨first, second, hfirst, hsecond, hrest, hpointers, heq⟩ :=
    readDeclarator_shared_dimension (Scope.ofSettings {}) {} hothers haccepted
      (show attributeWord? [.token "DIMENSION" .unresolved] = some "DIMENSION" by decide +kernel)
      (show Level.groupContents? [item] .parenthesis = some [.token ":" {}, .token "," {},
        .token ":" {}] from rfl)
      entity (show entity.dimensions = some own from rfl)
      (show Level.groupContents? [own] .parenthesis = some [.token "5" {}] from rfl)
        (by decide +kernel)
      (show Level.NoBracket [] by simp [Level.NoBracket])
  refine ⟨first, second, hfirst, hsecond, hrest, hpointers, fun h => ?_⟩
  exact absurd (heq.mp h) (by decide +kernel)

/-- `REAL, INTENT(IN), DIMENSION(:) :: a(10)` has no reference, and `REAL, INTENT(IN) :: a(10)` has
one. -/
theorem not_shared_dimension_replaced :
    let own := Item.group "(" {} [.token "10" {}]
    let entity := (Entity.ofName "a" (by decide) (by decide +kernel)).withList own rfl
    let parts := [[.token "REAL" .typeName], listPart "INTENT" (.token "IN" .unresolved)]
    ((fun trees => (Node.ofTrees trees).items) <$> TokenTree.ofSource .fortran (Scope.ofSettings {})
        "REAL, INTENT(IN), DIMENSION(:) :: a(10)" = .ok (attributeList {}
          (parts ++ [listPart "DIMENSION" (.token ":" {})]) entity.level)) ∧
      ((fun trees => (Node.ofTrees trees).items) <$> TokenTree.ofSource .fortran
        (Scope.ofSettings {})
        "REAL, INTENT(IN) :: a(10)" = .ok (attributeList {} parts entity.level)) ∧
      ∃ first second,
        readDeclarator (Scope.ofSettings {}) none (attributeList {} parts entity.level) {} =
          .ok [] first ∧
          readDeclarator (Scope.ofSettings {}) none
            (attributeList {} (parts ++ [listPart "DIMENSION" (.token ":" {})]) entity.level) {} =
              .ok [] second ∧
          first.right = ⟨["&"]⟩ ∧ second.right = {} := by
  intro own entity parts
  have hshared :
      TokenTree.ofSource .fortran (Scope.ofSettings {}) "REAL, INTENT(IN), DIMENSION(:) :: a(10)" =
      .ok [.leaf ⟨"REAL", .typeName⟩, .leaf ⟨",", .operator⟩, .leaf ⟨"INTENT", .unresolved⟩,
        .group .parenthesis [.leaf ⟨"IN", .unresolved⟩], .leaf ⟨",", .operator⟩,
        .leaf ⟨"DIMENSION", .unresolved⟩,
        .group .parenthesis [.leaf ⟨":", .operator⟩], .leaf ⟨"::", .operator⟩,
        .leaf ⟨"a", .unresolved⟩,
        .group .parenthesis [.leaf ⟨"10", .constant⟩]] := by
    decide +kernel
  have halone : TokenTree.ofSource .fortran (Scope.ofSettings {}) "REAL, INTENT(IN) :: a(10)" =
      .ok [.leaf ⟨"REAL", .typeName⟩, .leaf ⟨",", .operator⟩, .leaf ⟨"INTENT", .unresolved⟩,
        .group .parenthesis [.leaf ⟨"IN", .unresolved⟩], .leaf ⟨"::", .operator⟩,
        .leaf ⟨"a", .unresolved⟩,
        .group .parenthesis [.leaf ⟨"10", .constant⟩]] := by
    decide +kernel
  refine ⟨by rw [hshared]; rfl, by rw [halone]; rfl, ?_⟩
  refine ⟨
    { left := ⟨["const", "INTENTIN"]⟩, right := ⟨["&"]⟩,
      base := (Scope.ofSettings {}).lookup "float", name := some "a", dimensions := ["10"] },
    { left := ⟨["const", "INTENTIN"]⟩, base := (Scope.ofSettings {}).lookup "float",
      name := some "a", dimensions := ["10"] }, by cbv, by cbv, rfl, rfl⟩

end Fortran

end CommonDecl

import CommonDecl.Proofs.Attributes

/-!
# The order of attributes

In a list of attributes an INTENT and a DIMENSION next to each other can change places
(`readAttributes_intent_dimension`): the pointers of a deferred DIMENSION take the place of the
reference of an INTENT, whichever of them comes first.  They also take the place of the pointers of
each POINTER, but only of those in front of the DIMENSION, so a POINTER and a DIMENSION cannot
change places (`readAttributes_pointer_dimension`).
-/

namespace CommonDecl

/-! ### Qualifiers -/

namespace Qualifiers

variable {qualifiers : Qualifiers} {name : String}

/-- A qualifier that was put in front is the first one to be removed. -/
theorem remove_pushFront (qualifiers : Qualifiers) (name : String) :
    (qualifiers.pushFront name).remove name = qualifiers :=
  congrArg mk (List.erase_cons_head _ _)

theorem remove_of_not_mem (h : name ∉ qualifiers.toList) : qualifiers.remove name = qualifiers :=
  congrArg mk (List.erase_of_not_mem h)

end Qualifiers

namespace Fortran

variable {scope : Scope} {attr : Attribute} {attributes : List Attribute}
  {declarator first second : Declarator} {list : Level} {separators : Separators}

/-! ### Words -/

namespace Attribute

/-- Only an INTENT starts with the word INTENT. -/
theorem eq_intent_of_word? (h : attr.word? = some "INTENT") : ∃ word, attr = intent word := by
  cases attr with
  | intent word => exact ⟨word, rfl⟩
  | mark word => cases word <;> exact absurd h (by decide)
  | _ => exact absurd h (by simp [word?])

/-- Only a DIMENSION starts with the word DIMENSION. -/
theorem eq_dimension_of_word? (h : attr.word? = some "DIMENSION") :
    ∃ list, attr = dimension list := by
  cases attr with
  | dimension list => exact ⟨list, rfl⟩
  | mark word => cases word <;> exact absurd h (by decide)
  | _ => exact absurd h (by simp [word?])

theorem eq_pointer_of_word? (h : attr.word? = some "POINTER") : attr = pointer := by
  cases attr with
  | pointer => rfl
  | mark word => cases word <;> exact absurd h (by decide)
  | _ => exact absurd h (by simp [word?])

end Attribute

/-- Attributes have their effects one after the other. -/
theorem applyAll_append (before behind : List Attribute) (declarator : Declarator) :
    applyAll scope (before ++ behind) declarator =
      applyAll scope behind (applyAll scope before declarator) :=
  List.foldl_append

theorem applyAll_cons (attr : Attribute) (attributes : List Attribute) (declarator : Declarator) :
    applyAll scope (attr :: attributes) declarator =
      applyAll scope attributes (attr.apply scope declarator) :=
  rfl

/-! ### Dimensions -/

/-- The pointers of a list, one for each entry. -/
def rank (list : Level) : Qualifiers :=
  ⟨List.replicate (entries list).length "*"⟩

theorem not_mem_rank (list : Level) : "&" ∉ (rank list).toList := by
  simp [rank]

/-- A reference is removed from behind a rank of pointers. -/
theorem remove_rank_append (list : Level) (right : Qualifiers) :
    (rank list ++ right).remove "&" = rank list ++ right.remove "&" :=
  congrArg Qualifiers.mk (List.erase_append_right _ (not_mem_rank list))

/-- A list with deferred entries has entries. -/
theorem isBlankList_of_deferred (h : isDeferred list = true) : isBlankList list = false := by
  rw [isDeferred, List.any_eq_true] at h
  obtain ⟨entry, hentry, hcolon⟩ := h
  rw [isBlankList, List.all_eq_false]
  exact ⟨entry, hentry, by rw [eq_of_beq hcolon]; exact Bool.false_ne_true⟩

theorem withDimensions_of_blank (h : isBlankList list = true) :
    withDimensions list declarator = declarator :=
  if_pos h

/-- A deferred list gives one pointer for each entry and takes away a reference and the other
pointers. -/
theorem withDimensions_of_deferred (h : isDeferred list = true) :
    withDimensions list declarator =
      { declarator with
        right := rank list ++ (declarator.right.removeAll "*").remove "&"
        dimensions := [] } := by
  rw [withDimensions, if_neg (Bool.eq_false_iff.mp (isBlankList_of_deferred h))]
  dsimp only
  rw [if_pos h, ← remove_rank_append]
  rfl

/-- A list of bounds gives dimensions and takes away the pointers. -/
theorem withDimensions_of_fixed (hblank : isBlankList list = false) (h : isDeferred list = false) :
    withDimensions list declarator =
      { declarator with
        right := declarator.right.removeAll "*"
        dimensions := (entries list).map Text.joinTokens } := by
  rw [withDimensions, if_neg (Bool.eq_false_iff.mp hblank)]
  dsimp only
  rw [if_neg (Bool.eq_false_iff.mp h)]

/-- A list is blank, or it gives a rank of pointers, or fixed dimensions. -/
theorem blank_or_deferred_or_fixed (list : Level) :
    isBlankList list = true ∨ isDeferred list = true ∨ isBlankList list = false ∧
      isDeferred list = false := by
  cases isBlankList list <;> cases isDeferred list <;> simp

/-- A list without entries has no deferred ones. -/
theorem isDeferred_of_blank {list : Level} (h : isBlankList list = true) :
    isDeferred list = false := by
  refine Bool.eq_false_iff.mpr fun hdeferred => ?_
  rw [isBlankList_of_deferred hdeferred] at h
  cases h

/-! ### Intents and dimensions -/

/-- The declarator has no qualifiers but pointers. -/
def HasOnlyPointers (declarator : Declarator) : Prop :=
  ∀ text ∈ declarator.right.toList, text = "*"

/-- Nothing is left of pointers when they are removed. -/
theorem HasOnlyPointers.removeAll (h : HasOnlyPointers declarator) :
    declarator.right.removeAll "*" = {} :=
  congrArg Qualifiers.mk <| List.filter_eq_nil_iff.mpr fun text htext =>
    by rw [h text htext]; decide

/-- Without an INTENT there are only pointers. -/
theorem HasOnlyPointers.apply (h : HasOnlyPointers declarator)
    (hword : attr.word? ≠ some "INTENT") :
    HasOnlyPointers (attr.apply scope declarator) := by
  -- Along the attributes: a POINTER adds a pointer, and a DIMENSION can only exchange them.
  cases attr with
  | type name => exact h
  | pointer => exact List.forall_mem_append.mpr ⟨h, List.forall_mem_singleton.mpr rfl⟩
  | parameter => exact h
  | mark word => exact h
  | intent word => exact absurd rfl hword
  | dimension list =>
    rw [Attribute.apply]
    rcases blank_or_deferred_or_fixed list with hblank | hdeferred | ⟨hblank, hdeferred⟩
    · rwa [withDimensions_of_blank hblank]
    · rw [withDimensions_of_deferred hdeferred, h.removeAll]
      exact List.forall_mem_append.mpr ⟨fun _ => List.eq_of_mem_replicate, List.forall_mem_nil _⟩
    · rw [withDimensions_of_fixed hblank hdeferred, h.removeAll]
      exact List.forall_mem_nil _

/-- Without an INTENT there are only pointers, however many attributes there are. -/
theorem HasOnlyPointers.applyAll (h : HasOnlyPointers declarator)
    (hwords : ∀ attr ∈ attributes, attr.word? ≠ some "INTENT") :
    HasOnlyPointers (applyAll scope attributes declarator) := by
  induction attributes generalizing declarator with
  | nil => exact h
  | cons attr attributes ih =>
    rw [List.forall_mem_cons] at hwords
    exact ih (h.apply hwords.1) hwords.2

/-- The second declarator is the first one with a reference in front, where that has none. -/
structure HasReference (first second : Declarator) : Prop where
  not_mem : "&" ∉ first.right.toList
  eq : second = { first with right := first.right.pushFront "&" }

/-- Taking a reference away makes the two declarators equal. -/
theorem HasReference.remove (h : HasReference first second) :
    { second with right := second.right.remove "&" } =
      { first with right := first.right.remove "&" } := by
  obtain ⟨hnone, rfl⟩ := h
  dsimp only
  rw [Qualifiers.remove_pushFront, Qualifiers.remove_of_not_mem hnone]

/-- Of an INTENT and a DIMENSION, what comes second finds at most a reference more or less. -/
theorem withDimensions_withIntent (h : HasOnlyPointers declarator) (word : String) (list : Level) :
    withDimensions list (withIntent word declarator) =
      withIntent word (withDimensions list declarator) ∨ isDeferred list = true ∧
        HasReference (withDimensions list (withIntent word declarator))
          (withIntent word (withDimensions list declarator)) := by
  have hreference : (withIntent word declarator).right.removeAll "*" =
      Qualifiers.pushFront {} "&" :=
    congrArg (fun right : Qualifiers => right.pushFront "&") h.removeAll
  rcases blank_or_deferred_or_fixed list with hblank | hdeferred | ⟨hblank, hdeferred⟩
  · rw [withDimensions_of_blank hblank, withDimensions_of_blank hblank]
    exact .inl rfl
  · rw [withDimensions_of_deferred hdeferred, withDimensions_of_deferred hdeferred, hreference,
      h.removeAll, Qualifiers.remove_pushFront]
    exact .inr ⟨hdeferred, fun h =>
      (List.mem_append.mp h).elim (not_mem_rank list) List.not_mem_nil, rfl⟩
  · rw [withDimensions_of_fixed hblank hdeferred, withDimensions_of_fixed hblank hdeferred,
      hreference, h.removeAll]
    exact .inl rfl

/-- Without another INTENT the declarators stay the same but for the reference, or become equal. -/
theorem HasReference.apply (scope : Scope) (h : HasReference first second)
    (hword : attr.word? ≠ some "INTENT") :
    attr.apply scope first = attr.apply scope second ∨
      HasReference (attr.apply scope first) (attr.apply scope second) := by
  obtain ⟨hnone, rfl⟩ := h
  cases attr with
  | type name => exact .inr ⟨hnone, rfl⟩
  | pointer => exact .inr ⟨by simpa [Attribute.apply, Qualifiers.add] using hnone, rfl⟩
  | parameter => exact .inr ⟨hnone, rfl⟩
  | mark word => exact .inr ⟨hnone, rfl⟩
  | intent word => exact absurd rfl hword
  -- A deferred list takes the reference away and makes the declarators equal; no other list touches
  -- it.
  | dimension list =>
    have hrest : "&" ∉ (first.right.removeAll "*").toList :=
      fun h => hnone (List.mem_of_mem_filter h)
    have hreference : (first.right.pushFront "&").removeAll "*" =
      (first.right.removeAll "*").pushFront "&" := rfl
    rw [Attribute.apply, Attribute.apply]
    rcases blank_or_deferred_or_fixed list with hblank | hdeferred | ⟨hblank, hdeferred⟩
    · rw [withDimensions_of_blank hblank, withDimensions_of_blank hblank]
      exact .inr ⟨hnone, rfl⟩
    · rw [withDimensions_of_deferred hdeferred, withDimensions_of_deferred hdeferred, hreference,
        Qualifiers.remove_pushFront, Qualifiers.remove_of_not_mem hrest]
      exact .inl rfl
    · rw [withDimensions_of_fixed hblank hdeferred, withDimensions_of_fixed hblank hdeferred]
      exact .inr ⟨hrest, rfl⟩

/-- Once the declarators are equal, the further attributes keep them equal. -/
theorem HasReference.applyAll (scope : Scope) (h : HasReference first second)
    (hwords : ∀ attr ∈ attributes, attr.word? ≠ some "INTENT") :
    applyAll scope attributes first = applyAll scope attributes second ∨
      HasReference (applyAll scope attributes first) (applyAll scope attributes second) := by
  induction attributes generalizing first second with
  | nil => exact .inr h
  | cons attr attributes ih =>
    rw [List.forall_mem_cons] at hwords
    rw [applyAll_cons, applyAll_cons]
    rcases h.apply scope hwords.1 with heq | hnext
    · rw [heq]
      exact .inl rfl
    · exact ih hnext hwords.2

/-- An INTENT and a DIMENSION next to each other can change places. -/
theorem withAttributes_intent_dimension (scope : Scope) {before behind : List Attribute}
    (word : String) (list : Level) (hbefore : ∀ attr ∈ before, attr.word? ≠ some "INTENT")
    (hbehind : ∀ attr ∈ behind, attr.word? ≠ some "INTENT") :
    withAttributes scope (before ++ .intent word :: .dimension list :: behind) {} =
      withAttributes scope (before ++ .dimension list :: .intent word :: behind) {} := by
  have hstart : HasOnlyPointers (applyAll scope before {}) :=
    HasOnlyPointers.applyAll (List.forall_mem_nil _) hbefore
  have hdeferred : (before ++ .intent word :: .dimension list :: behind).any Attribute.isDeferred =
      (before ++ .dimension list :: .intent word :: behind).any Attribute.isDeferred := by
    simp [Attribute.isDeferred]
  unfold withAttributes
  rw [hdeferred, applyAll_append, applyAll_append]
  generalize applyAll scope before {} = declarator at hstart
  simp only [applyAll_cons, Attribute.apply]
  -- What stands in front of the two decides nothing: no INTENT is among it, so there are only
  -- pointers.
  rcases withDimensions_withIntent hstart word list with heq | ⟨hlist, hreference⟩
  · rw [heq]
  · rcases hreference.applyAll scope hbehind with heq | hreference
    · rw [heq]
    -- The reference that is left at the end is taken away, as one of the lists is deferred.
    · have hany : (before ++ .dimension list :: .intent word :: behind).any Attribute.isDeferred =
          true := by
        simp [Attribute.isDeferred, hlist]
      rw [if_pos hany, if_pos hany]
      exact hreference.remove.symm

/-! ### Lists of attributes -/

/-- In a list of attributes one part is the attribute at its place. -/
theorem exists_isWritten_of_append {parts rest : List Level} {part : Level}
    (h : List.Forall₂ (Attribute.IsWritten scope) attributes (parts ++ part :: rest)) :
    ∃ (front : List Attribute) (attr : Attribute) (back : List Attribute),
      attributes = front ++ attr :: back ∧ List.Forall₂ (Attribute.IsWritten scope) front parts ∧
        attr.IsWritten scope part ∧
      List.Forall₂ (Attribute.IsWritten scope) back rest := by
  obtain ⟨attr, back, hattr, hback, heq⟩ :=
    List.forall₂_cons_right_iff.mp (List.forall₂_drop_append attributes parts (part :: rest) h)
  exact ⟨_, attr, back, by rw [← heq, List.take_append_drop],
    List.forall₂_take_append attributes parts (part :: rest) h, hattr, hback⟩

/-- Attributes are written with their words in front. -/
theorem map_word?_of_isWritten {parts : List Level}
    (h : List.Forall₂ (Attribute.IsWritten scope) attributes parts) :
    attributes.map Attribute.word? = parts.map attributeWord? := by
  induction h with
  | nil => rfl
  | cons hattr _ ih => rw [List.map_cons, List.map_cons, hattr.word, ih]

/-- No attribute starts with a word that none of the parts has. -/
theorem word?_ne_of_isWritten {parts : List Level} {word : String}
    (h : List.Forall₂ (Attribute.IsWritten scope) attributes parts)
    (hparts : ∀ part ∈ parts, attributeWord? part ≠ some word) :
    ∀ attr ∈ attributes, attr.word? ≠ some word := by
  intro attr hattr hword
  have hmem : some word ∈ parts.map attributeWord? :=
    map_word?_of_isWritten h ▸ List.mem_map.mpr ⟨attr, hattr, hword⟩
  obtain ⟨part, hpart, hword⟩ := List.mem_map.mp hmem
  exact hparts part hpart hword

/-- A list in which two parts stand next to each other is read where these and the others are
attributes. -/
theorem readAttributes_pair_iff {before behind : List Level} {one other : Level}
    (hparts : ∀ part ∈ before ++ one :: other :: behind, IsPart part) {rest : Level} :
    readAttributes scope (attributeList separators (before ++ one :: other :: behind) rest) {} =
        .ok rest declarator ↔
      ∃ (front : List Attribute) (first second : Attribute) (back : List Attribute),
        List.Forall₂ (Attribute.IsWritten scope) front before ∧ first.IsWritten scope one ∧
        second.IsWritten scope other ∧ List.Forall₂ (Attribute.IsWritten scope) back behind ∧
        declarator = withAttributes scope (front ++ first :: second :: back) {} := by
  rw [readAttributes_attributeList_iff hparts]
  constructor
  · rintro ⟨attributes, hall, rfl⟩
    obtain ⟨front, first, _, rfl, hfront, hfirst, hrest⟩ := exists_isWritten_of_append hall
    obtain ⟨second, back, hsecond, hback, rfl⟩ := List.forall₂_cons_right_iff.mp hrest
    exact ⟨front, first, second, back, hfront, hfirst, hsecond, hback, rfl⟩
  · rintro ⟨front, first, second, back, hfront, hfirst, hsecond, hback, rfl⟩
    exact ⟨_, List.rel_append hfront (.cons hfirst (.cons hsecond hback)), rfl⟩

/-- An INTENT and a DIMENSION next to each other can change places, where no other INTENT is in the
list. -/
theorem readAttributes_intent_dimension {before behind : List Level} {intent dimension : Level}
    (hothers : ∀ part ∈ before ++ behind, IsPart part ∧ attributeWord? part ≠ some "INTENT")
    (hintent : IsPart intent ∧ attributeWord? intent = some "INTENT")
    (hdimension : IsPart dimension ∧ attributeWord? dimension = some "DIMENSION") (rest : Level)
    (declarator : Declarator) :
    readAttributes scope (attributeList separators (before ++ intent :: dimension :: behind) rest)
      {} =
        .ok rest declarator ↔
      readAttributes scope (attributeList separators (before ++ dimension :: intent :: behind) rest)
        {} =
        .ok rest declarator := by
  have hparts : (∀ part ∈ before ++ intent :: dimension :: behind, IsPart part) ∧
      ∀ part ∈ before ++ dimension :: intent :: behind, IsPart part := by
    simp only [List.forall_mem_append, List.forall_mem_cons] at hothers ⊢
    exact ⟨⟨fun part h => (hothers.1 part h).1, hintent.1, hdimension.1, fun part h =>
      (hothers.2 part h).1⟩, fun part h => (hothers.1 part h).1, hdimension.1, hintent.1,
        fun part h => (hothers.2 part h).1⟩
  -- Both lists are made of the same attributes, in two orders with the same effect.
  have hexchange {front back : List Attribute}
    (hfront : List.Forall₂ (Attribute.IsWritten scope) front before)
      (hback : List.Forall₂ (Attribute.IsWritten scope) back behind) (word : String)
          (list : Level) :=
    withAttributes_intent_dimension scope word list
      (word?_ne_of_isWritten hfront fun part hpart =>
        (hothers part (List.mem_append_left _ hpart)).2)
      (word?_ne_of_isWritten hback fun part hpart =>
        (hothers part (List.mem_append_right _ hpart)).2)
  rw [readAttributes_pair_iff hparts.1, readAttributes_pair_iff hparts.2]
  constructor
  -- The word of a part decides which attribute it is.
  · rintro ⟨front, first, second, back, hfront, hfirst, hsecond, hback, rfl⟩
    obtain ⟨word, rfl⟩ := Attribute.eq_intent_of_word? (hfirst.word.trans hintent.2)
    obtain ⟨list, rfl⟩ := Attribute.eq_dimension_of_word? (hsecond.word.trans hdimension.2)
    exact ⟨front, _, _, back, hfront, hsecond, hfirst, hback, hexchange hfront hback word list⟩
  · rintro ⟨front, first, second, back, hfront, hfirst, hsecond, hback, rfl⟩
    obtain ⟨list, rfl⟩ := Attribute.eq_dimension_of_word? (hfirst.word.trans hdimension.2)
    obtain ⟨word, rfl⟩ := Attribute.eq_intent_of_word? (hsecond.word.trans hintent.2)
    exact ⟨front, _, _, back, hfront, hsecond, hfirst, hback,
      (hexchange hfront hback word list).symm⟩

/-- The part that is a word. -/
def wordPart (word : String) : Level :=
  [.token word .unresolved]

/-- The part that is a word with a list of one item behind it. -/
def listPart (word : String) (entry : Item) : Level :=
  [.token word .unresolved, .group "(" {} [entry]]

/-- `REAL, POINTER, INTENT(IN), DIMENSION(:), DIMENSION(10) :: x`, up to the `x`, is read as with
the INTENT behind the DIMENSION. -/
theorem readAttributes_intent_dimension_fixed :
    let intent := listPart "INTENT" (.token "IN" .unresolved)
    let dimension := listPart "DIMENSION" (.token ":" {})
    let before := [[.token "REAL" .typeName], wordPart "POINTER"]
    let behind := [listPart "DIMENSION" (.token "10" {})]
    ((fun trees => (Node.ofTrees trees).items) <$> TokenTree.ofSource .fortran (Scope.ofSettings {})
        "REAL, POINTER, INTENT(IN), DIMENSION(:), DIMENSION(10) :: x" =
          .ok (attributeList {} (before ++ intent :: dimension :: behind) (wordPart "x"))) ∧
      ∃ declarator,
        readAttributes (Scope.ofSettings {})
            (attributeList {} (before ++ intent :: dimension :: behind) (wordPart "x")) {} =
              .ok (wordPart "x") declarator ∧
          readAttributes (Scope.ofSettings {})
            (attributeList {} (before ++ dimension :: intent :: behind) (wordPart "x")) {} =
              .ok (wordPart "x") declarator := by
  intro intent dimension before behind
  have htrees : TokenTree.ofSource .fortran (Scope.ofSettings {})
      "REAL, POINTER, INTENT(IN), DIMENSION(:), DIMENSION(10) :: x" =
        .ok [.leaf ⟨"REAL", .typeName⟩, .leaf ⟨",", .operator⟩,
          .leaf ⟨"POINTER", .unresolved⟩, .leaf ⟨",", .operator⟩,
          .leaf ⟨"INTENT", .unresolved⟩, .group .parenthesis [.leaf ⟨"IN", .unresolved⟩],
          .leaf ⟨",", .operator⟩,
          .leaf ⟨"DIMENSION", .unresolved⟩, .group .parenthesis [.leaf ⟨":", .operator⟩],
          .leaf ⟨",", .operator⟩,
          .leaf ⟨"DIMENSION", .unresolved⟩, .group .parenthesis [.leaf ⟨"10", .constant⟩],
          .leaf ⟨"::", .operator⟩, .leaf ⟨"x", .unresolved⟩] := by
    decide +kernel
  have hothers : ∀ part ∈ before ++ behind, IsPart part ∧ attributeWord? part ≠ some "INTENT" := by
    simp only [before, behind, List.cons_append, List.nil_append, List.forall_mem_cons]
    exact ⟨⟨⟨by simp, by decide⟩, by decide +kernel⟩,
      ⟨⟨by simp [wordPart], by decide⟩, by decide +kernel⟩,
      ⟨⟨by simp [listPart], by decide⟩, by decide +kernel⟩, List.forall_mem_nil _⟩
  have hread : readAttributes (Scope.ofSettings {})
      (attributeList {} (before ++ intent :: dimension :: behind) (wordPart "x")) {} =
        .ok (wordPart "x")
          { left := ⟨["const", "INTENTIN"]⟩
            base := (Scope.ofSettings {}).lookup "float"
            dimensions := ["10"] } := by
    cbv
  refine ⟨by rw [htrees]; rfl, _, hread, ?_⟩
  exact (readAttributes_intent_dimension hothers ⟨⟨by simp [intent, listPart], by decide⟩,
    by decide +kernel⟩
    ⟨⟨by simp [dimension, listPart], by decide⟩, by decide +kernel⟩ (wordPart "x") _).mp hread

/-! ### Pointers and dimensions -/

/-- The declarator without its right qualifiers and its dimensions, which are all that a POINTER and
a DIMENSION change. -/
def withoutShape (declarator : Declarator) : Declarator :=
  { declarator with right := {}, dimensions := [] }

/-- A DIMENSION changes only the shape of a declarator. -/
theorem withoutShape_withDimensions (list : Level) (declarator : Declarator) :
    withoutShape (withDimensions list declarator) = withoutShape declarator := by
  rcases blank_or_deferred_or_fixed list with hblank | hdeferred | ⟨hblank, hdeferred⟩
  · rw [withDimensions_of_blank hblank]
  · rw [withDimensions_of_deferred hdeferred]
    rfl
  · rw [withDimensions_of_fixed hblank hdeferred]
    rfl

/-- No attribute asks for the shape to change anything else. -/
theorem withoutShape_apply (scope : Scope) (attr : Attribute) (declarator : Declarator) :
    withoutShape (attr.apply scope declarator) =
      withoutShape (attr.apply scope (withoutShape declarator)) := by
  cases attr with
  | dimension list =>
    rw [Attribute.apply, Attribute.apply, withoutShape_withDimensions, withoutShape_withDimensions]
    rfl
  | _ => rfl

/-- What an attribute does to the rest of a declarator depends on the rest only. -/
theorem withoutShape_applyAll (h : withoutShape first = withoutShape second) :
    withoutShape (applyAll scope attributes first) =
      withoutShape (applyAll scope attributes second) := by
  induction attributes generalizing first second with
  | nil => exact h
  | cons attr attributes ih =>
    refine ih ?_
    rw [withoutShape_apply, h, ← withoutShape_apply]

/-- How often a word stands in front of the attributes. -/
def countOf (word : String) (attributes : List Attribute) : Nat :=
  (attributes.map Attribute.word?).count (some word)

/-- Words are counted over both parts of a list. -/
theorem countOf_append (word : String) (first second : List Attribute) :
    countOf word (first ++ second) = countOf word first + countOf word second := by
  rw [countOf, List.map_append, List.count_append, countOf, countOf]

/-- The dimensions of a declarator, and how many pointers and references it has. -/
structure HasShape (declarator : Declarator) (dimensions : List String)
    (pointers references : Nat) : Prop where
  dimensions : declarator.dimensions = dimensions
  pointers : declarator.pointerCount = pointers
  references : declarator.right.countOf "&" = references

variable {dimensions : List String} {pointers references : Nat}

/-- Only a DIMENSION changes the dimensions, a POINTER gives a pointer more, and an INTENT a
reference. -/
theorem HasShape.apply (h : HasShape declarator dimensions pointers references)
    (hword : attr.word? ≠ some "DIMENSION") :
    HasShape (attr.apply scope declarator) dimensions (pointers + countOf "POINTER" [attr])
      (references + countOf "INTENT" [attr]) := by
  obtain ⟨rfl, rfl, rfl⟩ := h
  cases attr with
  | pointer => exact ⟨rfl, List.count_append, List.count_append⟩
  | intent word =>
    have hpointers : ("&" :: declarator.right.toList).count "*" =
        declarator.right.toList.count "*" :=
      List.count_cons_of_ne (by decide)
    exact ⟨rfl, hpointers, List.count_cons_self⟩
  | dimension list => exact absurd rfl hword
  | mark word => cases word <;> exact ⟨rfl, rfl, rfl⟩
  | _ => exact ⟨rfl, rfl, rfl⟩

/-- Without a DIMENSION, each POINTER adds a pointer and each INTENT a reference. -/
theorem HasShape.applyAll (scope : Scope) (h : HasShape declarator dimensions pointers references)
    (hwords : ∀ attr ∈ attributes, attr.word? ≠ some "DIMENSION") :
    HasShape (applyAll scope attributes declarator) dimensions
      (pointers + countOf "POINTER" attributes)
      (references + countOf "INTENT" attributes) := by
  induction attributes generalizing declarator pointers references with
  | nil => exact h
  | cons attr attributes ih =>
    rw [List.forall_mem_cons] at hwords
    rw [← List.singleton_append, countOf_append, countOf_append, ← Nat.add_assoc, ← Nat.add_assoc]
    exact ih (h.apply hwords.1) hwords.2

/-- The dimensions that a list gives to a declarator without any. -/
def dimensionsOf (list : Level) : List String :=
  (withDimensions list {}).dimensions

/-- When the pointers are removed, the references stay. -/
theorem countOf_removeAll (right : Qualifiers) :
    (right.removeAll "*").countOf "*" = 0 ∧ (right.removeAll "*").countOf "&" =
      right.countOf "&" := by
  refine ⟨List.count_eq_zero.mpr fun h => ?_, List.count_filter (by decide)⟩
  exact absurd (List.mem_filter.mp h).2 (by decide)

/-- The pointers of a list are added to those that are there. -/
theorem countOf_rank_append (list : Level) (right : Qualifiers) :
    (rank list ++ right).countOf "*" = (entries list).length + right.countOf "*" ∧
      (rank list ++ right).countOf "&" = right.countOf "&" := by
  have happend (name : String) :
      (rank list ++ right).countOf name = (rank list).countOf name + right.countOf name :=
    List.count_append
  have hstars : (rank list).countOf "*" = (entries list).length := List.count_replicate_self
  have hnone : (rank list).countOf "&" = 0 := List.count_eq_zero.mpr (not_mem_rank list)
  rw [happend, happend, hstars, hnone, Nat.zero_add]
  exact ⟨rfl, rfl⟩

/-- At most one reference is removed, and no pointer. -/
theorem countOf_remove (right : Qualifiers) :
    (right.remove "&").countOf "*" = right.countOf "*" ∧ (right.remove "&").countOf "&" =
      right.countOf "&" - 1 :=
  ⟨List.count_erase_of_ne (by decide), List.count_erase_self⟩

/-- The pointers of a list take the place of those before, and of one reference. -/
theorem HasShape.withDimensions (h : HasShape declarator [] pointers references) (list : Level) :
    HasShape (withDimensions list declarator) (dimensionsOf list)
      (if isBlankList list then pointers else if isDeferred list then (entries list).length else 0)
      (if isDeferred list then references - 1 else references) := by
  obtain ⟨hdimensions, rfl, rfl⟩ := h
  have hremoved := countOf_removeAll declarator.right
  -- A list without entries, a deferred one and one of bounds each have their own effect.
  rcases blank_or_deferred_or_fixed list with hblank | hdeferred | ⟨hblank, hdeferred⟩
  · rw [dimensionsOf, withDimensions_of_blank hblank, withDimensions_of_blank hblank, hblank,
      isDeferred_of_blank hblank]
    exact ⟨hdimensions, rfl, rfl⟩
  · rw [dimensionsOf, withDimensions_of_deferred hdeferred, withDimensions_of_deferred hdeferred,
      hdeferred, isBlankList_of_deferred hdeferred]
    refine ⟨rfl, ?_, ?_⟩
    · exact (countOf_rank_append list _).1.trans (by rw [(countOf_remove _).1, hremoved.1]; rfl)
    · exact (countOf_rank_append list _).2.trans (by rw [(countOf_remove _).2, hremoved.2]; rfl)
  · rw [dimensionsOf, withDimensions_of_fixed hblank hdeferred,
      withDimensions_of_fixed hblank hdeferred, hblank, hdeferred]
    exact ⟨rfl, hremoved.1, hremoved.2⟩

/-- Where a list gives a rank of pointers, one reference is removed at the end. -/
theorem HasShape.withAttributes
    (h : HasShape (Fortran.applyAll scope attributes {}) dimensions pointers references) :
    HasShape (withAttributes scope attributes {}) dimensions pointers
      (if attributes.any Attribute.isDeferred then references - 1 else references) := by
  obtain ⟨rfl, rfl, rfl⟩ := h
  unfold Fortran.withAttributes
  dsimp only
  split_ifs
  · exact ⟨rfl, (countOf_remove _).1, (countOf_remove _).2⟩
  · exact ⟨rfl, rfl, rfl⟩

/-- Only a DIMENSION is deferred. -/
theorem isDeferred_of_word? (h : attr.word? ≠ some "DIMENSION") : attr.isDeferred = false := by
  cases attr with
  | dimension list => exact absurd rfl h
  | _ => rfl

/-- Attributes without a DIMENSION have no deferred list. -/
theorem any_isDeferred (hwords : ∀ attr ∈ attributes, attr.word? ≠ some "DIMENSION") :
    attributes.any Attribute.isDeferred = false :=
  List.any_eq_false.mpr fun attr hattr =>
    Bool.eq_false_iff.mp (isDeferred_of_word? (hwords attr hattr))

/-- The shape that a list of attributes with one DIMENSION gives. -/
theorem hasShape_withAttributes (scope : Scope) {before behind : List Attribute} (list : Level)
    (hwords : ∀ attr ∈ before ++ behind, attr.word? ≠ some "DIMENSION") :
    HasShape (withAttributes scope (before ++ .dimension list :: behind) {}) (dimensionsOf list)
      ((if isBlankList list then countOf "POINTER" before
        else if isDeferred list then (entries list).length else 0) + countOf "POINTER" behind)
      (if isDeferred list then countOf "INTENT" before - 1 + countOf "INTENT" behind - 1
        else countOf "INTENT" before + countOf "INTENT" behind) := by
  rw [List.forall_mem_append] at hwords
  have hempty : HasShape {} [] 0 0 := ⟨rfl, rfl, rfl⟩
  -- The attributes in front give pointers and references, the list exchanges them, and those behind
  -- add to what it leaves.
  have hbefore := hempty.applyAll scope hwords.1
  have hbehind := (hbefore.withDimensions list).applyAll scope hwords.2
  have hall : applyAll scope (before ++ .dimension list :: behind) {} =
      applyAll scope behind (withDimensions list (applyAll scope before {})) := by
    rw [applyAll_append, applyAll_cons]
    rfl
  rw [← hall] at hbehind
  have hdeferred : (before ++ .dimension list :: behind).any Attribute.isDeferred =
      isDeferred list := by
    rw [List.any_append, List.any_cons, any_isDeferred hwords.1, any_isDeferred hwords.2]
    simp [Attribute.isDeferred]
  have hshape := hbehind.withAttributes
  rw [hdeferred] at hshape
  cases hlist : isDeferred list <;> simpa [hlist] using hshape

/-- The second declarator is the first one with so many pointers more, and with the same reference
if at most one INTENT gave it. -/
structure HasMorePointers (more intents : Nat) (first second : Declarator) : Prop where
  eq : second = { first with right := second.right }
  pointers : second.pointerCount = first.pointerCount + more
  references : intents ≤ 1 → second.right.countOf "&" = first.right.countOf "&"

/-- Declarators that differ in their shape only, and not in their dimensions, differ in their
right qualifiers. -/
theorem eq_of_withoutShape (h : withoutShape first = withoutShape second)
    (hdimensions : first.dimensions = second.dimensions) :
    second = { first with right := second.right } := by
  cases first
  cases second
  simp only [withoutShape, Declarator.mk.injEq] at h hdimensions ⊢
  tauto

/-- What is removed at the end of a list is part of the shape. -/
theorem withoutShape_withAttributes (scope : Scope) (attributes : List Attribute)
    (declarator : Declarator) :
    withoutShape (withAttributes scope attributes declarator) =
      withoutShape (applyAll scope attributes declarator) := by
  unfold withAttributes
  dsimp only
  split <;> rfl

/-- Where a POINTER and the only DIMENSION of a list change places, the pointers that come behind
the DIMENSION are kept, and those in front of it are not. -/
theorem withAttributes_pointer_dimension {before between behind : List Attribute} (list : Level)
    (hwords : ∀ attr ∈ before ++ between ++ behind, attr.word? ≠ some "DIMENSION") :
    HasMorePointers (if isBlankList list then 0 else countOf "POINTER" between + 1)
      (countOf "INTENT" (before ++ between ++ behind))
      (withAttributes scope (before ++ .pointer :: (between ++ .dimension list :: behind)) {})
      (withAttributes scope (before ++ .dimension list :: (between ++ .pointer :: behind)) {}) := by
  have hpointer : (Attribute.pointer).word? ≠ some "DIMENSION" := by decide
  simp only [List.forall_mem_append] at hwords
  obtain ⟨⟨hbefore, hbetween⟩, hbehind⟩ := hwords
  have hwordsFirst : ∀ attr ∈ (before ++ .pointer :: between) ++ behind,
      attr.word? ≠ some "DIMENSION" := by
    simp only [List.forall_mem_append, List.forall_mem_cons]
    exact ⟨⟨hbefore, hpointer, hbetween⟩, hbehind⟩
  have hwordsSecond : ∀ attr ∈ before ++ (between ++ .pointer :: behind),
      attr.word? ≠ some "DIMENSION" := by
    simp only [List.forall_mem_append, List.forall_mem_cons]
    exact ⟨hbefore, hbetween, hpointer, hbehind⟩
  have hfirst := hasShape_withAttributes scope list hwordsFirst
  have hsecond := hasShape_withAttributes scope list hwordsSecond
  rw [List.append_assoc, List.cons_append] at hfirst
  have hpointers (rest : List Attribute) :
      countOf "POINTER" (.pointer :: rest) = countOf "POINTER" rest + 1 :=
    List.count_cons_self
  have hreferences (rest : List Attribute) :
      countOf "INTENT" (.pointer :: rest) = countOf "INTENT" rest :=
    List.count_cons_of_ne (by decide)
  -- All but the pointers is the same: the rest, the dimensions, and the reference of a single
  -- INTENT.
  refine ⟨eq_of_withoutShape ?_ (hfirst.dimensions.trans hsecond.dimensions.symm), ?_,
    fun hintents => ?_⟩
  · -- Neither of the two changes the rest of the declarator.
    have hone (declarator : Declarator) :
        withoutShape (Attribute.pointer.apply scope declarator) = withoutShape declarator := rfl
    have hother (declarator : Declarator) :
        withoutShape ((Attribute.dimension list).apply scope declarator) =
            withoutShape declarator :=
      withoutShape_withDimensions list declarator
    rw [withoutShape_withAttributes, withoutShape_withAttributes]
    simp only [applyAll_append, applyAll_cons]
    refine withoutShape_applyAll ?_
    rw [hone, hother]
    exact withoutShape_applyAll ((hone _).trans (hother _).symm)
  · rw [hfirst.pointers, hsecond.pointers]
    simp only [countOf_append, hpointers]
    split_ifs <;> omega
  · rw [hfirst.references, hsecond.references]
    simp only [countOf_append, hreferences] at hintents ⊢
    split_ifs <;> omega

/-- The parts of a list in which two stand apart. -/
theorem forall_mem_exchange {p : Level → Prop} {before between behind : List Level}
    {one other : Level} : (∀ part ∈ before ++ one :: (between ++ other :: behind), p part) ↔
      (∀ part ∈ before ++ between ++ behind, p part) ∧ p one ∧ p other := by
  simp only [List.forall_mem_append, List.forall_mem_cons]
  tauto

/-- What is behind an attribute does not depend on which one it is. -/
theorem Attribute.StartsAt.rest_eq {other : Attribute} {level rest rest' : Level}
    (h : attr.StartsAt scope level rest) (h' : other.StartsAt scope level rest') :
    rest = rest' := by
  have happly := (h.apply {}).symm.trans (h'.apply {})
  simp only [EStateM.Result.ok.injEq, Option.some.injEq, Prod.mk.injEq] at happly
  exact happly.1.2

/-- A DIMENSION that is an attribute has nothing behind its list. -/
theorem isWritten_dimension {part : Level} (hword : attributeWord? part = some "DIMENSION")
    (hlist : part.next.groupContents? .parenthesis = some list) (h : attr.IsWritten scope part) :
    (Attribute.dimension list).IsWritten scope part := by
  have hstarts : (Attribute.dimension list).StartsAt scope part part.next.next :=
    Attribute.startsAt_dimension hword hlist
  rwa [← h.rest_eq hstarts] at hstarts

/-- A POINTER and the only DIMENSION of a list can change places where the DIMENSION is blank.
Otherwise the declarator has a pointer more where the DIMENSION comes first, and one for each
POINTER between the two. -/
theorem readAttributes_pointer_dimension (scope : Scope) (separators : Separators)
    {before between behind : List Level} {pointer dimension : Level}
    (hothers : ∀ part ∈ before ++ between ++ behind, IsPart part ∧ attributeWord? part ≠
      some "DIMENSION")
    (hpointer : IsPart pointer ∧ attributeWord? pointer = some "POINTER")
    (hdimension : IsPart dimension ∧ attributeWord? dimension = some "DIMENSION")
    (hlist : dimension.next.groupContents? .parenthesis = some list) (rest : Level) :
    let pointerFirst := readAttributes scope
      (attributeList separators (before ++ pointer :: (between ++ dimension :: behind)) rest) {}
    let dimensionFirst := readAttributes scope
      (attributeList separators (before ++ dimension :: (between ++ pointer :: behind)) rest) {}
    ((∃ first, pointerFirst = .ok rest first) ↔ ∃ second, dimensionFirst = .ok rest second) ∧
      ∀ first second, pointerFirst = .ok rest first → dimensionFirst = .ok rest second →
        HasMorePointers
          (if isBlankList list then 0 else (between.map attributeWord?).count (some "POINTER") + 1)
          (((before ++ between ++ behind).map attributeWord?).count (some "INTENT"))
              first second := by
  have hparts (part : Level) (h : part ∈ before ++ between ++ behind) : IsPart part :=
    (hothers part h).1
  have hfirst := forall_mem_exchange.mpr ⟨hparts, hpointer.1, hdimension.1⟩
  have hsecond := forall_mem_exchange.mpr ⟨hparts, hdimension.1, hpointer.1⟩
  refine ⟨?_, fun first second h h' => ?_⟩
  · -- Both lists have the same parts.
    rw [exists_readAttributes_iff hfirst, exists_readAttributes_iff hsecond, forall_mem_exchange,
      forall_mem_exchange]
    exact and_congr_right fun _ => and_comm
  · obtain ⟨attributes, hall, -⟩ := (readAttributes_attributeList_iff hfirst).mp h
    obtain ⟨front, one, _, rfl, hfront, hone, hrest⟩ := exists_isWritten_of_append hall
    obtain ⟨middle, other, back, rfl, hmiddle, hother, hback⟩ := exists_isWritten_of_append hrest
    obtain rfl := Attribute.eq_pointer_of_word? (hone.word.trans hpointer.2)
    have hother := isWritten_dimension hdimension.2 hlist hother
    -- The same attributes are what the other list consists of.
    have hread :
        readAttributes scope
            (attributeList separators (before ++ pointer :: (between ++ dimension :: behind)) rest)
              {} =
          .ok rest
              (withAttributes scope (front ++ .pointer ::
              (middle ++ .dimension list :: back)) {}) :=
      (readAttributes_attributeList_iff hfirst).mpr
        ⟨_, List.rel_append hfront (.cons hone (List.rel_append hmiddle (.cons hother hback))), rfl⟩
    have hread' :
        readAttributes scope
            (attributeList separators (before ++ dimension :: (between ++ pointer :: behind)) rest)
              {} =
          .ok rest
              (withAttributes scope (front ++ .dimension list ::
              (middle ++ .pointer :: back)) {}) :=
      (readAttributes_attributeList_iff hsecond).mpr
        ⟨_, List.rel_append hfront (.cons hother (List.rel_append hmiddle (.cons hone hback))), rfl⟩
    cases h.symm.trans hread
    cases h'.symm.trans hread'
    have hothersWritten : List.Forall₂ (Attribute.IsWritten scope) (front ++ middle ++ back)
        (before ++ between ++ behind) :=
      List.rel_append (List.rel_append hfront hmiddle) hback
    rw [← map_word?_of_isWritten hothersWritten, ← map_word?_of_isWritten hmiddle]
    exact withAttributes_pointer_dimension list
      (word?_ne_of_isWritten hothersWritten fun part h => (hothers part h).2)

/-- The pointers of `REAL, POINTER, INTENT(OUT), DIMENSION(:), VOLATILE ::` and of the list with the
POINTER behind the DIMENSION. -/
theorem readAttributes_pointer_dimension_deferred :
    let pointer := wordPart "POINTER"
    let dimension := listPart "DIMENSION" (.token ":" {})
    let before := [[.token "REAL" .typeName]]
    let between := [listPart "INTENT" (.token "OUT" .unresolved)]
    let behind := [wordPart "VOLATILE"]
    ∃ first second,
      readAttributes (Scope.ofSettings {})
        (attributeList {} (before ++ pointer :: (between ++ dimension :: behind))
          (wordPart "p")) {} = .ok (wordPart "p") first ∧
        readAttributes (Scope.ofSettings {})
          (attributeList {} (before ++ dimension :: (between ++ pointer :: behind))
          (wordPart "p")) {} = .ok (wordPart "p") second ∧ HasMorePointers 1 1 first second := by
  intro pointer dimension before between behind
  have hothers : ∀ part ∈ before ++ between ++ behind,
      IsPart part ∧ attributeWord? part ≠ some "DIMENSION" := by
    simp only [before, between, behind, List.cons_append, List.nil_append, List.forall_mem_cons]
    exact ⟨⟨⟨by simp, by decide⟩, by decide +kernel⟩,
      ⟨⟨by simp [listPart], by decide⟩, by decide +kernel⟩,
      ⟨⟨by simp [wordPart], by decide⟩, by decide +kernel⟩, List.forall_mem_nil _⟩
  have hcounts : (if isBlankList [.token ":" {}] then 0
        else (between.map attributeWord?).count (some "POINTER") + 1) = 1 ∧
      ((before ++ between ++ behind).map attributeWord?).count (some "INTENT") = 1 := by
    decide +kernel
  have hread : readAttributes (Scope.ofSettings {})
      (attributeList {} (before ++ pointer :: (between ++ dimension :: behind)) (wordPart "p")) {} =
        .ok (wordPart "p")
          { left := ⟨["INTENTOUT", "volatile"]⟩
            right := ⟨["*"]⟩
            base := (Scope.ofSettings {}).lookup "float" } := by
    cbv
  have hpointer : IsPart pointer ∧ attributeWord? pointer = some "POINTER" :=
    ⟨⟨by simp [pointer, wordPart], by decide⟩, by decide +kernel⟩
  have hdimension : IsPart dimension ∧ attributeWord? dimension = some "DIMENSION" :=
    ⟨⟨by simp [dimension, listPart], by decide⟩, by decide +kernel⟩
  have hlist : dimension.next.groupContents? .parenthesis = some [.token ":" {}] := rfl
  obtain ⟨haccepted, hall⟩ :=
    readAttributes_pointer_dimension (Scope.ofSettings {}) {} hothers hpointer hdimension
      hlist (wordPart "p")
  obtain ⟨second, hsecond⟩ := haccepted.mp ⟨_, hread⟩
  have hmore := hall _ second hread hsecond
  rw [hcounts.1, hcounts.2] at hmore
  exact ⟨_, second, hread, hsecond, hmore⟩

/-- `REAL, POINTER, DIMENSION(:) :: p` has one pointer and `REAL, DIMENSION(:), POINTER :: p` has
two. -/
theorem not_pointer_dimension_comm :
    ((fun trees => (Node.ofTrees trees).items) <$> TokenTree.ofSource .fortran (Scope.ofSettings {})
        "REAL, POINTER, DIMENSION(:) :: p" = .ok (attributeList {}
          [[.token "REAL" .typeName], wordPart "POINTER", listPart "DIMENSION" (.token ":" {})]
            (wordPart "p"))) ∧
      ((fun trees => (Node.ofTrees trees).items) <$> TokenTree.ofSource .fortran
        (Scope.ofSettings {})
        "REAL, DIMENSION(:), POINTER :: p" = .ok (attributeList {}
          [[.token "REAL" .typeName], listPart "DIMENSION" (.token ":" {}),
            wordPart "POINTER"] (wordPart "p"))) ∧
      ∃ first second,
        readAttributes (Scope.ofSettings {}) (attributeList {}
          [[.token "REAL" .typeName], wordPart "POINTER", listPart "DIMENSION" (.token ":" {})]
            (wordPart "p")) {} =
            .ok (wordPart "p") first ∧
        readAttributes (Scope.ofSettings {}) (attributeList {}
          [[.token "REAL" .typeName], listPart "DIMENSION" (.token ":" {}),
            wordPart "POINTER"] (wordPart "p")) {} =
            .ok (wordPart "p") second ∧ first.pointerCount = 1 ∧ second.pointerCount = 2 := by
  have hpointer :
      TokenTree.ofSource .fortran (Scope.ofSettings {}) "REAL, POINTER, DIMENSION(:) :: p" =
      .ok [.leaf ⟨"REAL", .typeName⟩, .leaf ⟨",", .operator⟩,
        .leaf ⟨"POINTER", .unresolved⟩, .leaf ⟨",", .operator⟩,
        .leaf ⟨"DIMENSION", .unresolved⟩, .group .parenthesis [.leaf ⟨":", .operator⟩],
        .leaf ⟨"::", .operator⟩, .leaf ⟨"p", .unresolved⟩] := by
    decide +kernel
  have hdimension :
      TokenTree.ofSource .fortran (Scope.ofSettings {}) "REAL, DIMENSION(:), POINTER :: p" =
      .ok [.leaf ⟨"REAL", .typeName⟩, .leaf ⟨",", .operator⟩, .leaf ⟨"DIMENSION", .unresolved⟩,
        .group .parenthesis [.leaf ⟨":", .operator⟩], .leaf ⟨",", .operator⟩,
        .leaf ⟨"POINTER", .unresolved⟩,
        .leaf ⟨"::", .operator⟩, .leaf ⟨"p", .unresolved⟩] := by
    decide +kernel
  refine ⟨by rw [hpointer]; rfl, by rw [hdimension]; rfl,
    { right := ⟨["*"]⟩, base := (Scope.ofSettings {}).lookup "float" },
    { right := ⟨["*", "*"]⟩, base := (Scope.ofSettings {}).lookup "float" }, by cbv, by cbv, rfl,
    rfl⟩

end Fortran

end CommonDecl

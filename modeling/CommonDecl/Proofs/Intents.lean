import CommonDecl.Proofs.AttributeOrder

/-!
# Intents

An INTENT among the attributes is accepted where a list follows in which something stands, whatever
that is (`intent_accepted_iff`).  So the three forms `(IN)`, `(OUT)` and `(INOUT)` are accepted, but
so are `(IN OUT)` and `(FOO)`: only the first item of the list is looked at.  `FrontOf` says how
reading attributes comes to one of them.
-/

namespace CommonDecl.Fortran

open Level

variable {scope : Scope} {level place : Level} {front : List Attribute}

/-! ### The attributes in front of a place -/

/-- Reading the attributes that `level` starts with comes to `place`, where the next one may stand,
after the attributes `front`. -/
inductive FrontOf (scope : Scope) (place : Level) : List Attribute → Level → Prop where
  | here : FrontOf scope place [] place
  | behind {level rest : Level} {attr : Attribute} {front : List Attribute}
    (hcolons : level.isToken "::" = false)
    (hattr : attr.StartsAt scope level rest) (hcomma : rest.isToken "," = true)
    (hfront : FrontOf scope place front rest.next) : FrontOf scope place (attr :: front) level

theorem Attribute.StartsAt.ne_nil {attr : Attribute} {rest : Level}
    (h : attr.StartsAt scope level rest) :
    level ≠ [] := by
  rintro rfl
  have happly := h.apply {}
  cases happly

/-- The attributes in front of a place are applied on the way to it. -/
theorem FrontOf.applyAttributes_eq (h : FrontOf scope place front level) (deferred : Bool)
    (declarator : Declarator) :
    applyAttributes scope deferred level declarator =
      applyAttributes scope (deferred || front.any Attribute.isDeferred) place
        (applyAll scope front declarator) := by
  induction h generalizing deferred declarator with
  | here => rw [List.any_nil, Bool.or_false]; rfl
  | @behind level rest attr front hcolons hattr hcomma hfront ih =>
    have hend : ¬ level.atEnd = true := fun hend => hattr.ne_nil (List.isEmpty_iff.mp hend)
    have hshorter : rest.next.length < level.length := by
      have hsuffix := hattr.suffix.length_le
      have hrest : rest ≠ [] := ne_nil_of_isToken hcomma
      have hpos : 0 < rest.length := List.length_pos_iff.mpr hrest
      rw [Level.next, List.length_tail]
      omega
    rw [applyAttributes, if_neg hend, if_neg (Bool.eq_false_iff.mp hcolons),
      bind_of_ok (hattr.apply declarator)]
    dsimp only
    rw [if_pos ⟨hcomma, hshorter⟩, ih, List.any_cons, Bool.or_assoc]
    rfl

/-- A fault of the attribute at a place is a fault of the whole list. -/
theorem FrontOf.readAttributes_error (h : FrontOf scope place front level) {fault : Fault}
    (hcolons : place.isToken "::" = false) (hend : place ≠ []) {declarator : Declarator}
    (hfault : applyAttribute scope place (applyAll scope front declarator) =
      .error fault (applyAll scope front declarator)) :
    readAttributes scope level declarator = .error fault (applyAll scope front declarator) := by
  have hend' : ¬ place.atEnd = true := fun h => hend (List.isEmpty_iff.mp h)
  unfold readAttributes
  rw [bind_of_error]
  rw [h.applyAttributes_eq, applyAttributes, if_neg hend', if_neg (Bool.eq_false_iff.mp hcolons)]
  exact bind_of_error hfault

/-! ### Intents -/

/-- One of the lists `IN`, `OUT` and `INOUT`, in either case. -/
def IsIntentList (list : Level) : Prop :=
  ∃ word roles, list = [.token word roles] ∧ upperCase word ∈ ["IN", "OUT", "INOUT"]

theorem intentAt?_eq_some_iff {word : String} :
    intentAt? level = some word ↔
      ∃ item items, level.groupContents? .parenthesis = some (item :: items) ∧
        upperCase item.value = word := by
  rw [intentAt?]
  cases level.groupContents? .parenthesis with
  | none => simp
  | some list => cases list <;> simp [Level.value?]

theorem applyAttribute_of_intentAt?_none (hword : attributeWord? place = some "INTENT")
    (h : intentAt? place.next = none) (declarator : Declarator) :
    applyAttribute scope place declarator =
      .error (.intentExpected place.next.value?) declarator := by
  unfold applyAttribute
  rw [readType_of_attributeWord? hword]
  dsimp only
  rw [(attributeWord?_eq_some_iff.mp hword).2, h]
  rfl

/-- An INTENT is accepted where something stands in the list behind it. -/
theorem exists_startsAt_intent_iff (scope : Scope) (hword : attributeWord? place = some "INTENT") :
    (∃ (attr : Attribute) (rest : Level), attr.StartsAt scope place rest) ↔
      ∃ list, place.next.groupContents? .parenthesis = some list ∧ list ≠ [] := by
  constructor
  · rintro ⟨attr, rest, h⟩
    cases hintent : intentAt? place.next with
    | none =>
      have happly := h.apply {}
      rw [applyAttribute_of_intentAt?_none hword hintent] at happly
      cases happly
    | some word =>
      obtain ⟨item, items, hlist, -⟩ := intentAt?_eq_some_iff.mp hintent
      exact ⟨_, hlist, List.cons_ne_nil _ _⟩
  · rintro ⟨list, hlist, hne⟩
    obtain ⟨item, items, rfl⟩ := List.exists_cons_of_ne_nil hne
    exact ⟨_, _,
      Attribute.startsAt_intent hword (intentAt?_eq_some_iff.mpr ⟨item, items, hlist, rfl⟩)⟩

/-- An intent makes a declarator constant where it reads IN. -/
theorem countOf_const_withIntent (word : String) (declarator : Declarator) :
    (withIntent word declarator).left.countOf "const" =
      declarator.left.countOf "const" + if word = "IN" then 1 else 0 := by
  have hne : "INTENT" ++ word ≠ "const" := by
    intro h
    have hlists : "INTENT".toList ++ word.toList = "const".toList := by
      rw [← String.toList_append, h]
    exact absurd (List.cons.inj hlists).1 (by decide)
  have hmarker : (declarator.left.add ("INTENT" ++ word)).countOf "const" =
      declarator.left.countOf "const" :=
    List.count_append.trans (by rw [List.count_singleton, beq_eq_false_iff_ne.mpr hne]; rfl)
  unfold withIntent
  dsimp only
  split
  · exact (List.count_cons_self).trans (congrArg (· + 1) hmarker)
  · exact hmarker

/-- Where reading attributes comes to an INTENT, it is accepted where something stands in a list
behind it: the first item of the list is the intent, and makes the declarator constant where it
reads IN in either case.  Otherwise the whole list is refused.  So exactly the three forms are
accepted unless something else stands in the list. -/
theorem intent_accepted_iff (hplace : FrontOf scope place front level)
    (hword : attributeWord? place = some "INTENT") :
    let accepted := ∃ (attr : Attribute) (rest : Level), attr.StartsAt scope place rest
    (accepted ↔ ∃ list, place.next.groupContents? .parenthesis = some list ∧ list ≠ []) ∧
      (∀ item items, place.next.groupContents? .parenthesis = some (item :: items) →
        (Attribute.intent (upperCase item.value)).StartsAt scope place place.next.next ∧
          ∀ declarator : Declarator,
            ((Attribute.intent (upperCase item.value)).apply scope declarator).left.countOf
                "const" =
              declarator.left.countOf "const" + if upperCase item.value = "IN" then 1 else 0) ∧
      (¬ accepted → ∀ declarator, readAttributes scope level declarator =
        .error (.intentExpected place.next.value?) (applyAll scope front declarator)) ∧
      ((accepted ↔ ∃ list, place.next.groupContents? .parenthesis = some list ∧ IsIntentList list) ↔
        ∀ list, place.next.groupContents? .parenthesis = some list → list ≠ [] →
            IsIntentList list) := by
  intro accepted
  -- An INTENT is accepted where a group follows that is not empty.
  have haccepted : accepted ↔ ∃ list,
      place.next.groupContents? .parenthesis = some list ∧ list ≠ [] :=
    exists_startsAt_intent_iff scope hword
  refine ⟨haccepted, fun item items hlist => ⟨?_, countOf_const_withIntent _⟩,
    fun hrefused declarator => ?_, ?_⟩
  · exact Attribute.startsAt_intent hword (intentAt?_eq_some_iff.mpr ⟨item, items, hlist, rfl⟩)
  -- Refused at its place, the INTENT ends the list of attributes with its own fault.
  · have hnone : intentAt? place.next = none := by
      refine Option.eq_none_iff_forall_ne_some.mpr fun word hintent => hrefused (haccepted.mpr ?_)
      obtain ⟨item, items, hlist, -⟩ := intentAt?_eq_some_iff.mp hintent
      exact ⟨_, hlist, List.cons_ne_nil _ _⟩
    refine hplace.readAttributes_error ?_ ?_ (applyAttribute_of_intentAt?_none hword hnone _)
    · exact isToken_eq_false_of_word? (attributeWord?_eq_some_iff.mp hword).2 (by decide +kernel)
    · rintro rfl
      cases hword
  -- Exactly the forms are accepted if every list that is not empty has one of them.
  · rw [haccepted]
    constructor
    · intro hiff list hlist hne
      obtain ⟨list', hlist', hforms⟩ := hiff.mp ⟨list, hlist, hne⟩
      rw [hlist] at hlist'
      cases hlist'
      exact hforms
    · refine fun hforms => ⟨fun ⟨list, hlist, hne⟩ => ⟨list, hlist, hforms list hlist hne⟩, ?_⟩
      rintro ⟨list, hlist, word, roles, rfl, -⟩
      exact ⟨_, hlist, List.cons_ne_nil _ _⟩

/-- The attribute REAL in front of a comma. -/
theorem startsAt_real (scope : Scope) (rest : Level) :
    (Attribute.type "float").StartsAt scope (.token "REAL" .typeName :: .token "," {} :: rest)
      (.token "," {} :: rest) :=
  Attribute.startsAt_type (by cbv)

/-- The INTENT of `REAL, volatile, Intent(InOut) :: x` is accepted and makes nothing constant. -/
theorem intent_accepted_iff_anyCase :
    let place :
        Level := listPart "Intent" (.token "InOut" .unresolved) ++ .token "::" {} :: wordPart "x"
    let level : Level :=
      .token "REAL" .typeName :: .token "," {} :: .token "volatile" .unresolved ::
      .token "," {} :: place
    FrontOf (Scope.ofSettings {}) place [.type "float", .mark .volatile] level ∧
      attributeWord? place = some "INTENT" ∧
      (Attribute.intent "INOUT").StartsAt (Scope.ofSettings {}) place
        (.token "::" {} :: wordPart "x") ∧
      ((Attribute.intent "INOUT").apply (Scope.ofSettings {}) {}).left.countOf "const" = 0 := by
  intro place level
  have hword : attributeWord? place = some "INTENT" := by decide +kernel
  have hvolatile : (Attribute.mark .volatile).StartsAt (Scope.ofSettings {})
      (.token "volatile" .unresolved :: .token "," {} :: place) (.token "," {} :: place) :=
    Attribute.startsAt_word (show _ = some "VOLATILE" by decide +kernel) (by decide) (by decide) rfl
      rfl fun _ => rfl
  have hplace : FrontOf (Scope.ofSettings {}) place [.type "float", .mark .volatile] level :=
    .behind (by decide) (startsAt_real _ _) rfl (.behind (by decide) hvolatile rfl .here)
  have hupper : upperCase "InOut" = "INOUT" := by decide +kernel
  obtain ⟨-, haccepted, -, -⟩ := intent_accepted_iff hplace hword
  obtain ⟨hstarts, hconst⟩ := haccepted (.token "InOut" .unresolved) [] rfl
  refine ⟨hplace, hword, ?_, ?_⟩
  · rwa [← hupper]
  · rw [← hupper]
    exact (hconst {}).trans (by decide +kernel)

/-- `INTENT(IN OUT)` is accepted as `INTENT(IN)` is. -/
theorem not_intent_refused :
    let place : Level := .token "INTENT" .unresolved ::
      .group "(" {} [.token "IN" .unresolved, .token "OUT" .unresolved] ::
        .token "::" {} :: wordPart "x"
    let level : Level := .token "REAL" .typeName :: .token "," {} :: place
    ((fun trees => (Node.ofTrees trees).items) <$> TokenTree.ofSource .fortran (Scope.ofSettings {})
        "REAL, INTENT(IN OUT) :: x" = .ok level) ∧
      FrontOf (Scope.ofSettings {}) place [.type "float"] level ∧ attributeWord? place =
        some "INTENT" ∧
      (∀ list, place.next.groupContents? .parenthesis = some list → ¬ IsIntentList list) ∧
      readAttributes (Scope.ofSettings {}) level {} = .ok (wordPart "x")
        { left := ⟨["const", "INTENTIN"]⟩, right := ⟨["&"]⟩,
            base := (Scope.ofSettings {}).lookup "float" } := by
  intro place level
  have htrees : TokenTree.ofSource .fortran (Scope.ofSettings {}) "REAL, INTENT(IN OUT) :: x" =
      .ok [.leaf ⟨"REAL", .typeName⟩, .leaf ⟨",", .operator⟩, .leaf ⟨"INTENT", .unresolved⟩,
        .group .parenthesis [.leaf ⟨"IN", .unresolved⟩, .leaf ⟨"OUT", .unresolved⟩],
        .leaf ⟨"::", .operator⟩,
        .leaf ⟨"x", .unresolved⟩] := by
    decide +kernel
  refine ⟨by rw [htrees]; rfl, ?_, by decide +kernel, ?_, by cbv⟩
  · exact .behind (by decide) (startsAt_real _ _) rfl .here
  · rintro list ⟨rfl⟩ ⟨word, roles, hlist, -⟩
    cases hlist

end CommonDecl.Fortran

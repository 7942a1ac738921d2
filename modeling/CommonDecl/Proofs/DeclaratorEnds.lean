import CommonDecl.Proofs.Locality

/-!
# Where a declarator ends

A group directly behind a declarator can be a part of it: dimensions, an argument list, or the body
of a function (`Declarator.takes`).  In front of anything else a declarator ends as it does at the
end of its level, and one that leaves something on its level does not even look at what stands
behind it (`Declarator.read_append_of_endsBefore`).
-/

namespace CommonDecl

open Level

variable {scope : Scope} {level stop : Level}

namespace Level

theorem leftQualifiers_append (h : level.afterLeftQualifiers ≠ []) (stop : Level) :
    (level ++ stop).leftQualifiers = level.leftQualifiers ∧
      (level ++ stop).afterLeftQualifiers = level.afterLeftQualifiers ++ stop := by
  obtain ⟨htake, hdrop⟩ := takeWhile_append_of_dropWhile h stop
  exact ⟨by rw [leftQualifiers, htake, leftQualifiers], hdrop⟩

theorem isGroup_append_of_ne_nil (h : level ≠ []) (stop : Level) (bracket : Bracket) :
    (level ++ stop).isGroup bracket = level.isGroup bracket := by
  rw [isGroup, isGroup, head?_append h]

theorem groupContents?_append_of_ne_nil (h : level ≠ []) (stop : Level) (bracket : Bracket) :
    (level ++ stop).groupContents? bracket = level.groupContents? bracket :=
  Fortran.groupContents?_append h stop bracket

/-- Dimensions that end within a level, or in front of something else, are the same with that behind
them. -/
theorem dimensions_append_of_ends (h : level.afterDimensions = [] → stop.isGroup .square = false) :
    (level ++ stop).dimensions = level.dimensions ∧
      (level ++ stop).afterDimensions = level.afterDimensions ++ stop := by
  unfold dimensions
  unfold afterDimensions at h ⊢
  by_cases hend : level.dropWhile (Item.isGroup .square) = []
  · have hstop : ∀ item ∈ stop.head?, item.isGroup .square = false := by
      intro item hitem
      have hsquare := h hend
      rwa [isGroup, Option.mem_def.mp hitem, Option.any_some] at hsquare
    rw [takeWhile_append_of_head hstop, dropWhile_append_of_head hstop]
    exact ⟨rfl, rfl⟩
  · obtain ⟨htake, hdrop⟩ := takeWhile_append_of_dropWhile hend stop
    rw [htake, hdrop]
    exact ⟨rfl, rfl⟩

/-- No dimensions stand in front of a group of another kind. -/
theorem dimensions_of_parenthesis (h : level.isGroup .parenthesis = true) :
    level.dimensions = [] ∧ level.afterDimensions = level := by
  cases level with
  | nil => cases h
  | cons item rest =>
    have hbracket : item.bracket? = some .parenthesis := eq_of_beq h
    have hsquare : ¬ item.isGroup .square = true := by
      rw [Item.isGroup, hbracket]
      decide
    constructor
    · rw [dimensions, List.takeWhile_cons_of_neg hsquare, List.map_nil]
    · rw [afterDimensions, List.dropWhile_cons_of_neg hsquare]

end Level

/-! ### What a declarator goes on with -/

namespace Declarator

/-- The dimensions at the end of a declarator, behind the name or behind the nests around it. -/
def lastDimensions (declarator : Declarator) : List String :=
  if declarator.nests.isEmpty then declarator.dimensions else declarator.outerDimensions

/-- A group with this bracket, directly behind the declarator, would be a part of it. -/
def takes (declarator : Declarator) : Bracket → Bool
  | .parenthesis => !declarator.kind.isFunction && declarator.lastDimensions.isEmpty
  | .square => !declarator.kind.isFunction
  | .brace => decide (declarator.kind = .functionDeclaration)

/-- What stands behind the declarator is no part of it. -/
def EndsBefore (declarator : Declarator) (stop : Level) : Prop :=
  ∀ bracket, stop.isGroup bracket = true → declarator.takes bracket = false

instance (declarator : Declarator) (stop : Level) : Decidable (declarator.EndsBefore stop) :=
  decidable_of_iff (∀ bracket ∈ [Bracket.parenthesis, .square, .brace],
    stop.isGroup bracket = true → declarator.takes bracket = false) <| by
      refine ⟨fun h bracket => h bracket ?_, fun h bracket _ => h bracket⟩
      cases bracket <;> simp

theorem EndsBefore.isGroup_eq_false {declarator : Declarator} (h : declarator.EndsBefore stop)
    {bracket : Bracket} (htakes : declarator.takes bracket = true) :
    stop.isGroup bracket = false := by
  by_contra hgroup
  rw [h bracket (Bool.not_eq_false _ ▸ hgroup)] at htakes
  cases htakes

/-- The level behind the name, or behind the nests around it. -/
def behindName (nests : Nat) (core : Level) : Level :=
  if nests = 0 then afterName core else core.next

theorem behindName_append {core : Level} (h : core ≠ []) (nests : Nat) (stop : Level) :
    behindName nests (core ++ stop) = behindName nests core ++ stop := by
  unfold behindName
  rw [afterName_append h, next_append h]
  split <;> rfl

/-- What is behind the name decides on the kind. -/
theorem kindAt_behindName (nests : Nat) (core : Level) :
    kindAt nests core =
      if (behindName nests core).isGroup .parenthesis then
        if 0 < nests then .functionPointer
        else if (behindName nests core).next.isGroup .brace then .functionDefinition
        else .functionDeclaration
      else .variable := by
  unfold kindAt behindName
  by_cases hnests : nests = 0
  · subst hnests
    simp only [Nat.lt_irrefl, if_false, if_true]
    cases (afterName core).isGroup .parenthesis <;> rfl
  · have hpos : 0 < nests := Nat.pos_of_ne_zero hnests
    rw [if_pos hpos, if_pos hpos, if_neg hnests]

theorem isFunction_kindAt (nests : Nat) (core : Level) :
    (kindAt nests core).isFunction = (behindName nests core).isGroup .parenthesis := by
  rw [kindAt_behindName]
  split_ifs with hlist hnests hbody <;> simp [DeclaratorKind.isFunction, hlist]

theorem afterNests_kindAt (nests : Nat) (core : Level) :
    afterNests nests (kindAt nests core) core = (behindName nests core).afterDimensions := by
  unfold afterNests
  rw [isFunction_kindAt, behindName]
  split_ifs with hnests hlist
  · rfl
  · exact (dimensions_of_parenthesis hlist).2.symm
  · rfl

theorem dimensionsAfterNests_kindAt (nests : Nat) (core : Level) :
    dimensionsAfterNests nests (kindAt nests core) core =
      if nests = 0 then [] else (behindName nests core).dimensions := by
  unfold dimensionsAfterNests
  rw [isFunction_kindAt, behindName]
  split_ifs with hnests hlist
  all_goals grind [dimensions_of_parenthesis]

/-- The kind stays, unless the level ends where what stands behind it would decide on it. -/
theorem kindAt_append_of_ends {core : Level} (h : core ≠ []) (nests : Nat)
    (hlist : behindName nests core = [] → stop.isGroup .parenthesis = false)
    (hbody : kindAt nests core = .functionDeclaration → (behindName nests core).next = [] →
      stop.isGroup .brace = false) : kindAt nests (core ++ stop) = kindAt nests core := by
  rw [kindAt_behindName nests core] at hbody
  rw [kindAt_behindName, kindAt_behindName, behindName_append h]
  generalize behindName nests core = behind at hlist hbody ⊢
  by_cases hnil : behind = []
  · subst hnil
    rw [List.nil_append, hlist rfl]
    rfl
  · rw [isGroup_append_of_ne_nil hnil, next_append hnil]
    by_cases hfunction : behind.isGroup .parenthesis = true ∧ nests = 0
    · -- A body behind the argument list would make it the definition of a function.
      obtain ⟨hparenthesis, rfl⟩ := hfunction
      simp only [hparenthesis, Nat.lt_irrefl, if_true, if_false] at hbody ⊢
      by_cases hnext : behind.next = []
      · rw [hnext] at hbody ⊢
        rw [List.nil_append, hbody rfl rfl]
        rfl
      · rw [isGroup_append_of_ne_nil hnext]
    · by_cases hparenthesis : behind.isGroup .parenthesis = true
      · have hpos : 0 < nests := Nat.pos_of_ne_zero fun hzero => hfunction ⟨hparenthesis, hzero⟩
        rw [if_pos hparenthesis, if_pos hparenthesis, if_pos hpos, if_pos hpos]
      · rw [if_neg hparenthesis, if_neg hparenthesis]

theorem isEmpty_of_readNests {depth : Nat} {nests : List Declarator} {innermost : Level}
    (h : readNests scope depth level = .ok (nests, innermost)) :
    nests.isEmpty = decide (depth = 0) := by
  cases depth with
  | zero =>
    rw [readNests_zero] at h
    cases h
    rfl
  | succ depth =>
    obtain ⟨_, _, _, -, -, -, rfl⟩ := exists_of_readNests_succ h
    rfl

/-- A declarator that is read into an empty one ends in the dimensions behind its name or its nests.
-/
theorem lastDimensions_assemble (shared : Declarator) {nests : List Declarator} {innermost : Level}
    (arguments : List Declarator)
    (hnests : readNests scope (nestsAt level.afterQualifiers) level.afterQualifiers =
      .ok (nests, innermost)) :
    (assemble scope (some shared) {} level nests innermost arguments).lastDimensions =
      (behindName (nestsAt level.afterQualifiers) level.afterQualifiers).dimensions := by
  have hall : (assemble scope (some shared) {} level nests innermost arguments).nests = nests := rfl
  have hinner : (assemble scope (some shared) {} level nests innermost arguments).dimensions =
      (afterName innermost).dimensions := rfl
  have houter : (assemble scope (some shared) {} level nests innermost arguments).outerDimensions =
      dimensionsAfterNests (nestsAt level.afterQualifiers)
        (kindAt (nestsAt level.afterQualifiers) level.afterQualifiers) level.afterQualifiers := rfl
  rw [lastDimensions, hall, hinner, houter, dimensionsAfterNests_kindAt,
    isEmpty_of_readNests hnests]
  by_cases hdepth : nestsAt level.afterQualifiers = 0
  · rw [hdepth, readNests_zero] at hnests
    cases hnests
    simp [hdepth, behindName]
  · simp [hdepth]

theorem nestsAt_append_of_ne_nil {core : Level} (h : core ≠ []) (stop : Level) :
    nestsAt (core ++ stop) = nestsAt core := by
  have hcontents := groupContents?_append_of_ne_nil h stop .parenthesis
  cases hinside : core.groupContents? .parenthesis with
  | none => rw [nestsAt_of_none hinside, nestsAt_of_none (hcontents.trans hinside)]
  | some contents => rw [nestsAt_of_group hinside, nestsAt_of_group (hcontents.trans hinside)]

theorem readArgumentList_append_of_ne_nil (h : level ≠ []) (stop : Level) :
    readArgumentList scope (level ++ stop) = readArgumentList scope level := by
  have hcontents := groupContents?_append_of_ne_nil h stop .parenthesis
  cases hinside : level.groupContents? .parenthesis with
  | none =>
    rw [readArgumentList_of_none hinside, readArgumentList_of_none (hcontents.trans hinside)]
  | some contents =>
    rw [readArgumentList_of_group hinside, readArgumentList_of_group (hcontents.trans hinside)]

/-- The nests stand inside the current item.  Where there are none, the name and its dimensions
stand on the level itself. -/
theorem readNests_append_of_ends {core : Level} (h : core ≠ []) {depth : Nat}
    (hends : (behindName depth core).afterDimensions = [] → stop.isGroup .square = false)
    {nests : List Declarator} {innermost : Level}
    (hread : readNests scope depth core = .ok (nests, innermost)) :
    ∃ innermost', readNests scope depth (core ++ stop) = .ok (nests, innermost') ∧
      ∀ declarator, readName declarator innermost' = readName declarator innermost := by
  cases depth with
  | zero =>
    rw [readNests_zero] at hread
    cases hread
    have hname : atName (core ++ stop) = atName core := by
      rw [atName, atName, isIdentifier, isIdentifier, head?_append h, isToken_append h]
    have hdimensions : (afterName core ++ stop).dimensions = (afterName core).dimensions :=
      (dimensions_append_of_ends hends).1
    refine ⟨core ++ stop, readNests_zero scope _, fun declarator => ?_⟩
    rw [readName, readName, hname, Fortran.value?_append h, afterName_append h, hdimensions]
  | succ depth => exact ⟨innermost, by rw [readNests_succ_append h, hread], fun _ => rfl⟩

/-- A declarator that does not end in its qualifiers is read the same in front of anything that is
no part of it. -/
theorem read_append_of_endsBefore {shared result : Declarator} {rest : Level}
    (h : level.afterQualifiers ≠ [])
    (hread : read scope (some shared) {} level = .ok (result, rest))
    (hstop : rest = [] → result.EndsBefore stop) :
    read scope (some shared) {} (level ++ stop) = .ok (result, rest ++ stop) := by
  obtain ⟨hqualifiers, hafter⟩ := qualifiers_append h stop
  have hcore (level : Level) : afterTypePart scope (some shared) level = level.afterQualifiers :=
    rfl
  have htype : readType scope (some shared) {} (level ++ stop) =
      readType scope (some shared) {} level := by
    unfold readType
    dsimp only
    rw [hqualifiers]
  rw [read_eq_ok_iff] at hread ⊢
  obtain ⟨nests, innermost, arguments, hnests, hresult, hrest⟩ := hread
  rw [hcore] at hnests hrest
  have hlast := lastDimensions_assemble shared arguments hnests
  have hkind : result.kind = kindAt (nestsAt level.afterQualifiers) level.afterQualifiers := by
    rw [hresult]
    rfl
  have hfunction := isFunction_kindAt (nestsAt level.afterQualifiers) level.afterQualifiers
  rw [← hresult] at hlast
  rw [afterNests_kindAt, ← hkind] at hrest
  rw [← hkind] at hfunction
  -- What is left is empty where one of these levels is, and what stands behind is no part of the
  -- declarator.
  have hends :
      (behindName (nestsAt level.afterQualifiers) level.afterQualifiers).afterDimensions = [] →
      stop.isGroup .square = false := by
    intro hnil
    have hvariable : result.kind.isFunction = false := by
      rw [hfunction, Bool.eq_false_iff]
      intro hlist
      rw [(dimensions_of_parenthesis hlist).2] at hnil
      rw [hnil] at hlist
      cases hlist
    rw [if_neg (by simp [hvariable])] at hrest
    exact (hstop (hrest.2.trans hnil)).isGroup_eq_false (by simp [takes, hvariable])
  have hlist : behindName (nestsAt level.afterQualifiers) level.afterQualifiers = [] →
      stop.isGroup .parenthesis = false := by
    intro hnil
    rw [hnil] at hlast hrest hfunction
    have hvariable : result.kind.isFunction = false := hfunction
    rw [if_neg (by simp [hvariable])] at hrest
    exact (hstop hrest.2).isGroup_eq_false (by simp [takes, hvariable, hlast, Level.dimensions])
  have hbody : kindAt (nestsAt level.afterQualifiers) level.afterQualifiers = .functionDeclaration →
      (behindName (nestsAt level.afterQualifiers) level.afterQualifiers).next = [] →
        stop.isGroup .brace = false := by
    intro hdeclaration hnil
    rw [← hkind] at hdeclaration
    have hcalled : result.kind.isFunction = true := by rw [hdeclaration]; rfl
    rw [if_pos hcalled, (dimensions_of_parenthesis (hfunction ▸ hcalled)).2] at hrest
    exact (hstop (hrest.2.trans hnil)).isGroup_eq_false (by simp [takes, hdeclaration])
  have hkind' := kindAt_append_of_ends h _ hlist hbody
  have hdepth := nestsAt_append_of_ne_nil h stop
  obtain ⟨innermost', hnests', hname⟩ := readNests_append_of_ends h hends hnests
  obtain ⟨hdimensions, hbehind⟩ := dimensions_append_of_ends hends
  refine ⟨nests, innermost', arguments, ?_, ?_, ?_⟩
  · rw [hcore, hafter, hdepth]
    exact hnests'
  · have houter : dimensionsAfterNests (nestsAt level.afterQualifiers)
        (kindAt (nestsAt level.afterQualifiers) (level.afterQualifiers ++ stop))
          (level.afterQualifiers ++ stop) =
          dimensionsAfterNests (nestsAt level.afterQualifiers)
            (kindAt (nestsAt level.afterQualifiers) level.afterQualifiers)
                level.afterQualifiers := by
      rw [dimensionsAfterNests_kindAt, dimensionsAfterNests_kindAt, behindName_append h,
        hdimensions]
    rw [hresult]
    unfold assemble
    dsimp only
    rw [hcore, hcore, hafter, hdepth, houter, hkind', htype, hname]
  · rw [hcore, hafter, hdepth, afterNests_kindAt, hkind', ← hkind, behindName_append h, hbehind]
    split at hrest
    · rename_i hcalled
      obtain ⟨harguments, hrest⟩ := hrest
      have hne :
          (behindName (nestsAt level.afterQualifiers) level.afterQualifiers).afterDimensions ≠
          [] := by
        intro hnil
        rw [hnil, readArgumentList_of_none rfl] at harguments
        cases harguments
      rw [if_pos hcalled, readArgumentList_append_of_ne_nil hne, next_append hne, hrest]
      exact ⟨harguments, rfl⟩
    · rename_i hcalled
      rw [if_neg hcalled, hrest.2]
      exact ⟨hrest.1, rfl⟩

end Declarator

end CommonDecl

import CommonDecl.Proofs.Boundaries

/-!
# The rounds of a loop

Each list in the grammar is read by a loop, of which one round reads one entry.  The rounds are
written down as they are done, without a condition that makes them end
(`Declaration.statementRound`, `TypeDecl.memberRound`, …), and `Runs` counts them.  Since every
round takes at least one item (`exists_runs`), each loop is over after no more rounds than the level
has items, and gives what its reader gives (`loopsEnd`).  `Session.proceeds` puts together how
statements go on along a source.
-/

namespace CommonDecl

open Level

/-! ### Counting rounds -/

/-- What the next round of a loop comes to: there is none, it is the last one, or the loop goes on
from another state. -/
inductive Round (σ ρ : Type) where
  | ended (result : ρ)
  | last (result : ρ)
  | again (state : σ)

section

variable {σ ρ : Type} {round : σ → Round σ ρ}

/-- A loop that is started in a state gives a result after a number of rounds. -/
inductive Runs (round : σ → Round σ ρ) : Nat → σ → ρ → Prop
  | ended {state : σ} {result : ρ} : round state = .ended result → Runs round 0 state result
  | last {state : σ} {result : ρ} : round state = .last result → Runs round 1 state result
  | again {count : Nat} {state next : σ} {result : ρ} :
      round state = .again next → Runs round count next result → Runs round (count + 1) state result

/-- A round takes at least one of the items that are left, and does not change what the loop will
give. -/
def Round.Advances (items : σ → Nat) (given : σ → ρ) (state : σ) : Round σ ρ → Prop
  | ended result => given state = result
  | last result => given state = result ∧ 0 < items state
  | again next => given state = given next ∧ items next < items state

/-- A loop whose every round takes an item is over after no more rounds than there are items. -/
theorem exists_runs (items : σ → Nat) (given : σ → ρ)
    (h : ∀ state, (round state).Advances items given state) (state : σ) :
    ∃ rounds ≤ items state, Runs round rounds state (given state) := by
  -- By induction on the items that are left, of which every round takes one.
  induction hitems : items state using Nat.strong_induction_on generalizing state with
  | _ count ih =>
    subst hitems
    have hround := h state
    cases hnext : round state with
    | ended result =>
      rw [hnext] at hround
      have hgiven : given state = result := hround
      exact ⟨0, Nat.zero_le _, hgiven ▸ .ended hnext⟩
    | last result =>
      rw [hnext] at hround
      obtain ⟨hgiven, hpos⟩ := hround
      exact ⟨1, hpos, hgiven ▸ .last hnext⟩
    | again next =>
      rw [hnext] at hround
      obtain ⟨hgiven, hlt⟩ := hround
      obtain ⟨rounds, hrounds, hruns⟩ := ih (items next) hlt next rfl
      exact ⟨rounds + 1, by omega, hgiven ▸ .again hnext hruns⟩

end

/-! ### What is found so far -/

section

variable {m : Type → Type} [Monad m] [LawfulMonad m] {α β : Type}

/-- Entries that are put in front of what a list reader finds. -/
theorem map_append_cons (found : List α) (entry : α) (x : m (List α)) :
    (found ++ ·) <$> (do return entry :: (← x)) = (found ++ [entry] ++ ·) <$> x := by
  simp

/-- Entries that are put in front of what a list reader finds beside a rest. -/
theorem map_append_cons_rest (found : List α) (entry : α) (x : m (List α × β)) :
    (fun result => (found ++ result.1, result.2)) <$>
        (do
          let (others, rest) ← x
          return (entry :: others, rest)) =
      (fun result => (found ++ [entry] ++ result.1, result.2)) <$> x := by
  simp

end

/-! ### Lists of declarators -/

namespace Level

variable {α : Type}

/-- One declarator of a list, with what follows it. -/
def separatedRound (read : Level → Except Fault (α × Level)) :
    List α × Level → Round (List α × Level) (Except Fault (List α × Level))
  | (found, level) =>
    if level.atStatementEnd then .ended (.ok (found, level))
    else
      match read level with
      | .error fault => .last (.error fault)
      | .ok (declarator, rest) => .again (found ++ [declarator], rest.afterDeclarator)

/-- A list of declarators is over after no more rounds than the level has items, where reading
one of them leaves a rest of its level. -/
theorem runs_readSeparated {read : Level → Except Fault (α × Level)}
    (hread : ∀ {level a rest}, read level = .ok (a, rest) → rest <:+ level) (level : Level) :
    ∃ rounds ≤ level.length,
      Runs (separatedRound read) rounds ([], level) (readSeparated read level) := by
  -- What is found so far stands in front of what the reader finds on the rest.
  suffices h : ∀ state, (separatedRound read state).Advances (fun state => state.2.length)
      (fun state => (fun result => (state.1 ++ result.1, result.2)) <$> readSeparated read state.2)
      state by
    simpa using exists_runs _ _ h ([], level)
  rintro ⟨found, level⟩
  rw [separatedRound]
  split
  · rename_i hend
    rw [Round.Advances, readSeparated, if_pos hend, map_pure, List.append_nil]
    rfl
  · rename_i hend
    have hend' := Bool.eq_false_iff.mpr hend
    have hne : level ≠ [] := fun hnil => hend (atStatementEnd_iff.mpr (Or.inl hnil))
    split
    · rename_i fault hfirst
      refine ⟨?_, List.length_pos_iff.mpr hne⟩
      dsimp only
      rw [readSeparated, if_neg hend, hfirst]
      rfl
    · rename_i declarator rest hfirst
      have hlt : rest.afterDeclarator.length < level.length := length_lt_of_suffix_next hne
        (afterDeclarator_progress (isToken_semicolon_of_atStatementEnd hend') (hread hfirst))
      refine ⟨?_, hlt⟩
      dsimp only
      rw [readSeparated, if_neg hend, hfirst]
      show _ <$> (if _ then _ else _) = _
      rw [if_pos hlt]
      exact map_append_cons_rest _ _ _

end Level

variable {scope : Scope} {level rest : Level}

namespace Declaration

/-- One further declarator of a statement.  A round that comes to no comma is not begun. -/
def furtherRound (scope : Scope) (first : Declarator) :
    List Declarator × Declarator × Level →
      Round (List Declarator × Declarator × Level) (Except Fault (List Declarator × Level))
  | (found, last, level) =>
    if last.kind = .functionDefinition ∧ level.isGroup .brace then .last (.ok (found, level.next))
    else if (level.skipToAny [",", ";"]).isToken "," then
      match Declarator.read scope (some first) {} level.afterDeclarator with
      | .error fault => .last (.error fault)
      | .ok (declarator, rest) => .again (found ++ [declarator], declarator, rest)
    else .ended (.ok (found, level.skipToAny [",", ";"]))

theorem runs_readFurther (scope : Scope) (first last : Declarator) (level : Level) :
    ∃ rounds ≤ level.length,
      Runs (furtherRound scope first) rounds ([], last, level)
        (readFurther scope first last level) := by
  -- What is found so far stands in front of what the reader finds on the rest.
  suffices h : ∀ state, (furtherRound scope first state).Advances (fun state => state.2.2.length)
      (fun state => (fun result => (state.1 ++ result.1, result.2)) <$>
        readFurther scope first state.2.1 state.2.2) state by
    simpa using exists_runs _ _ h ([], last, level)
  rintro ⟨found, last, level⟩
  rw [furtherRound]
  split
  · rename_i hbody
    have hne : level ≠ [] := by
      rintro rfl
      cases hbody.2
    refine ⟨?_, List.length_pos_iff.mpr hne⟩
    dsimp only
    rw [readFurther, if_pos hbody, map_pure, List.append_nil]
    rfl
  · rename_i hbody
    split
    · rename_i hcomma
      -- The comma is at least one item, wherever on the level it stands.
      have hshorter : level.afterDeclarator.length < level.length := by
        have hskip := skipToAny_suffix level [",", ";"]
        rw [afterDeclarator, if_pos hcomma]
        exact Nat.lt_of_lt_of_le
          (length_lt_of_suffix_next (ne_nil_of_isToken hcomma) (List.suffix_refl _)) hskip.length_le
      split
      · rename_i fault hread
        refine ⟨?_, Nat.zero_lt_of_lt hshorter⟩
        dsimp only
        rw [readFurther, if_neg hbody, if_pos hcomma, hread]
        rfl
      · rename_i declarator rest hread
        have hlt : rest.length < level.length :=
          Nat.lt_of_le_of_lt (Declarator.read_rest hread).length_le hshorter
        refine ⟨?_, hlt⟩
        dsimp only
        rw [readFurther, if_neg hbody, if_pos hcomma, hread]
        show _ <$> (if _ then _ else _) = _
        rw [if_pos hlt]
        exact map_append_cons_rest _ _ _
    · rename_i hcomma
      rw [Round.Advances, readFurther, if_neg hbody, if_neg hcomma, map_pure, List.append_nil]
      rfl

end Declaration

namespace TypeDecl

/-- One further name of a typedef. -/
def siblingRound (qualifiers : Qualifiers) (aliased : TypeRef) :
    List Declarator × Scope × Level →
      Round (List Declarator × Scope × Level)
        (EStateM.Result Fault Scope (List Declarator × Level))
  | (found, scope, level) =>
    if level.isToken "," then
      match readNamedDeclarator aliased (.unnamedSibling aliased.name) level.next scope with
      | .error fault scope => .last (.error fault scope)
      | .ok (name, declarator, rest) scope =>
        match Reading.register (.synonym qualifiers name ⟨aliased, none, declarator⟩) scope with
        | .error fault scope => .last (.error fault scope)
        | .ok _ scope => .again (found ++ [declarator], scope, rest)
    else .ended (.ok (found, level) scope)

theorem runs_readSiblings (qualifiers : Qualifiers) (aliased : TypeRef) (scope : Scope)
    (level : Level) :
    ∃ rounds ≤ level.length,
      Runs (siblingRound qualifiers aliased) rounds ([], scope, level)
        (readSiblings qualifiers aliased level scope) := by
  -- What is found so far stands in front of what the reader finds on the rest.
  suffices h : ∀ state, (siblingRound qualifiers aliased state).Advances
      (fun state => state.2.2.length)
      (fun state => ((fun result => (state.1 ++ result.1, result.2)) <$>
        readSiblings qualifiers aliased state.2.2) state.2.1) state by
    simpa using exists_runs _ _ h ([], scope, level)
  rintro ⟨found, scope, level⟩
  rw [siblingRound]
  split
  · rename_i hcomma
    have hne := ne_nil_of_isToken hcomma
    split
    · rename_i fault scope' hread
      refine ⟨?_, List.length_pos_iff.mpr hne⟩
      dsimp only
      rw [readSiblings, if_pos hcomma, map_bind, bind_of_error hread]
    · rename_i name declarator rest scope' hread
      have hrest := (readNamedDeclarator_passes _ _ (admits_true _) _).of_ok hread
      have hlt := length_lt_of_suffix_next hne hrest.suffix
      split
      · rename_i hregister
        cases hregister
      · rename_i ref scope'' hregister
        refine ⟨?_, hlt⟩
        dsimp only
        rw [readSiblings, if_pos hcomma, map_bind, bind_of_ok hread]
        dsimp only
        rw [map_bind, bind_of_ok hregister, if_pos hlt]
        exact congrFun (map_append_cons_rest _ _ _) scope''
  · rename_i hcomma
    rw [Round.Advances, readSiblings, if_neg hcomma, map_pure, List.append_nil]
    rfl

/-- One entry of a body: a `;` between its statements, or a statement. -/
def memberRound :
    List Member × Scope × Level →
      Round (List Member × Scope × Level) (EStateM.Result Fault Scope (List Member))
  | (found, scope, level) =>
    if level.atEnd then .ended (.ok found scope)
    else if level.isToken ";" then .again (found, scope, level.next)
    else
      match Declaration.read level scope with
      | .error fault scope => .last (.error fault scope)
      | .ok (declaration, rest) scope => .again (found ++ [.declaration declaration], scope, rest)

/-- The members of a body are over after no more rounds than it has items. -/
theorem runs_readMembers (scope : Scope) (level : Level) :
    ∃ rounds ≤ level.length,
      Runs memberRound rounds ([], scope, level) (readMembers level scope) := by
  -- What is found so far stands in front of what the reader finds on the rest.
  suffices h : ∀ state, (memberRound state).Advances (fun state => state.2.2.length)
      (fun state => ((state.1 ++ ·) <$> readMembers state.2.2) state.2.1) state by
    simpa using exists_runs _ _ h ([], scope, level)
  rintro ⟨found, scope, level⟩
  rw [memberRound]
  cases level with
  | nil =>
    rw [if_pos (show atEnd [] = true from rfl), Round.Advances, readMembers, map_pure,
      List.append_nil]
    rfl
  | cons item items =>
    rw [if_neg (show ¬ atEnd (item :: items) = true from Bool.false_ne_true)]
    split
    · rename_i hsemicolon
      have hitem : item.isToken ";" = true := hsemicolon
      refine ⟨?_, Nat.lt_succ_self _⟩
      dsimp only
      rw [readMembers, if_pos hitem]
      rfl
    · rename_i hsemicolon
      have hitem : ¬ item.isToken ";" = true := hsemicolon
      have hend : atStatementEnd (item :: items) = false :=
        Bool.eq_false_iff.mpr fun h =>
          hsemicolon ((atStatementEnd_iff.mp h).resolve_left (List.cons_ne_nil item items))
      split
      · rename_i fault scope' hread
        refine ⟨?_, Nat.succ_pos _⟩
        dsimp only
        rw [readMembers, if_neg hitem, map_bind, bind_of_error hread]
      · rename_i declaration rest scope' hread
        have hrest := (Declaration.read_progress hend scope).of_ok hread
        have hlighter := weight_lt_of_suffix_next (List.cons_ne_nil item items) hrest
        refine ⟨?_, length_lt_of_suffix_next (List.cons_ne_nil item items) hrest⟩
        dsimp only
        rw [readMembers, if_neg hitem, map_bind, bind_of_ok hread]
        dsimp only
        rw [if_pos hlighter]
        exact congrFun (map_append_cons _ _ _) scope'

end TypeDecl

/-! ### Lists of arguments -/

namespace Declarator

/-- One argument, with what follows it up to the next comma. -/
def argumentRound (scope : Scope) :
    List Declarator × Level → Round (List Declarator × Level) (Except Fault (List Declarator))
  | (found, level) =>
    if level.atEnd then .ended (.ok found)
    else
      match read scope none {} level with
      | .error fault => .last (.error fault)
      | .ok (argument, rest) => .again (found ++ [argument], rest.skipPast ",")

/-- The arguments of a level are over after no more rounds than it has items. -/
theorem runs_readArguments (scope : Scope) (level : Level) :
    ∃ rounds ≤ level.length,
      Runs (argumentRound scope) rounds ([], level) (readArguments scope level) := by
  -- What is found so far stands in front of what the reader finds on the rest.
  suffices h : ∀ state, (argumentRound scope state).Advances (fun state => state.2.length)
      (fun state => (state.1 ++ ·) <$> readArguments scope state.2) state by
    simpa using exists_runs _ _ h ([], level)
  rintro ⟨found, level⟩
  rw [argumentRound]
  split
  · rename_i hend
    rw [Round.Advances, readArguments, if_pos hend, map_pure, List.append_nil]
    rfl
  · rename_i hend
    have hne : level ≠ [] := by
      rintro rfl
      exact hend rfl
    split
    · rename_i fault hread
      refine ⟨?_, List.length_pos_iff.mpr hne⟩
      dsimp only
      rw [readArguments, if_neg hend, hread]
      rfl
    · rename_i argument rest hread
      -- Even an empty argument has something behind it that is taken.
      have hskip : rest.skipPast "," <:+ level.next := skipPast_progress (read_rest hread)
      refine ⟨?_, length_lt_of_suffix_next hne hskip⟩
      dsimp only
      rw [readArguments, if_neg hend, hread]
      show _ <$> (if _ then _ else _) = _
      rw [if_pos (weight_lt_of_suffix_next hne hskip)]
      exact map_append_cons _ _ _

end Declarator

namespace Fortran

/-- One argument name, with what follows it up to the next comma. -/
def argumentNameRound :
    List Declarator × Level → Round (List Declarator × Level) (List Declarator)
  | (found, list) =>
    if list = [] then .ended found
    else
      .again (found ++ (if list.isIdentifier then [{ name := list.value? }] else []),
        list.skipPast ",")

theorem runs_argumentNames (list : Level) :
    ∃ rounds ≤ list.length, Runs argumentNameRound rounds ([], list) (argumentNames list) := by
  suffices h : ∀ state, (argumentNameRound state).Advances (fun state => state.2.length)
      (fun state => state.1 ++ argumentNames state.2) state by
    simpa using exists_runs _ _ h ([], list)
  rintro ⟨found, list⟩
  rw [argumentNameRound]
  split
  · rename_i hnil
    rw [Round.Advances, argumentNames, dif_pos hnil, List.append_nil]
  · rename_i hne
    refine ⟨?_, length_skipPast_lt hne ","⟩
    dsimp only
    rw [argumentNames, dif_neg hne, List.append_assoc]

/-! ### Lists of attributes -/

/-- One attribute, or the `::` after the last one.  The list goes on after a comma only. -/
def attributeRound (scope : Scope) :
    Bool × Declarator × Level →
      Round (Bool × Declarator × Level) (EStateM.Result Fault Declarator (Bool × Level))
  | (deferred, declarator, level) =>
    if level.atEnd then .ended (.ok (deferred, level) declarator)
    else if level.isToken "::" then .last (.ok (deferred, level.next) declarator)
    else
      match applyAttribute scope level declarator with
      | .error fault declarator => .last (.error fault declarator)
      | .ok none declarator => .last (.ok (deferred, level) declarator)
      | .ok (some (deferredHere, rest)) declarator =>
        if rest.isToken "," then .again (deferred || deferredHere, declarator, rest.next)
        else
          .last (.ok (deferred || deferredHere, if rest.isToken "::" then rest.next else rest)
            declarator)

/-- The attributes of a level are over after no more rounds than it has items. -/
theorem runs_applyAttributes (scope : Scope) (deferred : Bool) (declarator : Declarator)
    (level : Level) :
    ∃ rounds ≤ level.length,
      Runs (attributeRound scope) rounds (deferred, declarator, level)
        (applyAttributes scope deferred level declarator) := by
  refine exists_runs (fun state => state.2.2.length)
    (fun state => applyAttributes scope state.1 state.2.2 state.2.1) ?_
    (deferred, declarator, level)
  rintro ⟨deferred, declarator, level⟩
  rw [attributeRound]
  split
  · rename_i hend
    rw [Round.Advances, applyAttributes, if_pos hend]
    rfl
  · rename_i hend
    have hne : level ≠ [] := by
      rintro rfl
      exact hend rfl
    have hpos : 0 < level.length := List.length_pos_iff.mpr hne
    split
    · rename_i hcolons
      refine ⟨?_, hpos⟩
      dsimp only
      rw [applyAttributes, if_neg hend, if_pos hcolons]
      rfl
    · rename_i hcolons
      split
      · rename_i fault declarator' hattribute
        refine ⟨?_, hpos⟩
        dsimp only
        rw [applyAttributes, if_neg hend, if_neg hcolons, bind_of_error hattribute]
      · rename_i declarator' hattribute
        refine ⟨?_, hpos⟩
        dsimp only
        rw [applyAttributes, if_neg hend, if_neg hcolons, bind_of_ok hattribute]
        rfl
      · rename_i deferredHere rest declarator' hattribute
        have hrest := (applyAttribute_passes scope (admits_true level) declarator).of_ok hattribute
          deferredHere rest rfl
        split
        · rename_i hcomma
          -- The comma is an item, whatever the attribute in front of it took.
          have hshorter := length_lt_of_suffix_next (ne_nil_of_isToken hcomma) (List.suffix_refl _)
          have hlt : rest.next.length < level.length :=
            Nat.lt_of_lt_of_le hshorter hrest.suffix.length_le
          refine ⟨?_, hlt⟩
          dsimp only
          rw [applyAttributes, if_neg hend, if_neg hcolons, bind_of_ok hattribute]
          dsimp only
          rw [if_pos ⟨hcomma, hlt⟩]
        · -- Without a comma the list is over, whatever the attribute took.
          rename_i hcomma
          refine ⟨?_, hpos⟩
          dsimp only
          rw [applyAttributes, if_neg hend, if_neg hcolons, bind_of_ok hattribute]
          dsimp only
          rw [if_neg fun h => hcomma h.1]
          rfl

end Fortran

/-! ### Statements -/

namespace Declaration

/-- One statement of a source. -/
def statementRound (dialect : Dialect) :
    List Declaration × Scope × Level → Round (List Declaration × Scope × Level) Outcome
  | (found, scope, level) =>
    match next? dialect level scope with
    | .error fault scope => .last ⟨found, some fault, scope⟩
    | .ok none scope => .ended ⟨found, none, scope⟩
    | .ok (some (declaration, rest)) scope => .again (found ++ [declaration], scope, rest)

/-- A statement leaves less of the level than there was. -/
theorem next?_shorter (dialect : Dialect) (level : Level) (scope : Scope) :
    Ends (next? dialect level) scope
      (fun result _ => ∀ declaration rest, result = some (declaration, rest) →
        rest.length < level.length)
      (fun _ => 0 < level.length) := by
  have hle := (afterEmptyStatements_suffix level).length_le
  refine (next?_progress dialect level scope).mono ?_ fun _ hne => ?_
  · intro result _ hresult declaration rest h
    obtain ⟨hne, hrest⟩ := hresult declaration rest h
    have hlt := length_lt_of_suffix_next hne hrest
    omega
  · have hpos := List.length_pos_iff.mpr hne
    omega

/-- After a statement, the statements of the rest are read. -/
theorem readAll_of_next? {dialect : Dialect} {level rest : Level} {scope after : Scope}
    {declaration : Declaration}
    (h : next? dialect level scope = .ok (some (declaration, rest)) after) :
    readAll dialect scope level =
      { readAll dialect after rest with
        declarations := declaration :: (readAll dialect after rest).declarations } := by
  have hlt : rest.length < level.length :=
    (next?_shorter dialect level scope).of_ok h declaration rest rfl
  rw [readAll, h]
  dsimp only
  rw [if_pos hlt]

/-- Empty statements in front change nothing. -/
theorem readAll_congr {level level' : Level}
    (h : afterEmptyStatements level = afterEmptyStatements level') (dialect : Dialect)
    (scope : Scope) : readAll dialect scope level = readAll dialect scope level' := by
  have hsame : next? dialect level scope = next? dialect level' scope := by
    rw [next?, next?, h]
  cases hnext : next? dialect level' scope with
  | error fault after =>
    rw [readAll, readAll, hsame, hnext]
  | ok result after =>
    cases result with
    | none =>
      rw [readAll, readAll, hsame, hnext]
    | some result =>
      rw [readAll_of_next? hnext, readAll_of_next? (hsame.trans hnext)]

/-- Behind the last statement nothing is read. -/
theorem readAll_of_atEnd {dialect : Dialect} {level : Level} (h : afterEmptyStatements level = [])
    (scope : Scope) : readAll dialect scope level = ⟨[], none, scope⟩ := by
  have hnext : next? dialect level scope = .ok none scope := by
    rw [next?, h]
    rfl
  rw [readAll, hnext]

/-- A statement behind the empty ones is the next declaration. -/
theorem next?_of_readIn (dialect : Dialect) {level rest : Level} {scope after : Scope}
    {declaration : Declaration} (hne : afterEmptyStatements level ≠ [])
    (h : readIn dialect (afterEmptyStatements level) scope = .ok (declaration, rest) after) :
    next? dialect level scope = .ok (some (declaration, rest)) after := by
  have hnotEnd : ¬ (afterEmptyStatements level).atEnd = true :=
    fun hend => hne (List.isEmpty_iff.mp hend)
  rw [next?, if_neg hnotEnd]
  exact bind_apply_eq_ok_iff.mpr ⟨_, _, h, rfl⟩

/-- Where a level is read without a fault, its first statement is, and so is the rest. -/
theorem exists_next_of_readAll {dialect : Dialect} {level : Level} {scope : Scope}
    (hne : afterEmptyStatements level ≠ []) (hfault : (readAll dialect scope level).fault? = none) :
    ∃ declaration rest after,
      readIn dialect (afterEmptyStatements level) scope = .ok (declaration, rest) after ∧
      next? dialect level scope = .ok (some (declaration, rest)) after ∧
      (readAll dialect after rest).fault? = none := by
  have hnotEnd : ¬ (afterEmptyStatements level).atEnd = true :=
    fun hend => hne (List.isEmpty_iff.mp hend)
  -- A fault of the first statement would be the fault of the whole level.
  cases hread : readIn dialect (afterEmptyStatements level) scope with
  | error fault after =>
    have hnext : next? dialect level scope = .error fault after := by
      rw [next?, if_neg hnotEnd]
      exact bind_of_error hread
    rw [readAll, hnext] at hfault
    cases hfault
  | ok result after =>
    obtain ⟨declaration, rest⟩ := result
    have hnext := next?_of_readIn dialect hne hread
    rw [readAll_of_next? hnext] at hfault
    exact ⟨declaration, rest, after, rfl, hnext, hfault⟩

/-- A source is read as the statements of its tokens, all of them without a fault. -/
theorem ofSource_eq_ok_iff {dialect : Dialect} {source : String} {declarations : List Declaration}
    {scope after : Scope} :
    ofSource dialect source scope = .ok declarations after ↔
      ∃ trees, TokenTree.ofSource dialect scope source = .ok trees ∧
        readAll dialect scope (TokenTree.items Node.rolesOf trees) = ⟨declarations, none,
          after⟩ := by
  rw [ofSource, Node.ofSource]
  -- A text that is not cut into trees gives no declarations at all.
  cases TokenTree.ofSource dialect scope source with
  | error fault =>
    constructor
    · rintro ⟨⟩
    · rintro ⟨_, ⟨⟩, _⟩
  | ok trees =>
    rw [Except.map]
    dsimp only
    rw [Node.items_ofTrees]
    constructor
    · intro h
      refine ⟨trees, rfl, ?_⟩
      split at h
      · rename_i hread
        cases h
        exact hread
      · cases h
    · rintro ⟨_, ⟨⟩, hread⟩
      rw [hread]

/-- The statements of a level are over after no more rounds than it has items. -/
theorem runs_readAll (dialect : Dialect) (scope : Scope) (level : Level) :
    ∃ rounds ≤ level.length,
      Runs (statementRound dialect) rounds ([], scope, level) (readAll dialect scope level) := by
  refine exists_runs (fun state => state.2.2.length)
    (fun state => { readAll dialect state.2.1 state.2.2 with
      declarations := state.1 ++ (readAll dialect state.2.1 state.2.2).declarations }) ?_
    ([], scope, level)
  rintro ⟨found, scope, level⟩
  have hshorter := next?_shorter dialect level scope
  rw [statementRound]
  split
  · rename_i fault scope' hnext
    refine ⟨?_, (ends_of_error hnext).mp hshorter⟩
    dsimp only
    rw [readAll, hnext]
    simp
  · rename_i scope' hnext
    rw [Round.Advances, readAll, hnext]
    simp
  · rename_i declaration rest scope' hnext
    have hlt : rest.length < level.length := hshorter.of_ok hnext declaration rest rfl
    refine ⟨?_, hlt⟩
    dsimp only
    rw [readAll_of_next? hnext]
    simp

end Declaration

/-- Every loop that is started on a level is over after no more rounds than the level has items, and
gives what its reader gives. -/
structure LoopsEnd (scope : Scope) (level : Level) : Prop where
  statements : ∀ dialect, ∃ rounds ≤ level.length,
    Runs (Declaration.statementRound dialect) rounds ([], scope, level)
      (Declaration.readAll dialect scope level)
  members : ∃ rounds ≤ level.length,
    Runs TypeDecl.memberRound rounds ([], scope, level) (TypeDecl.readMembers level scope)
  /-- The variables beside a type. -/
  instances : ∀ ref, ∃ rounds ≤ level.length,
    let read := Declarator.read scope (some (Declarator.ofBase ref)) {}
    Runs (Level.separatedRound read) rounds ([], level) (level.readSeparated read)
  /-- The further names of a typedef. -/
  siblings : ∀ qualifiers aliased, ∃ rounds ≤ level.length,
    Runs (TypeDecl.siblingRound qualifiers aliased) rounds ([], scope, level)
      (TypeDecl.readSiblings qualifiers aliased level scope)
  /-- The variables after the first one. -/
  further : ∀ first last, ∃ rounds ≤ level.length,
    Runs (Declaration.furtherRound scope first) rounds ([], last, level)
      (Declaration.readFurther scope first last level)
  arguments : ∃ rounds ≤ level.length,
    Runs (Declarator.argumentRound scope) rounds ([], level) (Declarator.readArguments scope level)
  /-- The entities of a statement of Fortran. -/
  entities : ∀ shared, ∃ rounds ≤ level.length,
    let read level := .ok (Fortran.readEntity scope (Fortran.withAttributesOf shared {}) level)
    Runs (Level.separatedRound read) rounds ([], level) (level.readSeparated read)
  argumentNames : ∃ rounds ≤ level.length,
    Runs Fortran.argumentNameRound rounds ([], level) (Fortran.argumentNames level)
  attributes : ∀ deferred declarator, ∃ rounds ≤ level.length,
    Runs (Fortran.attributeRound scope) rounds (deferred, declarator, level)
      (Fortran.applyAttributes scope deferred level declarator)

theorem loopsEnd (scope : Scope) (level : Level) : LoopsEnd scope level where
  statements dialect := Declaration.runs_readAll dialect scope level
  members := TypeDecl.runs_readMembers scope level
  instances _ := Level.runs_readSeparated Declarator.read_rest level
  siblings qualifiers aliased := TypeDecl.runs_readSiblings qualifiers aliased scope level
  further first last := Declaration.runs_readFurther scope first last level
  arguments := Declarator.runs_readArguments scope level
  entities _ := Level.runs_readSeparated Fortran.readEntity_rest level
  argumentNames := Fortran.runs_argumentNames level
  attributes deferred declarator := Fortran.runs_applyAttributes scope deferred declarator level

/-! ### How statements go on along a source -/

/-- How reading goes on from a level. -/
structure Proceeds (scope : Scope) (level : Level) : Prop where
  /-- The next statement leaves a rest of the level.  The items that it takes after the empty
  statements before it are at least one, and none of them but the last one is a `;`. -/
  statement : ∀ dialect declaration rest scope',
    Declaration.next? dialect level scope = .ok (some (declaration, rest)) scope' →
      rest.length < level.length ∧
        ∃ taken, Declaration.afterEmptyStatements level = taken ++ rest ∧ taken ≠ [] ∧
          ∀ item ∈ taken.dropLast, item.isToken ";" = false
  /-- A statement in a body takes at least one item, unless the body is at its end or at a `;`. -/
  member : level ≠ [] → level.isToken ";" = false → ∀ declaration rest scope',
    Declaration.read level scope = .ok (declaration, rest) scope' →
      rest <:+ level ∧ rest.length < level.length
  loops : LoopsEnd scope level

/-- In a session that reads sources, with settings that leave the `;` alone, reading goes on from
every place in a source: each statement takes at least one item and stays before the next `;`, and
every loop is over after no more rounds than there are items. -/
theorem Session.proceeds {settings : Settings} (hsettings : settings.PlainSemicolon)
    (hidden : List String) {parses : List Parse}
    (hparses : ∀ parse ∈ parses, parse.OfSource settings) {level : Level}
    (hlevel : SourceLevel settings level) :
    Proceeds ((start settings hidden).run parses).scope level := by
  have hplain := hlevel.plainSemicolons hsettings
  have hknows := knows_semicolon hsettings hidden hparses
  generalize ((start settings hidden).run parses).scope = scope at hknows
  constructor
  case statement =>
    intro dialect declaration rest scope' hnext
    have hlt := (Declaration.next?_shorter dialect level scope).of_ok hnext declaration rest rfl
    obtain ⟨hne, hrest⟩ :=
      (Declaration.next?_progress dialect level scope).of_ok hnext declaration rest rfl
    obtain ⟨taken, htaken, hstays⟩ :=
      (Declaration.next?_stays dialect hplain hknows).of_ok hnext declaration rest rfl
    refine ⟨hlt, taken, htaken, ?_, hstays⟩
    -- A statement that took nothing would leave what it started with.
    rintro rfl
    have hless := length_lt_of_suffix_next hne hrest
    rw [htaken, List.nil_append] at hless
    exact Nat.lt_irrefl _ hless
  case member =>
    intro hne hsemicolon declaration rest scope' hread
    -- In front of a member there is neither the end of the body nor a `;`.
    have hend : level.atStatementEnd = false := by
      rw [Bool.eq_false_iff]
      intro h
      rcases atStatementEnd_iff.mp h with hnil | htoken
      · exact hne hnil
      · rw [hsemicolon] at htoken
        cases htoken
    have hrest := (Declaration.read_progress hend scope).of_ok hread
    exact ⟨hrest.trans (next_suffix level), length_lt_of_suffix_next hne hrest⟩
  case loops => exact loopsEnd scope level

/-- A source with an empty statement and an empty declarator, read after another one. -/
theorem Session.proceeds_point :
    (∀ parse ∈ [Parse.source .c "struct P \x7b int x; \x7d;"], parse.OfSource {}) ∧
      ∃ trees, TokenTree.ofSource .c (Scope.ofSettings {}) "; P p, , = 1; int f(,);" = .ok trees ∧
        Proceeds ((start {} []).run [.source .c "struct P \x7b int x; \x7d;"]).scope
          (Node.ofTrees trees).items := by
  have hsettings : ({} : Settings).PlainSemicolon := ⟨by decide, by decide⟩
  have hparses : ∀ parse ∈ [Parse.source .c "struct P \x7b int x; \x7d;"], parse.OfSource {} := by
    simp [Parse.OfSource]
  have hok :
      (TokenTree.ofSource .c (Scope.ofSettings {}) "; P p, , = 1; int f(,);").isOk = true := by
    decide +kernel
  refine ⟨hparses, ?_⟩
  cases htrees : TokenTree.ofSource .c (Scope.ofSettings {}) "; P p, , = 1; int f(,);" with
  | error fault =>
    rw [htrees] at hok
    cases hok
  | ok trees =>
    have hlevel : SourceLevel {} (Node.ofTrees trees).items :=
      ⟨.c, Scope.ofSettings {}, _, trees, rfl, htrees, Or.inl .start⟩
    exact ⟨trees, rfl, proceeds hsettings [] hparses hlevel⟩

end CommonDecl

import CommonDecl.Scope

/-!
# Reasoning about reading steps

`Ends step state done failed` says how a step that was started in `state` ends: in a result and a
state that `done` holds of, or, where the step fails, in a state that `failed` holds of.  Each way
to build a step has one lemma that takes such a statement apart (`ends_bind`, `ends_ofExcept`, …),
so a statement about a reader follows from statements about the readers it calls.
-/

namespace CommonDecl

/-! ### Steps without a state -/

/-- A sequence of two steps succeeds exactly when both do. -/
theorem bind_eq_ok_iff {α β : Type} {x : Except Fault α} {f : α → Except Fault β} {b : β} :
    x >>= f = .ok b ↔ ∃ a, x = .ok a ∧ f a = .ok b := by
  cases x with
  | error fault => simp [bind, Except.bind]
  | ok a => simp [bind, Except.bind]

/-- A sequence of two steps succeeds if the first one does, and the second one on what it gives. -/
theorem exists_bind_ok {α β : Type} {x : Except Fault α} {f : α → Except Fault β}
    (h : ∃ a, x = .ok a) (hf : ∀ a, x = .ok a → ∃ b, f a = .ok b) : ∃ b, x >>= f = .ok b := by
  obtain ⟨a, ha⟩ := h
  obtain ⟨b, hb⟩ := hf a ha
  exact ⟨b, bind_eq_ok_iff.mpr ⟨a, ha, hb⟩⟩

/-! ### Steps with a state -/

variable {σ α β : Type} {s s' : σ}

/-- A step started in `s` ends in a result and a state with `done`, or fails in a state with
`failed`. -/
def Ends (step : EStateM Fault σ α) (s : σ) (done : α → σ → Prop) (failed : σ → Prop) : Prop :=
  match step s with
  | .ok a s' => done a s'
  | .error _ s' => failed s'

variable {done : α → σ → Prop} {done' : β → σ → Prop} {failed : σ → Prop}

/-- A step with a result ends in it. -/
theorem ends_of_ok {step : EStateM Fault σ α} {a : α} (h : step s = .ok a s') :
    Ends step s done failed ↔ done a s' := by
  rw [Ends, h]

/-- A step that fails ends in its failure. -/
theorem ends_of_error {step : EStateM Fault σ α} {fault : Fault} (h : step s = .error fault s') :
    Ends step s done failed ↔ failed s' := by
  rw [Ends, h]

/-- What every result of a step has, a result at hand has. -/
theorem Ends.of_ok {step : EStateM Fault σ α} (h : Ends step s done failed) {a : α}
    (hok : step s = .ok a s') : done a s' :=
  (ends_of_ok hok).mp h

/-- A step that does not fail has a result. -/
theorem Ends.exists_ok {step : EStateM Fault σ α} (h : Ends step s done fun _ => False) :
    ∃ a s', step s = .ok a s' ∧ done a s' := by
  unfold Ends at h
  cases hstep : step s with
  | ok a s' =>
    rw [hstep] at h
    exact ⟨a, s', rfl, h⟩
  | error fault s' =>
    rw [hstep] at h
    exact h.elim

instance {step : EStateM Fault σ α} [∀ a s', Decidable (done a s')] [∀ s', Decidable (failed s')] :
    Decidable (Ends step s done failed) :=
  match h : step s with
  | .ok _ _ => decidable_of_iff _ (ends_of_ok h).symm
  | .error _ _ => decidable_of_iff _ (ends_of_error h).symm

/-- How a step ends may be said in weaker words. -/
theorem Ends.mono {step : EStateM Fault σ α} {done₂ : α → σ → Prop} {failed₂ : σ → Prop}
    (h : Ends step s done failed) (hdone : ∀ a s', done a s' → done₂ a s')
    (hfailed : ∀ s', failed s' → failed₂ s') : Ends step s done₂ failed₂ := by
  unfold Ends at h ⊢
  split at h
  · exact hdone _ _ h
  · exact hfailed _ h

/-- What is known of how a step ends from two sides holds together. -/
theorem Ends.and {step : EStateM Fault σ α} {done₂ : α → σ → Prop} {failed₂ : σ → Prop}
    (h : Ends step s done failed) (h₂ : Ends step s done₂ failed₂) :
    Ends step s (fun a s' => done a s' ∧ done₂ a s') fun s' => failed s' ∧ failed₂ s' := by
  unfold Ends at h h₂ ⊢
  cases hstep : step s with
  | ok a s' =>
    rw [hstep] at h h₂
    exact ⟨h, h₂⟩
  | error fault s' =>
    rw [hstep] at h h₂
    exact ⟨h, h₂⟩

/-- What holds of every result and every state holds however a step ends. -/
theorem ends_of_forall (step : EStateM Fault σ α) (hdone : ∀ a s', done a s')
    (hfailed : ∀ s', failed s') : Ends step s done failed := by
  unfold Ends
  split
  · exact hdone _ _
  · exact hfailed _

@[simp]
theorem ends_pure {a : α} : Ends (pure a) s done failed ↔ done a s := Iff.rfl

@[simp]
theorem ends_throw {fault : Fault} : Ends (throw fault) s done failed ↔ failed s := Iff.rfl

@[simp]
theorem ends_bind {x : EStateM Fault σ α} {f : α → EStateM Fault σ β} :
    Ends (x >>= f) s done' failed ↔
      Ends x s (fun a s' => Ends (f a) s' done' failed) failed := by
  unfold Ends
  show (match EStateM.bind x f s with | .ok b s => done' b s | .error _ s => failed s) ↔ _
  unfold EStateM.bind
  cases x s <;> rfl

/-- After a step that gave a result, the rest of a sequence goes on with it. -/
theorem bind_of_ok {x : EStateM Fault σ α} {f : α → EStateM Fault σ β} {a : α}
    (h : x s = .ok a s') : (x >>= f) s = f a s' := by
  show EStateM.bind x f s = _
  rw [EStateM.bind, h]

/-- A step that fails ends a sequence. -/
theorem bind_of_error {x : EStateM Fault σ α} {f : α → EStateM Fault σ β} {fault : Fault}
    (h : x s = .error fault s') : (x >>= f) s = .error fault s' := by
  show EStateM.bind x f s = _
  rw [EStateM.bind, h]

/-- A sequence of two steps gives a result exactly when both steps do. -/
theorem bind_apply_eq_ok_iff {x : EStateM Fault σ α} {f : α → EStateM Fault σ β} {b : β} :
    (x >>= f) s = .ok b s' ↔ ∃ a s₁, x s = .ok a s₁ ∧ f a s₁ = .ok b s' := by
  show EStateM.bind x f s = .ok b s' ↔ _
  rw [EStateM.bind]
  cases x s with
  | error fault s₁ => simp
  | ok a s₁ =>
    constructor
    · exact fun h => ⟨a, s₁, rfl, h⟩
    · rintro ⟨a', s₁', h, h'⟩
      cases h
      exact h'

@[simp]
theorem ends_get {done : σ → σ → Prop} : Ends get s done failed ↔ done s s := Iff.rfl

@[simp]
theorem ends_set {s₂ : σ} {done : PUnit → σ → Prop} :
    Ends (set s₂) s done failed ↔ done ⟨⟩ s₂ := Iff.rfl

@[simp]
theorem ends_modify {f : σ → σ} {done : PUnit → σ → Prop} :
    Ends (modify f) s done failed ↔ done ⟨⟩ (f s) := Iff.rfl

/-! ### The faults of a step -/

/-- Where the step that is started in `s` fails, it does so with one of the given faults. -/
def FailsOnly (step : EStateM Fault σ α) (s : σ) (faults : Fault → Prop) : Prop :=
  ∀ fault s', step s = .error fault s' → faults fault

variable {faults faults' : Fault → Prop}

/-- The faults of a step may be said in weaker words. -/
theorem FailsOnly.mono {step : EStateM Fault σ α} (h : FailsOnly step s faults)
    (hfaults : ∀ fault, faults fault → faults' fault) : FailsOnly step s faults' :=
  fun fault s' hfails => hfaults fault (h fault s' hfails)

/-- A sequence fails where its first step fails, or where the second one fails on what the first one
gave. -/
theorem FailsOnly.bind {x : EStateM Fault σ α} {f : α → EStateM Fault σ β}
    (h : FailsOnly x s faults) (hf : ∀ a s', x s = .ok a s' → FailsOnly (f a) s' faults) :
    FailsOnly (x >>= f) s faults := by
  intro fault s' hfails
  cases hx : x s with
  | ok a s₁ =>
    rw [bind_of_ok hx] at hfails
    exact hf a s₁ hx fault s' hfails
  | error fault₁ s₁ =>
    rw [bind_of_error hx] at hfails
    cases hfails
    exact h _ _ hx

namespace Reading

variable {scope scope' : Scope} {done : α → Scope → Prop} {failed : Scope → Prop}

@[simp]
theorem ends_ofExcept {x : Except Fault α} :
    Ends (ofExcept x) scope done failed ↔
      (∀ a, x = .ok a → done a scope) ∧ (∀ fault, x = .error fault → failed scope) := by
  cases x with
  | ok a => simp [ofExcept]
  | error fault => simp [ofExcept]

/-- A step without a state leaves the state as it was. -/
theorem ofExcept_eq_ok_iff {x : Except Fault α} {a : α} :
    ofExcept x scope = .ok a scope' ↔ x = .ok a ∧ scope' = scope := by
  constructor
  · intro h
    cases x with
    | error fault => cases h
    | ok found =>
      cases h
      exact ⟨rfl, rfl⟩
  · rintro ⟨rfl, rfl⟩
    rfl

/-- Adding a type never fails. -/
theorem ends_declare {declared : TypeDecl} {isOpaque : Bool} {done : TypeRef → Scope → Prop} :
    Ends (declare declared isOpaque) scope done failed ↔
      done (scope.types.declare declared isOpaque).1
        { scope with types := (scope.types.declare declared isOpaque).2 } := Iff.rfl

/-- Giving members to a type fails where the table of types does. -/
theorem ends_define {handle : Nat} {declared : TypeDecl} {done : TypeRef → Scope → Prop} :
    Ends (define handle declared) scope done failed ↔
      (∀ ref types, scope.types.define handle declared = .ok (ref, types) →
        done ref { scope with types }) ∧
      ∀ fault, scope.types.define handle declared = .error fault → failed scope := by
  unfold Ends define
  cases scope.types.define handle declared with
  | ok result =>
    obtain ⟨ref, types⟩ := result
    simp
  | error fault => simp

end Reading

end CommonDecl

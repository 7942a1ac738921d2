import CommonDecl.Proofs.ComparedStatements
import CommonDecl.Proofs.Unplaced

/-!
# What a reader has to know of types

Two scopes agree (`Scope.Agree`) if they know the same names as names of types, perhaps with the
exception of one word.  Where a level lacks that word, it is read alike in both of them, whatever
their tables hold and wherever their types stand in them: this is a comparison of scopes that agree
(`agreement`), and what is read is the same without the places of types (`Declarator.read_agree`,
`TypeDecl.coincide_readMembers`).
-/

namespace CommonDecl

open Level

/-! ### Tables and the names of their entries -/

namespace TypeTable

variable {table newer : TypeTable}

/-- Each entry is found by the name of its declaration. -/
def Labelled (table : TypeTable) : Prop :=
  ∀ entry ∈ table.entries, entry.key = entry.declared.name?

theorem Sound.labelled (h : table.Sound) : table.Labelled :=
  h.key_eq

/-- A type that is declared has its own name, and so has the reference to it. -/
theorem Labelled.declare (h : table.Labelled) (declared : TypeDecl) (isOpaque : Bool) :
    (table.declare declared isOpaque).2.Labelled ∧
      (table.declare declared isOpaque).1.name = declared.name?.getD "" := by
  rcases declare_cases table declared isOpaque with
    ⟨-, hadded⟩ | ⟨handle, old, -, hold, hkey, ⟨-, -, hput⟩ | ⟨-, hsame⟩⟩
  · rw [hadded]
    refine ⟨fun entry hentry => ?_, rfl⟩
    rcases List.mem_append.mp hentry with hbefore | hnew
    · exact h entry hbefore
    · rw [List.mem_singleton.mp hnew]
  · rw [hput]
    refine ⟨fun entry hentry => ?_, rfl⟩
    rcases mem_put hentry with hbefore | rfl
    · exact h entry hbefore
    · rfl
  · rw [hsame]
    refine ⟨h, ?_⟩
    rw [← h old (List.mem_of_getElem? hold), hkey]

/-- A type that is filled in under its own name keeps it. -/
theorem Labelled.define (h : table.Labelled) {declared : TypeDecl} {handle : Nat} {ref : TypeRef}
    (hkey : table.keys[handle]? = some declared.name?)
    (hdefine : table.define handle declared = .ok (ref, newer)) :
    newer.Labelled ∧ ref.name = declared.name?.getD "" := by
  unfold TypeTable.define at hdefine
  rw [getElem?_keys, Option.map_eq_some_iff] at hkey
  obtain ⟨old, hold, hkey⟩ := hkey
  rw [hold] at hdefine
  cases hdefine
  refine ⟨fun entry hentry => ?_, by rw [hkey]⟩
  rcases mem_put hentry with hbefore | rfl
  · exact h entry hbefore
  · exact hkey

end TypeTable

/-! ### Scopes that agree -/

/-- Both scopes hide the same names, and know the same ones apart from a word. -/
structure Scope.Agree (word : Option String) (scope scope' : Scope) : Prop where
  hidden_eq : scope'.hidden = scope.hidden
  knows_eq : ∀ name, word ≠ some name → scope'.knows name = scope.knows name
  labelled : scope.types.Labelled
  labelled' : scope'.types.Labelled

variable {word word' : Option String} {scope scope' : Scope} {level rest : Level} {name : String}

namespace Scope

theorem unplaced_lookup (scope : Scope) (name : String) :
    (scope.lookup name).map TypeRef.unplaced =
      if scope.knows name then some ⟨0, name, false⟩ else none := by
  rw [knows]
  cases hlookup : scope.lookup name with
  | none => rfl
  | some ref =>
    have hname : ref.name = name := (names_of_lookup hlookup).2
    rw [Option.map_some, TypeRef.unplaced, hname]
    rfl

/-- Scopes that agree find the same types, wherever these stand. -/
theorem Agree.lookup (h : scope.Agree word scope') (hname : word ≠ some name) :
    (scope'.lookup name).map TypeRef.unplaced = (scope.lookup name).map TypeRef.unplaced := by
  rw [unplaced_lookup, unplaced_lookup, h.knows_eq name hname]

theorem knows_declare (scope : Scope) (declared : TypeDecl) (isOpaque : Bool) (name : String) :
    ({ scope with types := (scope.types.declare declared isOpaque).2 } : Scope).knows name = true ↔
      scope.knows name = true ∨ (name ∉ scope.hidden ∧ declared.name? = some name) := by
  rw [knows_iff, knows_iff, TypeTable.mem_keys_declare, and_or_left]

theorem knows_of_keys {types : TypeTable} (scope : Scope) (hkeys : types.keys = scope.types.keys)
    (name : String) : ({ scope with types } : Scope).knows name = scope.knows name := by
  rw [Bool.eq_iff_iff, knows_iff, knows_iff, hkeys]

/-- Where both scopes declare types of the same name, they agree as before. -/
theorem Agree.declare (h : scope.Agree word scope') {declared declared' : TypeDecl}
    (hname : declared'.name? = declared.name?) (isOpaque isOpaque' : Bool) :
    Agree word { scope with types := (scope.types.declare declared isOpaque).2 }
      { scope' with types := (scope'.types.declare declared' isOpaque').2 } := by
  refine ⟨h.hidden_eq, fun name hword => ?_, (h.labelled.declare declared isOpaque).1,
    (h.labelled'.declare declared' isOpaque').1⟩
  rw [Bool.eq_iff_iff, knows_declare, knows_declare, h.knows_eq name hword, h.hidden_eq, hname]

/-- Where both scopes fill in entries of the same name, they agree as before. -/
theorem Agree.define (h : scope.Agree word scope') {declared declared' : TypeDecl}
    {handle handle' : Nat} {ref ref' : TypeRef} {types types' : TypeTable}
    (hkey : scope.types.keys[handle]? = some declared.name?)
    (hkey' : scope'.types.keys[handle']? = some declared'.name?)
    (hdefine : scope.types.define handle declared = .ok (ref, types))
    (hdefine' : scope'.types.define handle' declared' = .ok (ref', types')) :
    Agree word { scope with types } { scope' with types := types' } := by
  refine ⟨h.hidden_eq, fun name hword => ?_, (h.labelled.define hkey hdefine).1,
    (h.labelled'.define hkey' hdefine').1⟩
  rw [knows_of_keys _ (TypeTable.keys_define hdefine'),
    knows_of_keys _ (TypeTable.keys_define hdefine), h.knows_eq name hword]

end Scope

/-! ### Agreement as a comparison -/

/-- One and the same level is read in two scopes that agree, and the places of types do not count.
No matter what is declared under a name, both scopes know the name then. -/
def agreement (word : Option String) : Comparison TypeRef.unplaced TypeRef.unplaced where
  word := word
  added _ := False
  isPlain := False
  Scopes := Scope.Agree word
  Declares declared declared' := declared'.name? = declared.name?
  Fails _ _ := True
  lookup_eq := Scope.Agree.lookup
  knows_of_added _ hadded := hadded.elim
  lookup_semicolon _ hplain := hplain.elim
  name_eq := TypeRef.unplaced_inj.mp
  declares_of_sameBy hsame := by
    simpa only [TypeDecl.name?_mapRefs] using congrArg TypeDecl.name? hsame
  name?_eq := id
  declare := by
    rintro scope scope' declared declared' isOpaque hagree hname -
    refine ⟨TypeRef.unplaced_inj.mpr ?_, hagree.declare hname isOpaque isOpaque⟩
    rw [(hagree.labelled.declare declared isOpaque).2,
      (hagree.labelled'.declare declared' isOpaque).2, hname]
  define := by
    rintro scope scope' declared declared' ref ref' hagree hname - hkey hkey'
    rw [← hname] at hkey'
    obtain ⟨defined, types, hdefine⟩ := TypeTable.exists_define hkey declared
    obtain ⟨defined', types', hdefine'⟩ := TypeTable.exists_define hkey' declared'
    refine ⟨defined, types, defined', types', hdefine, hdefine', TypeRef.unplaced_inj.mpr ?_,
      hagree.define hkey hkey' hdefine hdefine'⟩
    rw [(hagree.labelled.define hkey hdefine).2, (hagree.labelled'.define hkey' hdefine').2, hname]
  fails _ _ := trivial

/-- What is left of one and the same level is the same. -/
theorem Comparison.Levels.eq_of_agreement {level' : Level}
    (h : (agreement word).Levels [] [] level level') : level' = level :=
  Level.Alike.eq_of_none h.alike

/-- A declarator is read alike in scopes that agree. -/
theorem Declarator.read_agree (h : scope.Agree word scope') (hlacks : level.Lacks word)
    {template template' : Option Declarator} {declarator : Declarator}
    (htemplate : template'.map unplaced = template.map unplaced)
    (hread : read scope template {} level = .ok (declarator, rest)) :
    ∃ declarator', read scope' template' {} level = .ok (declarator', rest) ∧
      declarator'.unplaced = declarator.unplaced := by
  obtain ⟨declarator', rest', hread', hsame, hrest⟩ :=
    read_sameBy (C := agreement word) h (.refl hlacks False.elim) htemplate hread fun _ _ => id
  obtain rfl := hrest.eq_of_agreement
  exact ⟨declarator', hread', hsame⟩

/-! ### Steps in scopes that agree -/

/-- Both steps give results, which are related, and leave scopes that agree, or both fail. -/
def Coincide {α : Type} (word : Option String) (related : α → α → Prop) (step step' : Reading α)
    (scope scope' : Scope) : Prop :=
  (∃ a after a' after', step scope = .ok a after ∧ step' scope' = .ok a' after' ∧ related a a' ∧
    after.Agree word after') ∨
  ∃ fault after fault' after', step scope = .error fault after ∧
    step' scope' = .error fault' after'

section

variable {α β : Type} {related : α → α → Prop} {related' : β → β → Prop} {step step' : Reading α}

/-- Nothing is added, so it does not matter which names are declared. -/
theorem simulates_agreement_iff {names : α → List String} :
    (agreement word).Simulates names related step step' scope scope' ↔
      Coincide word related step step' scope scope' := by
  constructor
  · intro h
    cases hstep : step scope with
    | ok a after =>
      obtain ⟨a', after', hstep', ha, hafter⟩ := h.of_ok hstep fun _ _ => id
      exact Or.inl ⟨a, after, a', after', hstep, hstep', ha, hafter⟩
    | error fault after =>
      obtain ⟨fault', after', hstep', -⟩ := h.of_error hstep fun _ => id
      exact Or.inr ⟨fault, after, fault', after', hstep, hstep'⟩
  · unfold Comparison.Simulates
    rintro (⟨a, after, a', after', hstep, hstep', ha, hafter⟩ |
      ⟨fault, after, fault', after', hstep, hstep'⟩)
    · rw [hstep]
      exact fun _ => ⟨a', after', hstep', ha, hafter⟩
    · rw [hstep]
      exact fun _ => ⟨fault', after', hstep', trivial⟩

theorem Coincide.bind {k k' : α → Reading β} (h : Coincide word related step step' scope scope')
    (hk : ∀ a a' after after', step scope = .ok a after → step' scope' = .ok a' after' →
      related a a' → after.Agree word after' →
        Coincide word' related' (k a) (k' a') after after') :
    Coincide word' related' (step >>= k) (step' >>= k') scope scope' := by
  rcases h with ⟨a, after, a', after', hstep, hstep', ha, hafter⟩ |
    ⟨fault, after, fault', after', hstep, hstep'⟩
  · have hgoesOn := hk a a' after after' hstep hstep' ha hafter
    unfold Coincide
    rwa [bind_of_ok hstep, bind_of_ok hstep']
  · exact Or.inr ⟨fault, after, fault', after', bind_of_error hstep, bind_of_error hstep'⟩

theorem Coincide.mono {related₂ : α → α → Prop} (h : Coincide word related step step' scope scope')
    (hrelated : ∀ a a', related a a' → related₂ a a') :
    Coincide word related₂ step step' scope scope' := by
  rcases h with ⟨a, after, a', after', hstep, hstep', ha, hafter⟩ | hfails
  · exact Or.inl ⟨a, after, a', after', hstep, hstep', hrelated a a' ha, hafter⟩
  · exact Or.inr hfails

/-- Steps that give the same results do so as well. -/
theorem Coincide.of_ok_iff {other other' : Reading α}
    (h : Coincide word related step step' scope scope')
    (hother : ∀ a after, other scope = .ok a after ↔ step scope = .ok a after)
    (hother' : ∀ a after, other' scope' = .ok a after ↔ step' scope' = .ok a after) :
    Coincide word related other other' scope scope' := by
  rcases h with ⟨a, after, a', after', hstep, hstep', ha, hafter⟩ |
    ⟨fault, last, fault', last', hstep, hstep'⟩
  · exact Or.inl ⟨a, after, a', after', (hother a after).mpr hstep, (hother' a' after').mpr hstep',
      ha, hafter⟩
  · have hfails {step other : Reading α} {scope last : Scope} {fault : Fault}
        (hstep : step scope = .error fault last)
        (hother : ∀ a after, other scope = .ok a after ↔ step scope = .ok a after) :
        ∃ fault last, other scope = .error fault last := by
      cases hresult : other scope with
      | ok a after =>
        rw [(hother a after).mp hresult] at hstep
        cases hstep
      | error fault after => exact ⟨fault, after, rfl⟩
    obtain ⟨fault₁, after, hfault⟩ := hfails hstep hother
    obtain ⟨fault₁', after', hfault'⟩ := hfails hstep' hother'
    exact Or.inr ⟨fault₁, after, fault₁', after', hfault, hfault'⟩

theorem coincide_pure (h : scope.Agree word scope') {a a' : α} (ha : related a a') :
    Coincide word related (pure a) (pure a') scope scope' :=
  Or.inl ⟨a, scope, a', scope', rfl, rfl, ha, h⟩

end

/-- The members of a body that lacks the word are the same in scopes that agree, without the places
of types. -/
theorem TypeDecl.coincide_readMembers (h : scope.Agree word scope') (hlacks : level.Lacks word) :
    Coincide word Member.SameAll (readMembers level) (readMembers level) scope scope' :=
  simulates_agreement_iff.mp (simulates_read.2.2.1 level (.refl hlacks False.elim) h)

end CommonDecl

import CommonDecl.Proofs.Evolution
import CommonDecl.Proofs.Shapes

/-!
# What a table keeps of its types

Beside its name, an entry holds one of two kinds of information: the body of a type, or what a
typedef says of it.

* `Session.information_kept`: an entry that holds information of either kind goes on to hold some,
  under the same name.
* `TypeTable.declare_replaces`: an entry is replaced only by a type that has a kind of information
  that the entry lacks.  `TypeDecl.loses_of_saysMoreThan`: where the entry has the other kind, that
  kind is lost.
* `TypeTable.information_lost`: so a typedef of the name of a body takes the body away, and the body
  of a tag takes away the typedef of the same name.
-/

namespace CommonDecl

namespace TypeDecl

/-- The declaration says more of the type than its name. -/
def isInformed (declared : TypeDecl) : Bool :=
  declared.members?.isSome || declared.typedef?.isSome

variable {new old : TypeDecl}

theorem isInformed_of_saysMoreThan (h : new.saysMoreThan old = true) : new.isInformed = true := by
  rw [saysMoreThan, Bool.or_eq_true, Bool.and_eq_true, Bool.and_eq_true] at h
  rw [isInformed, Bool.or_eq_true]
  exact h.imp And.left And.left

/-- A type that says more than one with information has the other kind of information alone. -/
theorem loses_of_saysMoreThan (h : new.saysMoreThan old = true) (hold : old.isInformed = true) :
    (new.members?.isSome = true ∧ new.typedef? = none ∧ old.typedef?.isSome = true) ∨
      (new.typedef?.isSome = true ∧ new.members? = none ∧ old.members?.isSome = true) := by
  cases new with
  | tagged newQualifiers newName newMembers =>
    cases old with
    | tagged oldQualifiers oldName oldMembers =>
      cases newMembers <;> cases oldMembers <;>
        simp_all [saysMoreThan, isInformed, members?, typedef?]
    | synonym oldQualifiers oldName oldTypedef =>
      cases newMembers <;> simp_all [saysMoreThan, members?, typedef?]
  | synonym newQualifiers newName newTypedef =>
    cases old with
    | tagged oldQualifiers oldName oldMembers =>
      cases oldMembers <;> simp_all [isInformed, members?, typedef?]
    | synonym oldQualifiers oldName oldTypedef => simp [saysMoreThan, members?, typedef?] at h

end TypeDecl

namespace TypeTable

variable {table newer : TypeTable} {offers : String → Prop}

/-- Declaring a type leaves every entry as it is, except one of its name that it says more than. -/
theorem declare_replaces (table : TypeTable) (declared : TypeDecl) (isOpaque : Bool) {place : Nat}
    {old entry : TypeEntry} (hold : table.entries[place]? = some old)
    (hentry : (table.declare declared isOpaque).2.entries[place]? = some entry) :
    entry = old ∨ (entry.declared = declared ∧ declared.name? = old.key ∧
      declared.saysMoreThan old.declared = true) := by
  rcases declare_cases table declared isOpaque with
    ⟨-, hadded⟩ | ⟨handle, other, -, hother, hkey, ⟨-, hmore, hput⟩ | ⟨-, hsame⟩⟩
  · have hlt : place < table.entries.length := lt_size_of_getElem? hold
    rw [hadded, List.getElem?_append_left hlt, hold, Option.some.injEq] at hentry
    exact Or.inl hentry.symm
  · rw [hput] at hentry
    rcases entry_of_put hother hentry with ⟨rfl, rfl⟩ | hsame
    · rw [hold, Option.some.injEq] at hother
      subst hother
      exact Or.inr ⟨rfl, hkey, hmore⟩
    · rw [hold, Option.some.injEq] at hsame
      exact Or.inl hsame.symm
  · rw [hsame, hold, Option.some.injEq] at hentry
    exact Or.inl hentry.symm

/-- The entry at a place holds information. -/
def Informed (table : TypeTable) (place : Nat) : Prop :=
  ∃ entry, table.entries[place]? = some entry ∧ entry.declared.isInformed = true

/-- One change of a table takes the information of no entry away altogether. -/
theorem Informed.change {place : Nat} (hchange : Change offers table newer)
    (h : table.Informed place) : newer.Informed place := by
  obtain ⟨old, hold, hinformed⟩ := h
  obtain ⟨entry, hentry, -⟩ := Evolves.exists_entry (.single hchange) hold
  refine ⟨entry, hentry, ?_⟩
  rcases hchange.entry_cases hentry with
    hsame | ⟨rfl, -⟩ | ⟨other, -, -, -, hmore⟩ | ⟨other, -, hmembers⟩
  · rw [hold, Option.some.injEq] at hsame
    rwa [← hsame]
  · exact absurd (lt_size_of_getElem? hold) (Nat.lt_irrefl _)
  · exact TypeDecl.isInformed_of_saysMoreThan hmore
  · rw [TypeDecl.isInformed, hmembers, Bool.true_or]

end TypeTable

open TypeTable

/-- An entry of a table keeps its place and its name in every later state of a session, and where it
holds information, by a body or by a typedef, it goes on to hold some. -/
theorem Session.information_kept (settings : Settings) (hidden : List String)
    (parses further : List Parse) :
    let session := (start settings hidden).run parses
    let later := session.run further
    ∀ (place : Nat) (old : TypeEntry), session.scope.types.entries[place]? = some old →
      ∃ entry : TypeEntry, later.scope.types.entries[place]? = some entry ∧ entry.key = old.key ∧
        (old.declared.isInformed = true → entry.declared.isInformed = true) := by
  intro session later place old hold
  have hevolves : Evolves (fun _ => True) session.scope.types later.scope.types :=
    evolves_run session further
  obtain ⟨entry, hentry, hkey⟩ := hevolves.exists_entry hold
  refine ⟨entry, hentry, hkey, fun hinformed => ?_⟩
  obtain ⟨entry', hentry', hinformed'⟩ :=
    hevolves.induct (fun _ _ => Informed.change) ⟨old, hold, hinformed⟩
  rw [hentry, Option.some.injEq] at hentry'
  rwa [hentry']

/-- The types of a new session after the first statements of a source. -/
def TypeTable.ofStatements (source : String) (count : Nat) : TypeTable :=
  let scope := Scope.ofSettings {}
  match Declaration.readFirst .c count (((Parse.source .c source).level? scope).getD []) scope with
  | .ok _ scope | .error _ scope => scope.types

/-- One more statement can take the body of a type away, or the alias of a synonym: a typedef takes
the place of a structure of its name, and a structure that of a typedef. -/
theorem TypeTable.information_lost :
    (¬ ∀ source count place,
      (((ofStatements source count).get? place).bind TypeDecl.members?).isSome = true →
        (((ofStatements source (count + 1)).get? place).bind TypeDecl.members?).isSome = true) ∧
    ¬ ∀ source count place,
      (((ofStatements source count).get? place).bind TypeDecl.typedef?).isSome = true →
        (((ofStatements source (count + 1)).get? place).bind TypeDecl.typedef?).isSome = true := by
  constructor
  · intro h
    have hkept := h "struct A \x7b int x; \x7d; typedef int A;" 1 8 (by decide +kernel)
    exact absurd hkept (by decide +kernel)
  · intro h
    have hkept := h "typedef int A; struct A \x7b int x; \x7d;" 1 8 (by decide +kernel)
    exact absurd hkept (by decide +kernel)

end CommonDecl

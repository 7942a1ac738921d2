import CommonDecl.Proofs.Evolution

/-!
# Chains of synonyms

A synonym aliases an entry of the table, which may be a synonym itself: `TypeTable.Leads` follows
such a chain, and `TypeTable.ChainEnds` says that it comes to an entry that aliases nothing.

* `Session.chains_end_or_pass_later`: at no time an entry aliases itself or a place outside the
  table, and a chain that does not end passes an entry that aliases a later one.
* `Session.not_chainEnds`: chains need not end.  Declaring a type looks for an alias to the replaced
  entry only one step ahead, so two typedefs can alias each other.
* `TypeTable.chainEnds_declare_iff`: what would have to be looked for.  Chains go on to end exactly
  where the chain of the new synonym does not come to the entry that it replaces.
-/

namespace CommonDecl

namespace TypeTable

variable {table : TypeTable} {place next other : Nat}

/-! ### Chains -/

/-- The place that the entry at a place aliases, if it is a synonym. -/
def aliased? (table : TypeTable) (place : Nat) : Option Nat :=
  (table.get? place >>= TypeDecl.typedef?).map fun typedef => typedef.aliased.handle

/-- The chain from a place comes to an entry that aliases nothing. -/
inductive ChainEnds (table : TypeTable) : Nat → Prop
  | last {place : Nat} : table.aliased? place = none → ChainEnds table place
  | next {place next : Nat} :
      table.aliased? place = some next → ChainEnds table next → ChainEnds table place

/-- The chain from one place comes to another. -/
abbrev Leads (table : TypeTable) : Nat → Nat → Prop :=
  Relation.ReflTransGen fun place next => table.aliased? place = some next

theorem aliased?_of_getElem? {entry : TypeEntry} (hentry : table.entries[place]? = some entry) :
    table.aliased? place = entry.declared.typedef?.map fun typedef => typedef.aliased.handle := by
  rw [aliased?, get?, hentry]
  rfl

theorem exists_entry_of_aliased? (h : table.aliased? place = some next) :
    ∃ entry typedef, table.entries[place]? = some entry ∧ entry.declared.typedef? = some typedef ∧
      typedef.aliased.handle = next := by
  cases hentry : table.entries[place]? with
  | none =>
    rw [aliased?, get?, hentry] at h
    cases h
  | some entry =>
    rw [aliased?_of_getElem? hentry, Option.map_eq_some_iff] at h
    obtain ⟨typedef, htypedef, hnext⟩ := h
    exact ⟨entry, typedef, rfl, htypedef, hnext⟩

/-- Where a chain has a next place, everything that it comes to is its start or comes after that
place. -/
theorem Leads.of_ne (h : table.Leads place other) (hne : place ≠ other)
    (hnext : table.aliased? place = some next) : table.Leads next other := by
  rcases Relation.ReflTransGen.cases_head h with rfl | ⟨middle, hmiddle, hleads⟩
  · exact absurd rfl hne
  · rw [hnext, Option.some.injEq] at hmiddle
    rwa [hmiddle]

/-! ### Aliases at all times -/

/-- No entry aliases itself, or a place where there is no entry. -/
def AliasesOthers (table : TypeTable) : Prop :=
  ∀ place next, table.aliased? place = some next → next < table.size ∧ next ≠ place

theorem AliasesOthers.change {offers : String → Prop} {newer : TypeTable}
    (hchange : Change offers table newer) (h : table.AliasesOthers) : newer.AliasesOthers := by
  intro place next hnext
  have hsize := size_le_of_keys hchange.keys
  obtain ⟨entry, typedef, hentry, htypedef, rfl⟩ := exists_entry_of_aliased? hnext
  -- An entry that was there keeps its alias, and a new one aliases an entry that was there.
  rcases hchange.entry_cases hentry with
    hsame | ⟨rfl, hfits⟩ | ⟨old, -, hfits, haliases, -⟩ | ⟨old, -, hmembers⟩
  · have hold : table.aliased? place = some typedef.aliased.handle := by
      rw [aliased?_of_getElem? hsame, htypedef]
      rfl
    obtain ⟨hlt, hne⟩ := h place _ hold
    exact ⟨by omega, hne⟩
  · have hlt := hfits.aliased_lt typedef htypedef
    exact ⟨by omega, by omega⟩
  · have hlt := hfits.aliased_lt typedef htypedef
    rw [TypeDecl.aliases, htypedef, Option.any_some, beq_eq_false_iff_ne] at haliases
    exact ⟨by omega, haliases⟩
  · rw [TypeDecl.typedef?_eq_none_of_members? hmembers] at htypedef
    cases htypedef

/-- A chain in which every synonym aliases an earlier entry ends. -/
theorem AliasesOthers.chainEnds_or (h : table.AliasesOthers) (place : Nat) :
    table.ChainEnds place ∨ ∃ middle next,
      table.Leads place middle ∧ table.aliased? middle = some next ∧ middle < next := by
  induction place using Nat.strong_induction_on with
  | _ place ih =>
    cases hnext : table.aliased? place with
    | none => exact Or.inl (.last hnext)
    | some next =>
      by_cases hlater : place < next
      · exact Or.inr ⟨place, next, .refl, hnext, hlater⟩
      · -- The alias goes to an earlier place, from which the induction goes on.
        obtain ⟨-, hne⟩ := h place next hnext
        rcases ih next (by omega) with hends | ⟨middle, later, hleads, hmiddle, hlt⟩
        · exact Or.inl (.next hnext hends)
        · exact Or.inr ⟨middle, later, hleads.head hnext, hmiddle, hlt⟩

/-! ### What keeps chains ending -/

theorem aliased?_put_of_ne {handle : Nat} (new : TypeEntry) (hne : place ≠ handle) :
    (table.put handle new).aliased? place = table.aliased? place := by
  rw [aliased?, aliased?, get?, get?, put, List.getElem?_set_ne hne.symm]

theorem aliased?_put_self {handle : Nat} {old : TypeEntry} (new : TypeEntry)
    (hold : table.entries[handle]? = some old) :
    (table.put handle new).aliased? handle =
      new.declared.typedef?.map fun typedef => typedef.aliased.handle := by
  have hlt : handle < table.entries.length := lt_size_of_getElem? hold
  refine aliased?_of_getElem? ?_
  rw [put, List.getElem?_set_self hlt]

/-- A chain that does not come to an entry goes on as before where the entry is replaced. -/
theorem ChainEnds.put_of_not_leads {handle : Nat} (new : TypeEntry) (h : table.ChainEnds place)
    (hleads : ¬ table.Leads place handle) : (table.put handle new).ChainEnds place := by
  induction h with
  | last hlast =>
    have hne : _ ≠ handle := fun heq => hleads (heq ▸ .refl)
    exact .last (by rw [aliased?_put_of_ne new hne, hlast])
  | next hnext _ ih =>
    have hne : _ ≠ handle := fun heq => hleads (heq ▸ .refl)
    refine .next (by rw [aliased?_put_of_ne new hne, hnext]) (ih fun hleads' => ?_)
    exact hleads (hleads'.head hnext)

/-- Where an entry is replaced, chains go on to end exactly if the chain of the new one does not
come to its own place. -/
theorem chainEnds_put_iff {handle : Nat} {old new : TypeEntry}
    (hends : ∀ place, table.ChainEnds place) (hold : table.entries[handle]? = some old) :
    (∀ place, (table.put handle new).ChainEnds place) ↔
      ∀ typedef, new.declared.typedef? = some typedef →
        ¬ table.Leads typedef.aliased.handle handle := by
  constructor
  · intro h typedef htypedef hleads
    have hself : (table.put handle new).aliased? handle = some typedef.aliased.handle := by
      rw [aliased?_put_self new hold, htypedef]
      rfl
    -- A chain that ends in the new table comes to the replaced entry in neither table.
    have hnever (place : Nat) (hends : (table.put handle new).ChainEnds place) :
        ¬ table.Leads place handle := by
      induction hends with
      | @last place hlast =>
        intro hplace
        by_cases heq : place = handle
        · rw [heq, hself] at hlast
          cases hlast
        · rw [aliased?_put_of_ne new heq] at hlast
          rcases Relation.ReflTransGen.cases_head hplace with rfl | ⟨next, hnext, -⟩
          · exact heq rfl
          · rw [hlast] at hnext
            cases hnext
      | @next place next hnext _ ih =>
        intro hplace
        by_cases heq : place = handle
        · rw [heq, hself, Option.some.injEq] at hnext
          exact ih (hnext ▸ hleads)
        · rw [aliased?_put_of_ne new heq] at hnext
          exact ih (Leads.of_ne hplace heq hnext)
    exact hnever _ (h typedef.aliased.handle) hleads
  · intro h
    have hself : (table.put handle new).ChainEnds handle := by
      cases htypedef : new.declared.typedef? with
      | none => exact .last (by rw [aliased?_put_self new hold, htypedef]; rfl)
      | some typedef =>
        refine .next (by rw [aliased?_put_self new hold, htypedef]; rfl) ?_
        exact (hends typedef.aliased.handle).put_of_not_leads new (h typedef htypedef)
    intro place
    -- A chain of the old table goes on as it did, up to where it comes to the replaced entry.
    induction hends place with
    | @last place hlast =>
      by_cases heq : place = handle
      · rw [heq]
        exact hself
      · exact .last (by rw [aliased?_put_of_ne new heq, hlast])
    | @next place next hnext _ ih =>
      by_cases heq : place = handle
      · rw [heq]
        exact hself
      · exact .next (by rw [aliased?_put_of_ne new heq, hnext]) ih

/-- Chains go on to end where a type is added at the end of the table. -/
theorem chainEnds_append {new : TypeEntry} (hends : ∀ place, table.ChainEnds place)
    (hothers : table.AliasesOthers)
    (haliased : ∀ typedef, new.declared.typedef? = some typedef →
      typedef.aliased.handle < table.size) (place : Nat) :
    (⟨table.entries ++ [new]⟩ : TypeTable).ChainEnds place := by
  have hbefore {place : Nat} (hlt : place < table.size) :
      (⟨table.entries ++ [new]⟩ : TypeTable).aliased? place = table.aliased? place := by
    rw [aliased?, aliased?, get?, get?, List.getElem?_append_left hlt]
  have hearlier (place : Nat) (hlt : place < table.size) :
      (⟨table.entries ++ [new]⟩ : TypeTable).ChainEnds place := by
    induction hends place with
    | last hlast => exact .last (by rw [hbefore hlt, hlast])
    | next hnext _ ih =>
      exact .next (by rw [hbefore hlt, hnext]) (ih (hothers _ _ hnext).1)
  by_cases hlt : place < table.size
  · exact hearlier place hlt
  · cases hnext : (⟨table.entries ++ [new]⟩ : TypeTable).aliased? place with
    | none => exact .last hnext
    | some next =>
      refine .next hnext (hearlier next ?_)
      -- Only the new entry stands that far back.
      obtain ⟨entry, typedef, hentry, htypedef, rfl⟩ := exists_entry_of_aliased? hnext
      rw [List.getElem?_append_right (Nat.le_of_not_lt hlt), List.getElem?_singleton] at hentry
      split at hentry
      · cases hentry
        exact haliased typedef htypedef
      · cases hentry

/-- Where chains end, they go on to end after a type is declared, unless it takes the place of an
entry that the chain of its own alias comes to. -/
theorem chainEnds_declare_iff (hends : ∀ place, table.ChainEnds place)
    (hothers : table.AliasesOthers) (declared : TypeDecl) (isOpaque : Bool)
    (haliased : ∀ typedef, declared.typedef? = some typedef → typedef.aliased.handle < table.size) :
    (∀ place, (table.declare declared isOpaque).2.ChainEnds place) ↔
      ∀ handle old typedef, (declared.name? >>= table.handle?) = some handle →
        table.entries[handle]? = some old → declared.aliases handle = false →
          declared.saysMoreThan old.declared = true → declared.typedef? = some typedef →
            ¬ table.Leads typedef.aliased.handle handle := by
  rcases declare_cases table declared isOpaque with
    ⟨hfound, hadded⟩ | ⟨handle, old, hfound, hold, -, ⟨haliases, hmore, hput⟩ | ⟨hkeeps, hsame⟩⟩
  · -- The name is new, so no entry is replaced.
    rw [hadded]
    refine iff_of_true (chainEnds_append hends hothers haliased) ?_
    intro handle _ _ hother
    rw [hfound] at hother
    cases hother
  · rw [hput, chainEnds_put_iff hends hold]
    constructor
    · intro h handle' _ typedef hfound' _ _ _ htypedef
      rw [hfound, Option.some.injEq] at hfound'
      subst hfound'
      exact h typedef htypedef
    · exact fun h typedef htypedef => h handle old typedef hfound hold haliases hmore htypedef
  · -- The entry stays, so the conditions of a replacement do not hold.
    rw [hsame]
    refine iff_of_true hends ?_
    intro handle' old' typedef hfound' hold' haliases hmore _
    rw [hfound, Option.some.injEq] at hfound'
    subst hfound'
    rw [hold, Option.some.injEq] at hold'
    subst hold'
    rcases hkeeps with hself | hless
    · rw [hself] at haliases
      cases haliases
    · rw [hless] at hmore
      cases hmore

end TypeTable

open TypeTable

/-- In every state of a session each synonym aliases an entry of the table other than itself, and
from each place on the chain ends or passes a synonym that aliases a later entry. -/
theorem Session.chains_end_or_pass_later (settings : Settings) (hidden : List String)
    (parses : List Parse) :
    let table := ((start settings hidden).run parses).scope.types
    (∀ place next, table.aliased? place = some next → next < table.size ∧ next ≠ place) ∧
      ∀ place, table.ChainEnds place ∨ ∃ middle next,
        table.Leads place middle ∧ table.aliased? middle = some next ∧ middle < next := by
  intro table
  have hempty : ({} : TypeTable).AliasesOthers := by
    rintro place next ⟨⟩
  have hothers : table.AliasesOthers :=
    (evolves_start settings hidden parses).induct (fun _ _ => AliasesOthers.change) hempty
  exact ⟨hothers, hothers.chainEnds_or⟩

/-- Chains need not end: two typedefs that give each other's tags as names leave two synonyms that
alias each other. -/
theorem Session.not_chainEnds :
    ¬ ∀ (sources : List String) (place : Nat),
      ((start {} []).run (sources.map (Parse.source .c))).scope.types.ChainEnds place := by
  intro h
  have hends := h ["typedef struct A B; typedef struct B A;"] 8
  generalize htable :
    ((start {} []).run
      (["typedef struct A B; typedef struct B A;"].map (Parse.source .c))).scope.types = table
    at hends
  have hA : table.aliased? 8 = some 9 := by
    rw [← htable]
    decide +kernel
  have hB : table.aliased? 9 = some 8 := by
    rw [← htable]
    decide +kernel
  -- A chain that ends comes to neither of the two entries.
  have hnone (place : Nat) (hends : table.ChainEnds place) : place ≠ 8 ∧ place ≠ 9 := by
    induction hends with
    | last hlast =>
      refine ⟨?_, ?_⟩
      · rintro rfl
        rw [hA] at hlast
        cases hlast
      · rintro rfl
        rw [hB] at hlast
        cases hlast
    | next hnext _ ih =>
      refine ⟨?_, ?_⟩
      · rintro rfl
        rw [hA, Option.some.injEq] at hnext
        exact ih.2 hnext.symm
      · rintro rfl
        rw [hB, Option.some.injEq] at hnext
        exact ih.1 hnext.symm
  exact (hnone 8 hends).1 rfl

end CommonDecl

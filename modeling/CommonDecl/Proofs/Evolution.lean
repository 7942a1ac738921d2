import CommonDecl.Proofs.Integrity
import CommonDecl.Proofs.Lookahead
import Mathlib.Data.List.Infix
import Mathlib.Logic.Relation

/-!
# How a table of types evolves

A reader changes the table of types in two ways only: it declares a type, or it fills in the entry
of one.  `TypeTable.Change` is one such change, with what is known of the type: its name is one that
the level at hand offers, and a type that it aliases is in the table already.  Every reader takes
the table through a series of changes, also where it fails midway (`evolves_read`,
`Parse.evolves_read`), and so does a session (`Session.evolves_run`).  What every change keeps,
every reading keeps.
-/

namespace CommonDecl

/-- A type that can be declared beside `size` other ones: its name is on offer, and the type that it
aliases is one of them. -/
structure TypeDecl.Fits (offers : String → Prop) (size : Nat) (declared : TypeDecl) : Prop where
  offered : ∀ name, declared.name? = some name → offers name
  aliased_lt : ∀ typedef, declared.typedef? = some typedef → typedef.aliased.handle < size

/-- A type still fits where more names are on offer and more types are there. -/
theorem TypeDecl.Fits.mono {offers offers' : String → Prop} {size size' : Nat} {declared : TypeDecl}
    (h : declared.Fits offers size) (hoffers : ∀ name, offers name → offers' name)
    (hsize : size ≤ size') : declared.Fits offers' size' :=
  ⟨fun name hname => hoffers name (h.offered name hname),
    fun typedef htypedef => Nat.lt_of_lt_of_le (h.aliased_lt typedef htypedef) hsize⟩

/-- No type has both a body and an alias. -/
theorem TypeDecl.typedef?_eq_none_of_members? {declared : TypeDecl}
    (h : declared.members?.isSome = true) : declared.typedef? = none := by
  cases declared with
  | tagged => rfl
  | synonym => cases h

namespace TypeTable

variable {table newer : TypeTable} {offers offers' : String → Prop}

/-! ### Sizes -/

/-- The names of a table in which a type was declared begin with those that were there before. -/
theorem keys_declare (table : TypeTable) (declared : TypeDecl) (isOpaque : Bool) :
    table.keys <+: (table.declare declared isOpaque).2.keys := by
  rcases declare_cases table declared isOpaque with
    ⟨-, hadded⟩ | ⟨handle, old, -, hold, hkey, ⟨-, -, hput⟩ | ⟨-, hsame⟩⟩
  · rw [hadded, keys, keys, List.map_append]
    exact List.prefix_append _ _
  · rw [hput]
    exact (keys_put ⟨declared.name?, declared, isOpaque⟩ hold hkey).symm ▸ List.prefix_refl _
  · rw [hsame]

/-- A table has one name, or none, for each of its entries. -/
theorem size_eq_length_keys (table : TypeTable) : table.size = table.keys.length := by
  rw [size, keys, List.length_map]

theorem size_le_of_keys (h : table.keys <+: newer.keys) : table.size ≤ newer.size := by
  rw [size_eq_length_keys, size_eq_length_keys]
  exact h.length_le

/-- A place that has an entry is one of the table. -/
theorem lt_size_of_getElem? {handle : Nat} {entry : TypeEntry}
    (h : table.entries[handle]? = some entry) : handle < table.size :=
  (List.getElem?_eq_some_iff.mp h).1

/-- A type that was declared is in the table. -/
theorem handle_declare_lt (table : TypeTable) (declared : TypeDecl) (isOpaque : Bool) :
    (table.declare declared isOpaque).1.handle < (table.declare declared isOpaque).2.size := by
  rcases declare_cases table declared isOpaque with
    ⟨-, hadded⟩ | ⟨handle, old, -, hold, -, ⟨-, -, hput⟩ | ⟨-, hsame⟩⟩
  · rw [hadded]
    simp [size]
  · rw [hput]
    simpa [size, put] using lt_size_of_getElem? hold
  · rw [hsame]
    exact lt_size_of_getElem? hold

/-- A type that has a name is in the table. -/
theorem handle_lt_of_names {key : Option String} {ref : TypeRef} (h : table.Names ref key) :
    ref.handle < table.size := by
  have hkey := h.1
  rw [getElem?_keys, Option.map_eq_some_iff] at hkey
  obtain ⟨entry, hentry, -⟩ := hkey
  exact lt_size_of_getElem? hentry

/-! ### Changes -/

/-- One change of a table: a type that fits is declared, or an entry is filled in with a body. -/
inductive Change (offers : String → Prop) (table : TypeTable) : TypeTable → Prop
  | declare (declared : TypeDecl) (isOpaque : Bool) :
      declared.Fits offers table.size → Change offers table (table.declare declared isOpaque).2
  | define {handle : Nat} {declared : TypeDecl} {ref : TypeRef} {newer : TypeTable} :
      declared.members?.isSome = true → table.define handle declared = .ok (ref, newer) →
        Change offers table newer

/-- The table came about by a series of changes. -/
abbrev Evolves (offers : String → Prop) : TypeTable → TypeTable → Prop :=
  Relation.ReflTransGen (Change offers)

/-- A change that was possible stays possible where more names are on offer. -/
theorem Change.mono (hoffers : ∀ name, offers name → offers' name) (h : Change offers table newer) :
    Change offers' table newer := by
  cases h with
  | declare declared isOpaque hfits =>
    exact .declare declared isOpaque (hfits.mono hoffers (Nat.le_refl _))
  | define hmembers hdefine => exact .define hmembers hdefine

theorem Evolves.mono (hoffers : ∀ name, offers name → offers' name)
    (h : Evolves offers table newer) : Evolves offers' table newer :=
  Relation.ReflTransGen.mono (fun _ _ => Change.mono hoffers) _ _ h

/-- Filling in an entry puts the type in its place, under the same name. -/
theorem exists_old_of_define {handle : Nat} {declared : TypeDecl} {ref : TypeRef}
    (h : table.define handle declared = .ok (ref, newer)) :
    ∃ old, table.entries[handle]? = some old ∧ ref.handle = handle ∧
      newer = table.put handle ⟨old.key, declared, false⟩ := by
  unfold define at h
  split at h
  · cases h
  · rename_i old hold
    cases h
    exact ⟨old, hold, rfl, rfl⟩

/-- A change leaves all names in their places. -/
theorem Change.keys (h : Change offers table newer) : table.keys <+: newer.keys := by
  cases h with
  | declare declared isOpaque _ => exact keys_declare table declared isOpaque
  | define _ hdefine => exact keys_define hdefine ▸ List.prefix_refl _

/-- However often a table changes, all names stay in their places. -/
theorem Evolves.keys (h : Evolves offers table newer) : table.keys <+: newer.keys := by
  induction h with
  | refl => exact List.prefix_refl _
  | tail _ hchange ih => exact ih.trans hchange.keys

theorem Evolves.size_le (h : Evolves offers table newer) : table.size ≤ newer.size :=
  size_le_of_keys h.keys

/-- What every change keeps, a series of changes keeps. -/
theorem Evolves.induct {kept : TypeTable → Prop}
    (hchange : ∀ table newer, Change offers table newer → kept table → kept newer)
    (h : Evolves offers table newer) (htable : kept table) : kept newer := by
  induction h with
  | refl => exact htable
  | tail _ hstep ih => exact hchange _ _ hstep ih

/-- An entry of a table in which one was put is that one, or was there before. -/
theorem entry_of_put {handle place : Nat} {new old entry : TypeEntry}
    (hold : table.entries[handle]? = some old)
    (hentry : (table.put handle new).entries[place]? = some entry) :
    (place = handle ∧ entry = new) ∨ table.entries[place]? = some entry := by
  rw [put, List.getElem?_set] at hentry
  split at hentry
  · rename_i heq
    have hlt : handle < table.entries.length := lt_size_of_getElem? hold
    rw [if_pos hlt, Option.some.injEq] at hentry
    exact Or.inl ⟨heq.symm, hentry.symm⟩
  · exact Or.inr hentry

/-- Where the entries of a changed table come from: an entry was there before, was added at the end,
took the place of one of its name that it says more than, or was filled in with a body. -/
theorem Change.entry_cases (h : Change offers table newer) {place : Nat} {entry : TypeEntry}
    (hentry : newer.entries[place]? = some entry) :
    table.entries[place]? = some entry ∨
    (place = table.size ∧ entry.declared.Fits offers table.size) ∨
    (∃ old, table.entries[place]? = some old ∧ entry.declared.Fits offers table.size ∧
      entry.declared.aliases place = false ∧ entry.declared.saysMoreThan old.declared = true) ∨
    (∃ old, table.entries[place]? = some old ∧ entry.declared.members?.isSome = true) := by
  -- A declared type is added, takes the place of one, or is left out; a body fills in one entry.
  cases h with
  | declare declared isOpaque hfits =>
    rcases declare_cases table declared isOpaque with
      ⟨-, hadded⟩ | ⟨handle, old, -, hold, -, ⟨haliases, hmore, hnewer⟩ | ⟨-, hsame⟩⟩
    · rw [hadded, List.getElem?_append] at hentry
      split at hentry
      · exact Or.inl hentry
      · rename_i hge
        rw [List.getElem?_singleton] at hentry
        split at hentry
        -- Only one place is behind the old entries.
        · rename_i hzero
          cases hentry
          have hsize : place = table.size := by
            rw [size]
            omega
          exact Or.inr (Or.inl ⟨hsize, hfits⟩)
        · cases hentry
    · rw [hnewer] at hentry
      rcases entry_of_put hold hentry with ⟨rfl, rfl⟩ | hsame
      · exact Or.inr (Or.inr (Or.inl ⟨old, hold, hfits, haliases, hmore⟩))
      · exact Or.inl hsame
    · rw [hsame] at hentry
      exact Or.inl hentry
  | define hmembers hdefine =>
    obtain ⟨old, hold, -, rfl⟩ := exists_old_of_define hdefine
    rcases entry_of_put hold hentry with ⟨rfl, rfl⟩ | hsame
    · exact Or.inr (Or.inr (Or.inr ⟨old, hold, hmembers⟩))
    · exact Or.inl hsame

/-- An entry of a table has a successor in the same place of each later one, with the same name. -/
theorem Evolves.exists_entry (h : Evolves offers table newer) {place : Nat} {old : TypeEntry}
    (hold : table.entries[place]? = some old) :
    ∃ entry, newer.entries[place]? = some entry ∧ entry.key = old.key := by
  have hkey : table.keys[place]? = some old.key := by
    rw [getElem?_keys, hold]
    rfl
  obtain ⟨added, hadded⟩ := h.keys
  have hnewer : newer.keys[place]? = some old.key := by
    rw [← hadded, List.getElem?_append_left (List.getElem?_eq_some_iff.mp hkey).1, hkey]
  rw [getElem?_keys, Option.map_eq_some_iff] at hnewer
  exact hnewer

/-- The table of a new session comes about by declaring the primitive types and those of the
settings. -/
theorem evolves_ofSettings (settings : Settings) :
    Evolves (fun name => name ∈ primitives ++ settings.builtinTypes) {} (ofSettings settings) := by
  -- A name that is declared is one of those that are left to be declared.
  have hfold (table : TypeTable) (names : List String) :
      Evolves (· ∈ names) table
        (names.foldl (fun table name => (table.declare (.ofName (some name)) false).2) table) := by
    induction names generalizing table with
    | nil => exact .refl
    | cons name names ih =>
      rw [List.foldl_cons]
      refine Relation.ReflTransGen.head (.declare _ _ ⟨?_, ?_⟩)
        ((ih _).mono fun _ => List.mem_cons_of_mem name)
      · rintro text ⟨rfl⟩
        exact List.mem_cons_self
      · rintro typedef ⟨⟩
  exact hfold {} _

end TypeTable

open TypeTable Level

/-! ### The table that a reader leaves -/

section

variable {α β : Type} {offers : String → Prop}

/-- The step takes the table through a series of changes, also where it fails, and leaves a result
and a table that `done` holds of. -/
def Evolving (offers : String → Prop) (step : Reading α) (scope : Scope)
    (done : α → TypeTable → Prop) : Prop :=
  Ends step scope
    (fun a scope' => Evolves offers scope.types scope'.types ∧ done a scope'.types)
    (fun scope' => Evolves offers scope.types scope'.types)

variable {step : Reading α} {scope : Scope} {done : α → TypeTable → Prop}
  {done' : β → TypeTable → Prop}

/-- A second step may use what the first one is done with, in the table that it leaves. -/
theorem Evolving.bind {f : α → Reading β} (h : Evolving offers step scope done)
    (hf : ∀ a scope', Evolves offers scope.types scope'.types → done a scope'.types →
      Evolving offers (f a) scope' done') : Evolving offers (step >>= f) scope done' := by
  unfold Evolving
  rw [ends_bind]
  refine Ends.mono h ?_ fun _ h => h
  rintro a scope' ⟨hevolves, hdone⟩
  refine (hf a scope' hevolves hdone).mono ?_ ?_
  · rintro b scope'' ⟨hevolves', hdone'⟩
    exact ⟨hevolves.trans hevolves', hdone'⟩
  · exact fun scope'' hevolves' => hevolves.trans hevolves'

theorem Evolving.mono {offers' : String → Prop} {done₂ : α → TypeTable → Prop}
    (h : Evolving offers step scope done) (hoffers : ∀ name, offers name → offers' name)
    (hdone : ∀ a table, done a table → done₂ a table) : Evolving offers' step scope done₂ := by
  refine Ends.mono h ?_ fun _ h => h.mono hoffers
  rintro a scope' ⟨hevolves, hdone'⟩
  exact ⟨hevolves.mono hoffers, hdone _ _ hdone'⟩

theorem Evolving.pure {a : α} (h : done a scope.types) : Evolving offers (pure a) scope done := by
  unfold Evolving
  rw [ends_pure]
  exact ⟨.refl, h⟩

/-- A fault leaves the table as it is. -/
theorem Evolving.throw {fault : Fault} : Evolving offers (throw fault) scope done := by
  unfold Evolving
  rw [ends_throw]

/-- To look at the scope changes nothing. -/
theorem evolving_get {f : Scope → Reading α} :
    Evolving offers (get >>= f) scope done ↔ Evolving offers (f scope) scope done := by
  unfold Evolving
  rw [ends_bind, ends_get]

/-- What is read without a change of the scope leaves the table as it is. -/
theorem evolving_ofExcept (read : Except Fault α) :
    Evolving offers (Reading.ofExcept read) scope fun a _ => read = .ok a := by
  unfold Evolving
  rw [Reading.ends_ofExcept]
  exact ⟨fun a ha => ⟨.refl, ha⟩, fun _ _ => .refl⟩

/-- What is known of the result beside. -/
theorem Evolving.and {p : α → Prop} (h : Evolving offers step scope done)
    (hp : Ends step scope (fun a _ => p a) fun _ => True) :
    Evolving offers step scope fun a table => done a table ∧ p a :=
  (Ends.and h hp).mono (fun _ _ ⟨⟨hevolves, hdone⟩, ha⟩ => ⟨hevolves, hdone, ha⟩) fun _ h => h.1

/-- To declare a type is one change. -/
theorem evolving_declare {declared : TypeDecl} (hfits : declared.Fits offers scope.types.size)
    (isOpaque : Bool) :
    Evolving offers (Reading.declare declared isOpaque) scope
      fun ref table => ref.handle < table.size := by
  unfold Evolving
  rw [Reading.ends_declare]
  exact ⟨.single (.declare declared isOpaque hfits), handle_declare_lt _ _ _⟩

/-- To fill in an entry is one change. -/
theorem evolving_define {declared : TypeDecl} {handle : Nat}
    (hmembers : declared.members?.isSome = true) :
    Evolving offers (Reading.define handle declared) scope
      fun ref table => ref.handle < table.size := by
  unfold Evolving
  rw [Reading.ends_define]
  refine ⟨fun ref types hdefine => ⟨.single (.define hmembers hdefine), ?_⟩, fun _ _ => .refl⟩
  obtain ⟨old, hold, hhandle, rfl⟩ := exists_old_of_define hdefine
  rw [hhandle]
  simpa [size, put] using lt_size_of_getElem? hold

end

/-! ### Parts of types and statements of C -/

namespace TypeDecl

variable {level : Level} {scope : Scope}

/-- The name of a type is on offer where it stands. -/
theorem offers_of_typeName? {name : String} (h : typeName? level = some name) :
    level.Offers name := by
  unfold typeName? at h
  split at h
  · rename_i hname
    rw [atTypeName, Bool.or_eq_true] at hname
    exact ⟨level, .start, h, hname.imp_right Or.inl⟩
  · cases h

/-- A type that is asked for by its name is found, or declared by that name. -/
theorem evolving_findOrDeclare {offers : String → Prop} {name : Option String}
    (hoffers : ∀ text, name = some text → offers text) :
    Evolving offers (findOrDeclare name) scope fun ref table => ref.handle < table.size := by
  rw [findOrDeclare, evolving_get]
  split
  · rename_i found hfound
    obtain ⟨known, -, hlookup⟩ := Option.bind_eq_some_iff.mp hfound
    exact Evolving.pure (handle_lt_of_names (Scope.names_of_lookup hlookup))
  · have hfits : (ofName name).Fits offers scope.types.size := by
      refine ⟨hoffers, ?_⟩
      simp [ofName, typedef?]
    exact evolving_declare hfits true

/-- The declarator of a typedef has a name that stands in its level. -/
theorem evolving_readNamedDeclarator (offers : String → Prop) (aliased : TypeRef) (unnamed : Fault)
    (level : Level) (scope : Scope) :
    Evolving offers (readNamedDeclarator aliased unnamed level) scope
      fun result _ => level.Offers result.1 ∧ result.2.2 <:+ level := by
  have hnamed : Evolving offers (readNamedDeclarator aliased unnamed level) scope
      fun result _ => level.Offers result.1 := by
    rw [readNamedDeclarator, evolving_get]
    refine (evolving_ofExcept _).bind ?_
    rintro ⟨declarator, rest⟩ scope' _ hread
    dsimp only
    cases hname : declarator.name with
    | none => exact Evolving.throw
    | some name => exact Evolving.pure (Declarator.offers_of_read hread hname)
  exact hnamed.and ((readNamedDeclarator_passes aliased unnamed (admits_true level) scope).mono
    (fun _ _ h => h.suffix) fun _ h => h)

/-- A synonym fits where its name is on offer and the aliased type is in the table. -/
theorem fits_synonym {offers : String → Prop} {size : Nat} {qualifiers : Qualifiers} {name : String}
    {typedef : Typedef} (hname : offers name) (haliased : typedef.aliased.handle < size) :
    (synonym qualifiers name typedef).Fits offers size := by
  constructor
  · rintro text ⟨rfl⟩
    exact hname
  · rintro other ⟨rfl⟩
    exact haliased

/-- The further names of a typedef alias a type that is in the table already. -/
theorem evolving_readSiblings (qualifiers : Qualifiers) {aliased : TypeRef} (level : Level) :
    ∀ scope : Scope, aliased.handle < scope.types.size →
      Evolving level.Offers (readSiblings qualifiers aliased level) scope fun _ _ => True := by
  induction level using readSiblings_induct with
  | comma level hcomma ih =>
    intro scope haliased
    rw [readSiblings, if_pos hcomma]
    -- The names stand behind the commas, so the level offers them.
    have hnext : level.Reaches level.next := reaches_of_suffix (next_suffix level)
    refine (evolving_readNamedDeclarator _ _ _ _ _).bind ?_
    rintro ⟨name, declarator, rest⟩ scope₁ hevolves₁ ⟨hname, hrest⟩
    have haliased₁ := Nat.lt_of_lt_of_le haliased hevolves₁.size_le
    refine (evolving_declare (fits_synonym (hname.of_reaches hnext) haliased₁) false).bind ?_
    intro ref scope₂ hevolves₂ _
    dsimp only
    split
    · rename_i hlt
      -- The table has only grown, so the aliased type is still in it.
      have hsiblings := ih rest hlt scope₂ (Nat.lt_of_lt_of_le haliased₁ hevolves₂.size_le)
      have hreaches : level.Reaches rest := hnext.trans (reaches_of_suffix hrest)
      refine (hsiblings.mono (fun _ h => h.of_reaches hreaches) fun _ _ h => h).bind ?_
      exact fun _ _ _ _ => Evolving.pure trivial
    · exact Evolving.pure trivial
  | ends level hcomma =>
    intro scope _
    rw [readSiblings, if_neg hcomma]
    exact Evolving.pure trivial

end TypeDecl

/-- What is declared beside a type is read once the type is in the table. -/
theorem Declaration.evolving_readBeside {offers : String → Prop} {declared : TypeDecl}
    {level : Level} {scope : Scope} (hfits : declared.Fits offers scope.types.size)
    (hoffers : ∀ name, level.Offers name → offers name) :
    Evolving offers (readBeside declared level) scope fun _ _ => True := by
  unfold readBeside
  split
  · exact Evolving.pure trivial
  · refine (evolving_declare hfits false).bind ?_
    intro ref scope' hevolves _
    -- Beside a typedef stand further names for the same type; instances of a tagged type add no
    -- type.
    cases declared with
    | synonym qualifiers name typedef =>
      have haliased := Nat.lt_of_lt_of_le (hfits.aliased_lt typedef rfl) hevolves.size_le
      refine ((TypeDecl.evolving_readSiblings qualifiers level scope' haliased).mono hoffers
        fun _ _ h => h).bind ?_
      exact fun _ _ _ _ => Evolving.pure trivial
    | tagged qualifiers name members =>
      have hinstances : Evolving offers (readInstances ref level) scope' fun _ _ => True := by
        rw [readInstances, evolving_get]
        exact (evolving_ofExcept _).mono (fun _ h => h) fun _ _ _ => trivial
      exact hinstances.bind fun _ _ _ _ => Evolving.pure trivial

/-! ### Types and statements of C -/

namespace TypeDecl

variable {level : Level} {scope : Scope}

theorem reaches_afterTypeName (level : Level) :
    level.Reaches (afterTypeName level.afterLeftQualifiers) :=
  reaches_of_suffix ((afterTypeName_suffix _).trans (afterLeftQualifiers_suffix level))

theorem offers_of_name {name : String} (h : typeName? level.afterLeftQualifiers = some name) :
    level.Offers name :=
  (offers_of_typeName? h).of_reaches (reaches_of_suffix (afterLeftQualifiers_suffix level))

/-- The name that a typedef gives fits, as the type that it aliases got an entry first. -/
theorem evolving_readTypedef
    (hbody : ∀ scope, Evolving level.Offers (readBody? level) scope fun _ _ => True) :
    Evolving level.Offers (readTypedef level) scope
      fun result table => result.1.Fits level.Offers table.size := by
  have hafter := reaches_afterTypeName level
  rw [readTypedef]
  refine (evolving_findOrDeclare fun _ => offers_of_name).bind ?_
  intro named scope₁ _ hnamed
  refine (hbody scope₁).bind ?_
  intro members scope₂ hevolves₂ _
  -- The aliased type is the entry that was found or added, or the same entry with its body.
  cases members with
  | none =>
    refine (evolving_readNamedDeclarator _ _ _ _ _).bind ?_
    rintro ⟨newName, declarator, rest⟩ scope₃ hevolves₃ ⟨hname, -⟩
    refine Evolving.pure (fits_synonym (hname.of_reaches hafter) ?_)
    exact Nat.lt_of_lt_of_le (Nat.lt_of_lt_of_le hnamed hevolves₂.size_le) hevolves₃.size_le
  | some members =>
    refine (evolving_define rfl).bind ?_
    intro aliased scope₃ hevolves₃ haliased
    refine (evolving_readNamedDeclarator _ _ _ _ _).bind ?_
    rintro ⟨newName, declarator, rest⟩ scope₄ hevolves₄ ⟨hname, -⟩
    have hnext := hafter.trans (reaches_of_suffix (next_suffix _))
    refine Evolving.pure (fits_synonym (hname.of_reaches hnext) ?_)
    exact Nat.lt_of_lt_of_le haliased hevolves₄.size_le

/-- A tagged type has the name that stands in front of its body, and aliases nothing. -/
theorem fits_tagged (qualifiers : Qualifiers) (members : Option (List Member)) (size : Nat) :
    (tagged qualifiers (typeName? level.afterLeftQualifiers) members).Fits level.Offers size :=
  ⟨fun _ => offers_of_name, fun _ h => by cases h⟩

end TypeDecl

/-- Every reader of types and statements of C takes the table through changes, and each type that is
declared has a name that stands in the level. -/
theorem evolves_read :
    (∀ level scope, Evolving level.Offers (TypeDecl.read level) scope
      fun result table => result.1.Fits level.Offers table.size) ∧
    (∀ level scope, Evolving level.Offers (TypeDecl.readBody? level) scope fun _ _ => True) ∧
    (∀ level scope,
      Evolving (Level.Offers level) (TypeDecl.readMembers level) scope fun _ _ => True) ∧
    (∀ level scope, Evolving level.Offers (Declaration.read level) scope fun _ _ => True) ∧
    ∀ level scope, Evolving level.Offers (TypeDecl.readTypedef level) scope
      fun result table => result.1.Fits level.Offers table.size := by
  -- By the readers' own induction.  What stands in a body or in a rest of the level stands in the
  -- level, so the names that are offered there are offered by the level.
  apply TypeDecl.read_induct
  case typedef =>
    intro level htypedef ih scope
    rw [TypeDecl.read, if_pos htypedef]
    exact ih scope
  case tagged =>
    intro level htypedef ih scope
    rw [TypeDecl.read, if_neg htypedef]
    refine (ih scope).bind fun members scope' _ _ => ?_
    cases members with
    | none => exact Evolving.pure (TypeDecl.fits_tagged _ _ _)
    | some members => exact Evolving.pure (TypeDecl.fits_tagged _ _ _)
  case noBody =>
    intro level hnone scope
    rw [TypeDecl.readBody?_of_none hnone]
    exact Evolving.pure trivial
  case enumBody =>
    intro level contents hcontents henum scope
    rw [TypeDecl.readBody?_of_contents hcontents, if_pos henum]
    exact Evolving.pure trivial
  case body =>
    -- What stands in the body stands in the level.
    intro level contents hcontents henum ih scope
    have hreaches :=
      (TypeDecl.reaches_afterTypeName level).trans (reaches_of_groupContents? hcontents)
    rw [TypeDecl.readBody?_of_contents hcontents, if_neg henum]
    refine ((ih scope).mono (fun _ h => h.of_reaches hreaches) fun _ _ h => h).bind ?_
    exact fun _ _ _ _ => Evolving.pure trivial
  case noMember =>
    intro scope
    rw [TypeDecl.readMembers]
    exact Evolving.pure trivial
  case emptyStatement =>
    intro item items hitem ih scope
    have hreaches := reaches_of_suffix (List.suffix_cons item items)
    rw [TypeDecl.readMembers, if_pos hitem]
    exact (ih scope).mono (fun _ h => h.of_reaches hreaches) fun _ _ h => h
  case member =>
    intro item items hitem hread ih scope
    rw [TypeDecl.readMembers, if_neg hitem]
    refine ((hread scope).and (Declaration.read_rest _ scope)).bind ?_
    rintro ⟨declaration, rest⟩ scope' _ ⟨-, hrest⟩
    dsimp only
    split
    · rename_i hlt
      have hmembers := (ih rest hlt scope').mono
        (fun _ h => h.of_reaches (reaches_of_suffix hrest)) fun _ _ h => h
      exact hmembers.bind fun _ _ _ _ => Evolving.pure trivial
    · exact Evolving.pure trivial
  case statement =>
    intro level ih scope
    rw [Declaration.read, evolving_get]
    split
    · refine ((ih scope).and (TypeDecl.read_rest level scope)).bind ?_
      rintro ⟨declared, rest⟩ scope' _ ⟨hfits, hrest⟩
      refine (Declaration.evolving_readBeside hfits fun _ h =>
        h.of_reaches (reaches_of_suffix hrest)).bind ?_
      exact fun _ _ _ _ => Evolving.pure trivial
    · exact (evolving_ofExcept _).bind fun _ _ _ _ => Evolving.pure trivial
  case synonym => exact fun level ih scope => TypeDecl.evolving_readTypedef ih

/-! ### Sessions -/

namespace Declaration

/-- The next statement of a level takes the table through changes in either dialect. -/
theorem evolving_next? (dialect : Dialect) (level : Level) (scope : Scope) :
    Evolving level.Offers (next? dialect level) scope fun _ _ => True := by
  unfold next?
  split
  · exact Evolving.pure trivial
  · have hreaches := reaches_of_suffix (afterEmptyStatements_suffix level)
    have hread : Evolving level.Offers (readIn dialect (afterEmptyStatements level)) scope
        fun _ _ => True := by
      cases dialect with
      | c =>
        exact (evolves_read.2.2.2.1 (afterEmptyStatements level) scope).mono
          (fun _ h => h.of_reaches hreaches) fun _ _ h => h
      | fortran =>
        rw [readIn, evolving_get]
        exact (evolving_ofExcept _).mono (fun _ h => h) fun _ _ _ => trivial
    exact hread.bind fun _ _ _ _ => Evolving.pure trivial

/-- What is read up to the end of a level, or up to a fault, takes the table through changes. -/
theorem evolves_readAll (dialect : Dialect) (scope : Scope) (level : Level) :
    Evolves level.Offers scope.types (readAll dialect scope level).scope.types := by
  have hstep (scope : Scope) (level : Level) :=
    (evolving_next? dialect level scope).and (next?_rest dialect level scope)
  -- A round starts with the table that the last one has left, and with a part of the level.
  induction scope, level using readAll_induct dialect with
  | fault scope level fault scope' hnext =>
    rw [readAll, hnext]
    exact (ends_of_error hnext).mp (hstep scope level)
  | ends scope level scope' hnext =>
    rw [readAll, hnext]
    exact ((hstep scope level).of_ok hnext).1
  | statement scope level declaration rest scope' hnext hlt ih =>
    obtain ⟨hevolves, -, hrest⟩ := (hstep scope level).of_ok hnext
    have hreaches := reaches_of_suffix (hrest declaration rest rfl)
    rw [readAll, hnext]
    dsimp only
    rw [if_pos hlt]
    exact hevolves.trans (ih.mono fun _ h => h.of_reaches hreaches)
  | stuck scope level declaration rest scope' hnext hlt =>
    rw [readAll, hnext]
    dsimp only
    rw [if_neg hlt]
    exact ((hstep scope level).of_ok hnext).1

end Declaration

/-- The level that is read, where there is one: a source that is cut into no tokens has none. -/
def Parse.level? (scope : Scope) : Parse → Option Level
  | statement _ level => some level
  | type level => some level
  | source dialect text => (Node.ofSource dialect scope text).toOption.map Node.items

/-- What is read in a session takes the table through changes, for the names that its level
offers. -/
theorem Parse.evolving_read {offers : String → Prop} {scope : Scope} (parse : Parse)
    (hoffers : ∀ level, parse.level? scope = some level → ∀ name, level.Offers name → offers name) :
    Evolving offers parse.read scope fun _ _ => True := by
  cases parse with
  | statement dialect level =>
    have hnext := (Declaration.evolving_next? dialect level scope).mono (hoffers level rfl)
      fun _ _ h => h
    refine hnext.bind fun result scope' _ _ => ?_
    cases result with
    | none => exact Evolving.pure trivial
    | some result => exact Evolving.pure trivial
  | type level =>
    have hread := (evolves_read.1 level scope).mono (hoffers level rfl) fun _ _ h => h
    exact hread.bind fun _ _ _ _ => Evolving.pure trivial
  | source dialect text =>
    show Ends (Declaration.ofSource dialect text) scope _ _
    unfold Ends Declaration.ofSource
    -- A source that is cut into no tokens changes nothing.
    cases hroot : Node.ofSource dialect scope text with
    | error fault => exact .refl
    | ok root =>
      have hall := (Declaration.evolves_readAll dialect scope root.items).mono
        (hoffers root.items (by rw [level?, hroot]; rfl))
      dsimp only
      cases hread : Declaration.readAll dialect scope root.items with
      | mk declarations fault? scope' =>
        rw [hread] at hall
        cases fault? with
        | none => exact ⟨hall, trivial⟩
        | some fault => exact hall

namespace Session

/-- One more reading takes the table of a session through changes, also where it fails. -/
theorem evolves_after {offers : String → Prop} (session : Session) (parse : Parse)
    (hoffers : ∀ level, parse.level? session.scope = some level →
      ∀ name, level.Offers name → offers name) :
    Evolves offers session.scope.types (session.after parse).scope.types := by
  have hread := parse.evolving_read hoffers
  unfold after
  cases hresult : parse.read session.scope with
  | error fault scope => exact (ends_of_error hresult).mp hread
  | ok declarations scope => exact (hread.of_ok hresult).1

/-- Readings take the table of a session through changes. -/
theorem evolves_run (session : Session) (parses : List Parse) :
    Evolves (fun _ => True) session.scope.types (session.run parses).scope.types := by
  induction parses generalizing session with
  | nil => exact .refl
  | cons parse parses ih =>
    exact (session.evolves_after parse fun _ _ _ _ => trivial).trans (ih (session.after parse))

/-- The table of a session came about by changes from an empty one. -/
theorem evolves_start (settings : Settings) (hidden : List String) (parses : List Parse) :
    Evolves (fun _ => True) {} ((start settings hidden).run parses).scope.types :=
  ((evolves_ofSettings settings).mono fun _ _ => trivial).trans
    (evolves_run (start settings hidden) parses)

end Session

end CommonDecl

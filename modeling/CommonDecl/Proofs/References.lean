import CommonDecl.Scope
import Mathlib.Tactic.SplitIfs

/-!
# References into a table of types

`refs` collects every reference that occurs in a declaration, at any depth.  A table is sound
(`TypeTable.Sound`) if each entry is found by the name of its declaration, a placeholder says
nothing but its name, and each reference in an entry leads to an entry and carries the name of it.
Adding and replacing entries keep a table sound and leave each name where it is
(`TypeTable.declare_spec`, `TypeTable.define_spec`).  All that declaring a type can do to a table is
in `TypeTable.declare_cases`.
-/

namespace CommonDecl

/-! ### The references in a declaration -/

mutual

/-- The references to types in a declarator, in its arguments and in its nests. -/
def Declarator.refs : Declarator → List TypeRef
  | ⟨_, _, _, base, _, _, _, arguments, nests⟩ =>
    base.toList ++ refsOf arguments ++ refsOf nests

/-- The references to types in declarators. -/
def Declarator.refsOf : List Declarator → List TypeRef
  | [] => []
  | declarator :: rest => declarator.refs ++ refsOf rest

end

/-- The references in a declarator are its base, those of its arguments and those of its nests. -/
theorem Declarator.refs_eq (declarator : Declarator) :
    declarator.refs =
      declarator.base.toList ++ refsOf declarator.arguments ++ refsOf declarator.nests := by
  cases declarator
  rw [Declarator.refs]

@[simp]
theorem Declarator.refs_ofBase (ref : TypeRef) : (ofBase ref).refs = [ref] := rfl

@[simp]
theorem Declarator.refs_empty : ({} : Declarator).refs = [] := rfl

theorem Declarator.refsOf_append (first second : List Declarator) :
    refsOf (first ++ second) = refsOf first ++ refsOf second := by
  induction first with
  | nil => rfl
  | cons declarator first ih => rw [List.cons_append, refsOf, refsOf, ih, List.append_assoc]

mutual

/-- The references to types in a type, in its members and in what a typedef says of it. -/
def TypeDecl.refs : TypeDecl → List TypeRef
  | .tagged _ _ none => []
  | .tagged _ _ (some members) => Member.refsOf members
  | .synonym _ _ ⟨aliased, none, declarator⟩ => aliased :: declarator.refs
  | .synonym _ _ ⟨aliased, some definition, declarator⟩ =>
    aliased :: (definition.refs ++ declarator.refs)

/-- The references to types in members. -/
def Member.refsOf : List Member → List TypeRef
  | [] => []
  | .declaration declaration :: rest => declaration.refs ++ Member.refsOf rest
  | .enumerator _ _ :: rest => Member.refsOf rest

/-- The references to types in a statement. -/
def Declaration.refs : Declaration → List TypeRef
  | .type declared instances => declared.refs ++ Declarator.refsOf instances
  | .names declarators => Declarator.refsOf declarators

end

/-- The references to types in statements. -/
def Declaration.refsOf : List Declaration → List TypeRef
  | [] => []
  | declaration :: rest => declaration.refs ++ refsOf rest

theorem Declaration.refsOf_append (first second : List Declaration) :
    refsOf (first ++ second) = refsOf first ++ refsOf second := by
  induction first with
  | nil => rfl
  | cons declaration first ih => rw [List.cons_append, refsOf, refsOf, ih, List.append_assoc]

namespace TypeTable

/-! ### Names of entries -/

/-- The names by which the entries are found, in their order. -/
def keys (table : TypeTable) : List (Option String) :=
  table.entries.map TypeEntry.key

/-- A reference leads to the entry with this name and carries the name. -/
def Names (table : TypeTable) (ref : TypeRef) (key : Option String) : Prop :=
  table.keys[ref.handle]? = some key ∧ ref.name = key.getD ""

/-- Each of the references leads to an entry and carries the name of it, which is empty for an entry
without one. -/
def Resolves (table : TypeTable) (refs : List TypeRef) : Prop :=
  ∀ ref ∈ refs, ∃ entry, table.entries[ref.handle]? = some entry ∧ ref.name = entry.key.getD ""

variable {table newer : TypeTable}

/-- Each entry has its key at its own place. -/
theorem getElem?_keys (table : TypeTable) (handle : Nat) :
    table.keys[handle]? = table.entries[handle]?.map TypeEntry.key := by
  rw [keys, List.getElem?_map]

/-- References resolve if each of them names some entry. -/
theorem resolves_iff {refs : List TypeRef} :
    table.Resolves refs ↔ ∀ ref ∈ refs, ∃ key, table.Names ref key := by
  unfold Resolves Names
  refine forall₂_congr fun ref _ => ⟨?_, ?_⟩
  · rintro ⟨entry, hentry, hname⟩
    exact ⟨entry.key, by rw [getElem?_keys, hentry]; rfl, hname⟩
  · rintro ⟨key, hkey, hname⟩
    rw [getElem?_keys, Option.map_eq_some_iff] at hkey
    obtain ⟨entry, hentry, rfl⟩ := hkey
    exact ⟨entry, hentry, hname⟩

@[simp]
theorem resolves_nil : table.Resolves [] := by
  simp [Resolves]

/-- References of two lists resolve if those of each list do. -/
@[simp]
theorem resolves_append {first second : List TypeRef} :
    table.Resolves (first ++ second) ↔ table.Resolves first ∧ table.Resolves second := by
  simp only [Resolves, List.mem_append, or_imp, forall_and]

/-- A reference that names an entry leads to it. -/
theorem Names.resolves {ref : TypeRef} {key : Option String} (h : table.Names ref key) :
    table.Resolves [ref] := by
  rw [resolves_iff]
  intro other hother
  rw [List.mem_singleton] at hother
  exact ⟨key, hother ▸ h⟩

/-! ### Tables that grow -/

/-- A table that has grown keeps each key at its place. -/
theorem key_mono {handle : Nat} {key : Option String} (hkeys : table.keys <+: newer.keys)
    (h : table.keys[handle]? = some key) : newer.keys[handle]? = some key := by
  obtain ⟨added, hadded⟩ := hkeys
  rw [← hadded, List.getElem?_append_left (List.getElem?_eq_some_iff.mp h).1, h]

/-- A name stays where it is in a table that has grown. -/
theorem Names.mono {ref : TypeRef} {key : Option String} (hkeys : table.keys <+: newer.keys)
    (h : table.Names ref key) : newer.Names ref key :=
  ⟨key_mono hkeys h.1, h.2⟩

/-- References that resolve do so in a table that has grown. -/
theorem Resolves.mono {refs : List TypeRef} (hkeys : table.keys <+: newer.keys)
    (h : table.Resolves refs) : newer.Resolves refs := by
  rw [resolves_iff] at h ⊢
  intro ref href
  obtain ⟨key, hkey⟩ := h ref href
  exact ⟨key, hkey.mono hkeys⟩

/-- A name is found at the first key that it equals. -/
theorem handle?_eq (table : TypeTable) (name : String) :
    table.handle? name = table.keys.findIdx? (· == some name) := by
  rw [handle?, keys, List.findIdx?_map]
  rfl

/-- A name that is found stays where it is. -/
theorem handle?_mono {name : String} {handle : Nat} (hkeys : table.keys <+: newer.keys)
    (h : table.handle? name = some handle) : newer.handle? name = some handle := by
  rw [handle?_eq] at h ⊢
  obtain ⟨added, hadded⟩ := hkeys
  rw [← hadded, List.findIdx?_append, h]
  rfl

/-- The entry that a name leads to has this name. -/
theorem getElem?_of_handle? {name : String} {handle : Nat} (h : table.handle? name = some handle) :
    table.keys[handle]? = some (some name) := by
  rw [handle?_eq, List.findIdx?_eq_some_iff_getElem] at h
  obtain ⟨hlt, hname, -⟩ := h
  rw [List.getElem?_eq_getElem hlt, eq_of_beq hname]

/-- A reference that is found by a name leads to the entry with the name. -/
theorem names_of_lookup {name : String} {ref : TypeRef} (h : table.lookup name = some ref) :
    table.Names ref (some name) := by
  rw [lookup, Option.bind_eq_bind, Option.bind_eq_some_iff] at h
  obtain ⟨handle, hhandle, href⟩ := h
  have hkey := getElem?_of_handle? hhandle
  rw [ref?, Option.map_eq_some_iff] at href
  obtain ⟨entry, hentry, rfl⟩ := href
  rw [getElem?_keys, hentry, Option.map_some, Option.some.injEq] at hkey
  exact ⟨by rw [getElem?_keys, hentry, Option.map_some, hkey], by rw [hkey]⟩

/-- A name leads to the same place in a table that has grown. -/
theorem lookup_mono {name : String} {ref : TypeRef} (hkeys : table.keys <+: newer.keys)
    (h : table.lookup name = some ref) :
    ∃ ref', newer.lookup name = some ref' ∧ ref'.handle = ref.handle := by
  rw [lookup, Option.bind_eq_bind, Option.bind_eq_some_iff] at h
  obtain ⟨handle, hhandle, href⟩ := h
  rw [ref?, Option.map_eq_some_iff] at href
  obtain ⟨entry, hentry, rfl⟩ := href
  -- The first key with the name is the same one, and its entry may have changed but for the key.
  have hnewer := handle?_mono hkeys hhandle
  have hkey := getElem?_of_handle? hnewer
  rw [getElem?_keys, Option.map_eq_some_iff] at hkey
  obtain ⟨entry', hentry', -⟩ := hkey
  refine ⟨⟨handle, entry'.key.getD "", entry'.isOpaque⟩, ?_, rfl⟩
  show (newer.handle? name >>= newer.ref?) = _
  rw [hnewer]
  show newer.ref? handle = _
  rw [ref?, hentry']
  rfl

end TypeTable

/-- What a scope finds by a name has the name. -/
theorem Scope.names_of_lookup {scope : Scope} {name : String} {ref : TypeRef}
    (h : scope.lookup name = some ref) : scope.types.Names ref (some name) := by
  unfold Scope.lookup at h
  split at h
  · cases h
  · exact TypeTable.names_of_lookup h

namespace TypeTable

variable {table newer : TypeTable}

/-! ### Sound tables -/

/-- What holds of a table at all times. -/
structure Sound (table : TypeTable) : Prop where
  /-- An entry is found by the name of its declaration, one without a name by none. -/
  key_eq : ∀ entry ∈ table.entries, entry.key = entry.declared.name?
  /-- A placeholder has neither members nor an aliased type. -/
  bare_of_isOpaque : ∀ entry ∈ table.entries, entry.isOpaque = true →
    entry.declared.members? = none ∧ entry.declared.typedef? = none
  /-- The references in an entry lead to entries, and carry their names. -/
  resolves : ∀ entry ∈ table.entries, table.Resolves entry.declared.refs

/-- A table stays sound where one entry comes in or takes the place of another one. -/
theorem Sound.of_mem (h : table.Sound) (hkeys : table.keys <+: newer.keys) (new : TypeEntry)
    (hmem : ∀ entry ∈ newer.entries, entry ∈ table.entries ∨ entry = new)
    (hkey : new.key = new.declared.name?)
    (hplaceholder : new.isOpaque = true → new.declared.members? = none ∧
      new.declared.typedef? = none)
    (hrefs : table.Resolves new.declared.refs) : newer.Sound := by
  -- Each entry is an old one or the new one.
  constructor
  case key_eq =>
    intro entry hentry
    rcases hmem entry hentry with hold | rfl
    · exact h.key_eq entry hold
    · exact hkey
  case bare_of_isOpaque =>
    intro entry hentry
    rcases hmem entry hentry with hold | rfl
    · exact h.bare_of_isOpaque entry hold
    · exact hplaceholder
  case resolves =>
    intro entry hentry
    rcases hmem entry hentry with hold | rfl
    · exact (h.resolves entry hold).mono hkeys
    · exact hrefs.mono hkeys

/-- An entry in the place of one with its own name changes no name. -/
theorem keys_put (new : TypeEntry) {handle : Nat} {old : TypeEntry}
    (hold : table.entries[handle]? = some old) (hkey : new.key = old.key) :
    (table.put handle new).keys = table.keys := by
  rw [keys, put, List.map_set, hkey, ← keys]
  refine List.ext_getElem? fun n => ?_
  rw [List.getElem?_set]
  split_ifs with heq hlt
  · rw [← heq, getElem?_keys, hold]
    rfl
  · rw [List.getElem?_eq_none (by omega)]
  · rfl

/-- Of the entries that are left, only the new one was not there before. -/
theorem mem_put {handle : Nat} {new entry : TypeEntry}
    (h : entry ∈ (table.put handle new).entries) : entry ∈ table.entries ∨ entry = new :=
  List.mem_or_eq_of_mem_set h

/-- A type that is not found goes to the end of the table. -/
theorem append_spec (h : table.Sound) {declared : TypeDecl} {isOpaque : Bool}
    (hrefs : table.Resolves declared.refs)
    (hplaceholder : isOpaque = true → declared.members? = none ∧ declared.typedef? = none)
    {longer : TypeTable}
    (hlonger : longer = ⟨table.entries ++ [⟨declared.name?, declared, isOpaque⟩]⟩) :
    table.keys <+: longer.keys ∧ longer.Sound ∧
      longer.Names ⟨table.size, declared.name?.getD "", isOpaque⟩ declared.name? := by
  subst hlonger
  have hkeys : table.keys <+:
      (⟨table.entries ++ [⟨declared.name?, declared, isOpaque⟩]⟩ : TypeTable).keys := by
    rw [keys, keys, List.map_append]
    exact List.prefix_append _ _
  refine ⟨hkeys, h.of_mem hkeys ⟨declared.name?, declared, isOpaque⟩ ?_ rfl hplaceholder hrefs, ?_,
    rfl⟩
  · intro entry hentry
    rw [List.mem_append, List.mem_singleton] at hentry
    exact hentry
  · rw [getElem?_keys]
    simp [size]

/-- Declaring a type adds it at the end, puts it in the place of the entry of its name that it says
more than, or changes nothing. -/
theorem declare_cases (table : TypeTable) (declared : TypeDecl) (isOpaque : Bool) :
    ((declared.name? >>= table.handle?) = none ∧
      table.declare declared isOpaque = (⟨table.size, declared.name?.getD "", isOpaque⟩,
        ⟨table.entries ++ [⟨declared.name?, declared, isOpaque⟩]⟩)) ∨
    ∃ handle old, (declared.name? >>= table.handle?) = some handle ∧
      table.entries[handle]? = some old ∧ declared.name? = old.key ∧
      ((declared.aliases handle = false ∧ declared.saysMoreThan old.declared = true ∧
          table.declare declared isOpaque = (⟨handle, declared.name?.getD "", isOpaque⟩,
            table.put handle ⟨declared.name?, declared, isOpaque⟩)) ∨
        ((declared.aliases handle = true ∨ declared.saysMoreThan old.declared = false) ∧
          table.declare declared isOpaque =
            (⟨handle, old.declared.name?.getD "", old.isOpaque⟩, table))) := by
  unfold declare
  dsimp only
  -- The name leads to an entry or to none; an entry is replaced by a type that says more.
  cases hfound : declared.name? >>= table.handle? with
  | none => exact Or.inl ⟨rfl, rfl⟩
  | some handle =>
    obtain ⟨name, hname, hhandle⟩ := Option.bind_eq_some_iff.mp hfound
    have hkey := getElem?_of_handle? hhandle
    rw [getElem?_keys, Option.map_eq_some_iff] at hkey
    obtain ⟨old, hold, hkey⟩ := hkey
    refine Or.inr ⟨handle, old, rfl, hold, by rw [hname, hkey], ?_⟩
    dsimp only
    rw [hold]
    cases haliases : declared.aliases handle with
    | true => exact Or.inr ⟨Or.inl rfl, rfl⟩
    | false =>
      cases hmore : declared.saysMoreThan old.declared with
      | true => exact Or.inl ⟨rfl, rfl, by simp [hmore]⟩
      | false => exact Or.inr ⟨Or.inr rfl, by simp [hmore]⟩

/-- Adding a type keeps a table sound, leaves each name where it is, and gives a reference to the
entry with the name of the type. -/
theorem declare_spec (h : table.Sound) (declared : TypeDecl) (isOpaque : Bool)
    (hrefs : table.Resolves declared.refs)
    (hplaceholder : isOpaque = true → declared.members? = none ∧ declared.typedef? = none) :
    table.keys <+: (table.declare declared isOpaque).2.keys ∧
      (table.declare declared isOpaque).2.Sound ∧
      (table.declare declared isOpaque).2.Names (table.declare declared isOpaque).1
        declared.name? := by
  rcases declare_cases table declared isOpaque with
    ⟨-, hadded⟩ | ⟨handle, old, -, hold, hkey, ⟨-, -, hput⟩ | ⟨-, hsame⟩⟩
  -- The three outcomes of `declare_cases`: a new entry, one that is replaced, and no change.
  · rw [hadded]
    exact append_spec h hrefs hplaceholder rfl
  · rw [hput]
    have hkeys := keys_put ⟨declared.name?, declared, isOpaque⟩ hold hkey
    have hbegins : table.keys <+: (table.put handle ⟨declared.name?, declared, isOpaque⟩).keys :=
      ⟨[], by rw [List.append_nil, hkeys]⟩
    refine ⟨hbegins, h.of_mem hbegins ⟨declared.name?, declared, isOpaque⟩ (fun _ => mem_put) rfl
      hplaceholder hrefs, ?_, rfl⟩
    rw [hkeys, getElem?_keys, hold, Option.map_some, hkey]
  · rw [hsame]
    refine ⟨List.prefix_refl _, h, ?_, ?_⟩
    · rw [getElem?_keys, hold, Option.map_some, hkey]
    · rw [← h.key_eq old (List.mem_of_getElem? hold), hkey]

/-- Replacing a declaration by one of the same name keeps a table sound and leaves each name where
it is. -/
theorem define_spec (h : table.Sound) {declared : TypeDecl} {handle : Nat} {ref : TypeRef}
    (hdefine : table.define handle declared = .ok (ref, newer))
    (hkey : table.keys[handle]? = some declared.name?) (hrefs : table.Resolves declared.refs) :
    newer.keys = table.keys ∧ newer.Sound ∧ newer.Names ref declared.name? := by
  unfold define at hdefine
  rw [getElem?_keys, Option.map_eq_some_iff] at hkey
  obtain ⟨old, hold, hkey⟩ := hkey
  rw [hold] at hdefine
  cases hdefine
  have hkeys := keys_put ⟨old.key, declared, false⟩ hold rfl
  have hbegins : table.keys <+: (table.put handle ⟨old.key, declared, false⟩).keys :=
    ⟨[], by rw [List.append_nil, hkeys]⟩
  refine ⟨hkeys, h.of_mem hbegins ⟨old.key, declared, false⟩ (fun _ =>
    mem_put) hkey (by simp) hrefs, ?_, by rw [hkey]⟩
  rw [hkeys, getElem?_keys, hold, Option.map_some, hkey]

/-- The table of a new session is sound. -/
theorem sound_ofSettings (settings : Settings) : (ofSettings settings).Sound := by
  unfold ofSettings
  have hempty : ({} : TypeTable).Sound := ⟨by simp, by simp, by simp⟩
  generalize ({} : TypeTable) = table at hempty
  induction primitives ++ settings.builtinTypes generalizing table with
  | nil => exact hempty
  | cons name names ih =>
    rw [List.foldl_cons]
    refine ih _ (declare_spec hempty (TypeDecl.ofName (some name)) false ?_ (by simp)).2.1
    exact resolves_nil

/-! ### Which names are found -/

/-- A name is found just if an entry has it. -/
theorem isSome_lookup (table : TypeTable) (name : String) :
    (table.lookup name).isSome = true ↔ some name ∈ table.keys := by
  constructor
  · intro h
    obtain ⟨ref, href⟩ := Option.isSome_iff_exists.mp h
    exact List.mem_of_getElem? (names_of_lookup href).1
  · intro h
    -- The key is the first one with the name, or an earlier one is found.
    have hfound : (table.handle? name).isSome = true := by
      rw [handle?_eq, List.findIdx?_isSome, List.any_eq_true]
      exact ⟨some name, h, by simp⟩
    obtain ⟨handle, hhandle⟩ := Option.isSome_iff_exists.mp hfound
    have hkey := getElem?_of_handle? hhandle
    rw [getElem?_keys, Option.map_eq_some_iff] at hkey
    obtain ⟨entry, hentry, -⟩ := hkey
    rw [lookup, hhandle, Option.bind_eq_bind, Option.bind_some, ref?, hentry]
    rfl

/-- The type that is declared is found where the reference leads. -/
theorem key_declare (table : TypeTable) (declared : TypeDecl) (isOpaque : Bool) :
    (table.declare declared isOpaque).2.keys[(table.declare declared isOpaque).1.handle]? =
      some declared.name? := by
  rcases declare_cases table declared isOpaque with
    ⟨-, hadded⟩ | ⟨handle, old, -, hold, hkey, ⟨-, -, hput⟩ | ⟨-, hsame⟩⟩
  · rw [hadded, getElem?_keys]
    simp [size]
  · rw [hput, keys_put ⟨declared.name?, declared, isOpaque⟩ hold hkey, getElem?_keys, hold,
      Option.map_some, hkey]
  · rw [hsame, getElem?_keys, hold, Option.map_some, hkey]

/-- Adding a type adds its name and no other. -/
theorem mem_keys_declare (table : TypeTable) (declared : TypeDecl) (isOpaque : Bool)
    (name : String) :
    some name ∈ (table.declare declared isOpaque).2.keys ↔
      some name ∈ table.keys ∨ declared.name? = some name := by
  rcases declare_cases table declared isOpaque with ⟨-, hadded⟩ |
    ⟨handle, old, -, hold, hkey, hcases⟩
  · rw [hadded, keys, keys, List.map_append, List.mem_append, List.map_singleton,
      List.mem_singleton, eq_comm]
  · have hkeys : (table.declare declared isOpaque).2.keys = table.keys := by
      rcases hcases with ⟨-, -, hput⟩ | ⟨-, hsame⟩
      · rw [hput, keys_put ⟨declared.name?, declared, isOpaque⟩ hold hkey]
      · rw [hsame]
    -- The name leads to an entry, so the table has it already.
    have hmem : declared.name? ∈ table.keys := by
      rw [hkey]
      exact List.mem_map_of_mem (List.mem_of_getElem? hold)
    rw [hkeys]
    refine ⟨Or.inl, ?_⟩
    rintro (h | h)
    · exact h
    · rwa [← h]

/-- Replacing a declaration adds no name. -/
theorem keys_define {table types : TypeTable} {handle : Nat} {declared : TypeDecl} {ref : TypeRef}
    (h : table.define handle declared = .ok (ref, types)) : types.keys = table.keys := by
  unfold define at h
  split at h
  · cases h
  · rename_i old hold
    cases h
    exact keys_put ⟨old.key, declared, false⟩ hold rfl

/-- A type that is in the table can be filled in. -/
theorem exists_define {table : TypeTable} {key : Option String} {handle : Nat}
    (hkey : table.keys[handle]? = some key) (declared : TypeDecl) :
    ∃ ref newer, table.define handle declared = .ok (ref, newer) := by
  rw [getElem?_keys, Option.map_eq_some_iff] at hkey
  obtain ⟨old, hold, -⟩ := hkey
  unfold define
  rw [hold]
  exact ⟨_, _, rfl⟩

end TypeTable

/-- A scope knows the names of its table that are not hidden. -/
theorem Scope.knows_iff (scope : Scope) (text : String) :
    scope.knows text = true ↔ text ∉ scope.hidden ∧ some text ∈ scope.types.keys := by
  rw [knows, lookup]
  split
  · rename_i hhidden
    simp [List.contains_iff_mem.mp hhidden]
  · rename_i hhidden
    rw [TypeTable.isSome_lookup]
    rw [List.contains_iff_mem] at hhidden
    simp [hhidden]

end CommonDecl

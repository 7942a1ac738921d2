import CommonDecl.Proofs.MappedReferences

/-!
# Tables with one entry more

A table can be widened by an entry at any place.  The entries from that place on are then found one
place further along, and every reference to one of them is renumbered.  What a table answers to a
name other than that of the new entry is what the widened one answers, up to the renumbering
(`TypeTable.lookup_widen`), and declaring and defining types commute with it
(`TypeTable.declare_widen`, `TypeTable.define_widen`).
-/

namespace CommonDecl

/-! ### Renumbered references -/

/-- The number of a place after an entry came in at the place `place`. -/
def renumber (place handle : Nat) : Nat :=
  if handle < place then handle else handle + 1

theorem renumber_of_lt {place handle : Nat} (h : handle < place) : renumber place handle = handle :=
  if_pos h

theorem renumber_of_le {place handle : Nat} (h : place ≤ handle) :
    renumber place handle = handle + 1 :=
  if_neg (Nat.not_lt.mpr h)

theorem renumber_inj {place handle other : Nat} :
    renumber place handle = renumber place other ↔ handle = other := by
  unfold renumber
  split_ifs <;> omega

theorem renumber_succ (place handle : Nat) :
    renumber (place + 1) (handle + 1) = renumber place handle + 1 := by
  unfold renumber
  split_ifs <;> omega

/-- The reference to the same entry after another one came in. -/
def TypeRef.renumber (place : Nat) (ref : TypeRef) : TypeRef :=
  { ref with handle := CommonDecl.renumber place ref.handle }

theorem TypeRef.renumber_of_lt {place : Nat} {ref : TypeRef} (h : ref.handle < place) :
    ref.renumber place = ref := by
  rw [renumber, CommonDecl.renumber_of_lt h]

/-- The type with renumbered references. -/
abbrev TypeDecl.renumber (place : Nat) (declared : TypeDecl) : TypeDecl :=
  declared.mapRefs (TypeRef.renumber place)

/-- The statement with renumbered references. -/
abbrev Declaration.renumber (place : Nat) (declaration : Declaration) : Declaration :=
  declaration.mapRefs (TypeRef.renumber place)

variable {place : Nat}

/-! ### What a type says of itself -/

namespace TypeDecl

variable (declared : TypeDecl)

/-- A declaration aliases the same entry under its new number. -/
theorem aliases_renumber (handle : Nat) :
    (declared.renumber place).aliases (CommonDecl.renumber place handle) =
      declared.aliases handle := by
  have hbeq (other : Nat) :
      (CommonDecl.renumber place other == CommonDecl.renumber place handle) =
          (other == handle) := by
    rw [Bool.eq_iff_iff, beq_iff_eq, beq_iff_eq, renumber_inj]
  rcases declared with ⟨_, _, _ | _⟩ | ⟨_, _, ⟨aliased, _ | _, _⟩⟩
  · rfl
  · rfl
  · exact hbeq aliased.handle
  · exact hbeq aliased.handle

theorem saysMoreThan_renumber (old : TypeDecl) :
    (declared.renumber place).saysMoreThan (old.renumber place) = declared.saysMoreThan old := by
  simp only [saysMoreThan, ← Option.not_isSome, isSome_members?_mapRefs, isSome_typedef?_mapRefs]

end TypeDecl

/-! ### Lists with one item more -/

section

variable {α : Type} {new : α}

/-- What a search finds from the new item on, it finds one place further along. -/
theorem findIdx?_insertIdx {p : α → Bool} (hnew : p new = false) (items : List α) {place : Nat}
    (hplace : place ≤ items.length) :
    (items.insertIdx place new).findIdx? p = (items.findIdx? p).map (renumber place) := by
  induction items generalizing place with
  | nil =>
    obtain rfl : place = 0 := Nat.le_zero.mp hplace
    simp [List.findIdx?_cons, hnew]
  | cons item items ih =>
    cases place with
    | zero =>
      rw [List.insertIdx_zero, List.findIdx?_cons, hnew, if_neg Bool.false_ne_true]
      rfl
    | succ place =>
      rw [List.insertIdx_succ_cons, List.findIdx?_cons, List.findIdx?_cons,
        ih (Nat.le_of_succ_le_succ hplace)]
      split
      · rfl
      · rw [Option.map_map, Option.map_map]
        exact congrArg (fun f => (items.findIdx? p).map f)
          (funext fun handle => (renumber_succ place handle).symm)

theorem insertIdx_set (items : List α) (place handle : Nat) (item : α) :
    (items.set handle item).insertIdx place new =
      (items.insertIdx place new).set (renumber place handle) item := by
  induction items generalizing place handle with
  | nil => cases place <;> rfl
  | cons first items ih =>
    cases place with
    | zero => rfl
    | succ place =>
      cases handle with
      | zero => rfl
      | succ handle =>
        rw [renumber_succ, List.set_cons_succ, List.insertIdx_succ_cons, List.insertIdx_succ_cons,
          List.set_cons_succ, ih]

theorem insertIdx_append (items others : List α) {place : Nat} (hplace : place ≤ items.length) :
    (items ++ others).insertIdx place new = items.insertIdx place new ++ others := by
  induction items generalizing place with
  | nil =>
    obtain rfl : place = 0 := Nat.le_zero.mp hplace
    rfl
  | cons first items ih =>
    cases place with
    | zero => rfl
    | succ place =>
      rw [List.cons_append, List.insertIdx_succ_cons, List.insertIdx_succ_cons,
        ih (Nat.le_of_succ_le_succ hplace), List.cons_append]

end

/-! ### Wider tables -/

/-- The entry with renumbered references. -/
def TypeEntry.renumber (place : Nat) (entry : TypeEntry) : TypeEntry :=
  { entry with declared := entry.declared.renumber place }

namespace TypeTable

/-- The table with one entry more, which comes in at a place. -/
def widen (place : Nat) (entry : TypeEntry) (table : TypeTable) : TypeTable :=
  ⟨(table.entries.map (TypeEntry.renumber place)).insertIdx place entry⟩

variable {table : TypeTable} {entry : TypeEntry} (hplace : place ≤ table.size)

include hplace

theorem size_widen : (table.widen place entry).size = table.size + 1 := by
  rw [size, widen, List.length_insertIdx_of_le_length (by rwa [List.length_map]), List.length_map]
  rfl

omit hplace in
/-- Every entry is found under its new number, with renumbered references. -/
theorem getElem?_widen (handle : Nat) :
    (table.widen place entry).entries[renumber place handle]? =
      table.entries[handle]?.map (TypeEntry.renumber place) := by
  unfold widen
  by_cases hlt : handle < place
  · rw [renumber_of_lt hlt, List.getElem?_insertIdx_of_lt hlt, List.getElem?_map]
  · have hle : place ≤ handle := Nat.not_lt.mp hlt
    rw [renumber_of_le hle, List.getElem?_insertIdx_of_gt (by omega), Nat.add_sub_cancel,
      List.getElem?_map]

theorem handle?_widen {name : String} (hname : entry.key ≠ some name) :
    (table.widen place entry).handle? name = (table.handle? name).map (renumber place) := by
  let p (entry : TypeEntry) : Bool := entry.key == some name
  have hnew : p entry = false := beq_eq_false_iff_ne.mpr hname
  have hlength : place ≤ (table.entries.map (TypeEntry.renumber place)).length := by
    rwa [List.length_map]
  rw [handle?, widen]
  exact (findIdx?_insertIdx hnew _ hlength).trans (congrArg _ (List.findIdx?_map ..))

omit hplace in
theorem ref?_widen (handle : Nat) :
    (table.widen place entry).ref? (renumber place handle) =
      (table.ref? handle).map (TypeRef.renumber place) := by
  rw [ref?, ref?, getElem?_widen, Option.map_map, Option.map_map]
  rfl

/-- A name other than that of the new entry is found as before. -/
theorem lookup_widen {name : String} (hname : entry.key ≠ some name) :
    (table.widen place entry).lookup name = (table.lookup name).map (TypeRef.renumber place) := by
  rw [lookup, lookup, handle?_widen hplace hname]
  cases table.handle? name with
  | none => rfl
  | some handle => exact ref?_widen handle

omit hplace in
/-- An entry that takes the place of another one does so in the wider table. -/
theorem put_widen (handle : Nat) (new : TypeEntry) :
    (table.put handle new).widen place entry =
      (table.widen place entry).put (renumber place handle) (new.renumber place) := by
  rw [put, put, widen, List.map_set, insertIdx_set]
  rfl

/-- A type that goes to the end of the table goes to the end of the wider one. -/
theorem append_widen (new : TypeEntry) :
    TypeTable.widen place entry ⟨table.entries ++ [new]⟩ =
      ⟨(table.widen place entry).entries ++ [new.renumber place]⟩ := by
  rw [widen, List.map_append, insertIdx_append _ _ (by rwa [List.length_map])]
  rfl

/-- A type with another name than the new entry is declared as before. -/
theorem declare_widen {declared : TypeDecl}
    (hname : ∀ name, declared.name? = some name → entry.key ≠ some name) (isOpaque : Bool) :
    (table.widen place entry).declare (declared.renumber place) isOpaque =
      ((table.declare declared isOpaque).1.renumber place,
        (table.declare declared isOpaque).2.widen place entry) := by
  -- The name is found at the same entry, or in neither table.
  have hfound : (declared.name? >>= (table.widen place entry).handle?) =
      (declared.name? >>= table.handle?).map (renumber place) := by
    cases hown : declared.name? with
    | none => rfl
    | some name => exact handle?_widen hplace (hname name hown)
  have hsize : renumber place table.size = (table.widen place entry).size := by
    rw [size_widen hplace, renumber_of_le hplace]
  have hadded : TypeTable.widen place entry _ = _ :=
    append_widen hplace ⟨declared.name?, declared, isOpaque⟩
  unfold declare
  dsimp only
  rw [TypeDecl.name?_mapRefs, hfound]
  -- Either table adds an entry at its end or replaces the one of this name.
  cases declared.name? >>= table.handle? with
  | none =>
    dsimp only [Option.map_none]
    rw [hadded, TypeRef.renumber, hsize]
    rfl
  | some handle =>
    dsimp only [Option.map_some]
    rw [getElem?_widen]
    cases table.entries[handle]? with
    | none =>
      dsimp only [Option.map_none]
      rw [hadded, TypeRef.renumber, hsize]
      rfl
    | some old =>
      dsimp only [Option.map_some, TypeEntry.renumber]
      rw [TypeDecl.aliases_renumber, TypeDecl.saysMoreThan_renumber]
      split
      · dsimp only
        rw [put_widen]
        rfl
      · dsimp only
        rw [TypeDecl.name?_mapRefs]
        rfl

omit hplace in
/-- An entry of the table is filled in as before. -/
theorem define_widen (declared : TypeDecl) {handle : Nat} (hhandle : handle < table.size) :
    (table.widen place entry).define (renumber place handle) (declared.renumber place) =
      (table.define handle declared).map fun (ref, types) =>
        (ref.renumber place, types.widen place entry) := by
  have hold : table.entries[handle]? = some table.entries[handle] :=
    List.getElem?_eq_getElem hhandle
  unfold define
  rw [getElem?_widen, hold]
  show _ = Except.ok _
  dsimp only [Option.map_some]
  rw [put_widen]
  rfl

end TypeTable

/-! ### Wider scopes -/

/-- The scope with one more type in it. -/
def Scope.widen (place : Nat) (entry : TypeEntry) (scope : Scope) : Scope :=
  { scope with types := scope.types.widen place entry }

variable {scope : Scope} {entry : TypeEntry} {name : String} (hplace : place ≤ scope.types.size)
  (hname : entry.key ≠ some name)
include hplace hname

theorem Scope.lookup_widen :
    (scope.widen place entry).lookup name = (scope.lookup name).map (TypeRef.renumber place) := by
  rw [lookup, lookup]
  show (if scope.hidden.contains name then none
    else (scope.types.widen place entry).lookup name) = _
  split
  · rfl
  · exact TypeTable.lookup_widen hplace hname

theorem Scope.knows_widen : (scope.widen place entry).knows name = scope.knows name := by
  rw [knows, knows, Scope.lookup_widen hplace hname, Option.isSome_map]

end CommonDecl

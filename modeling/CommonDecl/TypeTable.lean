import CommonDecl.Declaration
import CommonDecl.Settings

/-!
# Tables of types

A table holds the types met so far in the order in which they were first named. An entry never moves
and is never taken out, so its place identifies the type. An entry without a key is a type without a
name, which no later declaration can mean.
-/

namespace CommonDecl

/-- A type in a table. -/
structure TypeEntry where
  /-- The name by which the entry is found. -/
  key : Option String
  declared : TypeDecl
  /-- The entry is a placeholder: it was named before anything else was known of it. -/
  isOpaque : Bool

/-- The types met so far. -/
structure TypeTable where
  entries : List TypeEntry := []

/-- A declaration says more than an older one: it has a body or aliases a type, and the older one
does not. -/
def TypeDecl.saysMoreThan (new old : TypeDecl) : Bool :=
  (new.members?.isSome && old.members?.isNone) || (new.typedef?.isSome && old.typedef?.isNone)

/-- A declaration aliases the entry at the place `handle`. -/
def TypeDecl.aliases (declared : TypeDecl) (handle : Nat) : Bool :=
  declared.typedef?.any fun typedef => typedef.aliased.handle == handle

namespace TypeTable

/-- The number of types. -/
def size (table : TypeTable) : Nat :=
  table.entries.length

/-- The declaration of the type at a place. -/
def get? (table : TypeTable) (handle : Nat) : Option TypeDecl :=
  table.entries[handle]?.map TypeEntry.declared

/-- The place of the type that is found by a name. -/
def handle? (table : TypeTable) (name : String) : Option Nat :=
  table.entries.findIdx? fun entry => entry.key == some name

/-- A reference to the entry at a place, which carries the name by which the entry is found. -/
def ref? (table : TypeTable) (handle : Nat) : Option TypeRef :=
  table.entries[handle]?.map fun entry => ⟨handle, entry.key.getD "", entry.isOpaque⟩

/-- The type that is found by a name. -/
def lookup (table : TypeTable) (name : String) : Option TypeRef :=
  table.handle? name >>= table.ref?

/-- The table with another entry at a place. -/
def put (table : TypeTable) (handle : Nat) (entry : TypeEntry) : TypeTable :=
  ⟨table.entries.set handle entry⟩

/-- Adds a type, or finds the one that has its name already. A type that was there is replaced only
by a declaration that says more, and never by a synonym of itself. -/
def declare (table : TypeTable) (declared : TypeDecl) (isOpaque : Bool) : TypeRef × TypeTable :=
  let new : TypeEntry := ⟨declared.name?, declared, isOpaque⟩
  let refTo (handle : Nat) (entry : TypeEntry) : TypeRef :=
    ⟨handle, entry.declared.name?.getD "", entry.isOpaque⟩
  let added := (refTo table.size new, { table with entries := table.entries ++ [new] })
  match declared.name? >>= table.handle? with
  | none => added
  | some handle =>
    match table.entries[handle]? with
    | none => added
    | some old =>
      if !declared.aliases handle && declared.saysMoreThan old.declared then
        (refTo handle new, table.put handle new)
      else (refTo handle old, table)

/-- Replaces the declaration of the type at a place, which is found by the same name as before. -/
def define (table : TypeTable) (handle : Nat) (declared : TypeDecl) :
    Except Fault (TypeRef × TypeTable) :=
  match table.entries[handle]? with
  | none => .error (.outOfRange handle table.size)
  | some old =>
    .ok (⟨handle, old.key.getD "", false⟩, table.put handle ⟨old.key, declared, false⟩)

/-- The primitive types of C. -/
def primitives : List String :=
  ["void", "bool", "char", "short", "int", "float", "double", "long long"]

/-- The table of a new session. -/
def ofSettings (settings : Settings) : TypeTable :=
  (primitives ++ settings.builtinTypes).foldl
    (fun table name => (table.declare (TypeDecl.ofName (some name)) false).2) {}

end TypeTable

end CommonDecl

import CommonDecl.Keywords
import CommonDecl.TypeTable

/-!
# Scopes

A scope is all that reading a declaration needs to know of its surroundings: the settings and the
types met so far. Some names can be hidden from it; a hidden name is not found, while everything
else about its type stays as it is.

`Reading` is a step that may add types to a scope and may fail. What it added before it failed
stays.
-/

namespace CommonDecl

/-- The surroundings of a declaration. -/
structure Scope where
  settings : Settings
  types : TypeTable
  /-- The names that are not found. -/
  hidden : List String := []

namespace Scope

/-- The scope of a new session. -/
def ofSettings (settings : Settings) : Scope :=
  { settings, types := TypeTable.ofSettings settings }

/-- The keywords of a dialect. -/
def keywords (scope : Scope) (dialect : Dialect) : Keywords :=
  Keywords.ofSettings dialect scope.settings

/-- The type that is found by a name. -/
def lookup (scope : Scope) (name : String) : Option TypeRef :=
  if scope.hidden.contains name then none else scope.types.lookup name

/-- A name is the name of a type. -/
def knows (scope : Scope) (name : String) : Bool :=
  (scope.lookup name).isSome

theorem lookup_of_not_knows {scope : Scope} {name : String} (h : scope.knows name = false) :
    scope.lookup name = none := by
  rwa [knows, Option.isSome_eq_false_iff, Option.isNone_iff_eq_none] at h

end Scope

/-- A step that may add types to a scope and may fail. -/
abbrev Reading (α : Type) := EStateM Fault Scope α

namespace Reading

/-- A step that adds no types. -/
def ofExcept {α : Type} : Except Fault α → Reading α
  | .ok a => pure a
  | .error fault => throw fault

/-- Adds a type, or finds the one that has its name already. -/
def declare (declared : TypeDecl) (isOpaque : Bool) : Reading TypeRef := fun scope =>
  let (ref, types) := scope.types.declare declared isOpaque
  .ok ref { scope with types }

/-- Replaces the declaration of the type at a place. -/
def define (handle : Nat) (declared : TypeDecl) : Reading TypeRef := fun scope =>
  match scope.types.define handle declared with
  | .ok (ref, types) => .ok ref { scope with types }
  | .error fault => .error fault scope

/-- Adds a type that was read, so that later declarations can use it. -/
def register (declared : TypeDecl) : Reading TypeRef :=
  declare declared false

end Reading

end CommonDecl

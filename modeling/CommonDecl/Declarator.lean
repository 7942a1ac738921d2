import CommonDecl.Fault

/-!
# Declarators

A declarator is one declared name with its type: a variable, a function, a pointer to a function or
an argument of one of those. The qualifiers of the type stand left of the base type, those of the
declarator right of it. Declarators in brackets, as in `int (*p)[10]`, are nests around the name.
The base type is known by its place in the table of types. A reference carries what is printed of
the type, so a declarator can be written without the table.
-/

namespace CommonDecl

/-- A reference to an entry of a table of types. -/
structure TypeRef where
  /-- The place of the entry. -/
  handle : Nat
  /-- The name of the type, empty for a type without a name. -/
  name : String
  /-- The entry was a placeholder, named before anything else was known of it. -/
  isOpaque : Bool
deriving DecidableEq

/-- What a declarator declares. -/
inductive DeclaratorKind where
  | variable
  | functionDeclaration
  | functionDefinition
  | functionPointer
  /-- A nest that is followed by its own argument list. -/
  | nestedFunction
deriving DecidableEq

/-- The kinds that have an argument list after the name or the nests. -/
def DeclaratorKind.isFunction : DeclaratorKind → Bool
  | .functionDeclaration | .functionDefinition | .functionPointer => true
  | .variable | .nestedFunction => false

/-- One declared name. -/
structure Declarator where
  kind : DeclaratorKind := .variable
  /-- The qualifiers of the type. -/
  left : Qualifiers := {}
  /-- The qualifiers of the declarator, among them its pointers. -/
  right : Qualifiers := {}
  base : Option TypeRef := none
  name : Option String := none
  /-- The text inside each pair of square brackets after the name. -/
  dimensions : List String := []
  /-- The text inside each pair of square brackets after the nests. -/
  outerDimensions : List String := []
  arguments : List Declarator := []
  /-- The nests around the name, outermost first. A nest holds the qualifiers after its `*` and what
  follows the nest inside it. -/
  nests : List Declarator := []

namespace Declarator

/-- A declarator of a type, without a name. -/
def ofBase (base : TypeRef) : Declarator :=
  { base := some base }

/-- The number of pointer levels. -/
def pointerCount (declarator : Declarator) : Nat :=
  declarator.right.countOf "*"

/-- The number of nests around the name. -/
def nestDepth (declarator : Declarator) : Nat :=
  declarator.nests.length

/-- The argument at a position. -/
def argument (declarator : Declarator) (position : Nat) : Except Fault Declarator :=
  match declarator.arguments[position]? with
  | some argument => .ok argument
  | none => .error (.outOfRange position declarator.arguments.length)

/-- The declarator with one more argument at a position, which may be the end. -/
def addArgument (declarator : Declarator) (position : Nat) (argument : Declarator) :
    Except Fault Declarator :=
  if declarator.arguments.length < position then
    .error (.outOfRange position declarator.arguments.length)
  else .ok { declarator with arguments := declarator.arguments.insertIdx position argument }

end Declarator

end CommonDecl

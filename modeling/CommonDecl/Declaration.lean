import CommonDecl.Declarator

/-!
# Declarations

A declaration is one statement: it declares a type, perhaps with variables beside it, or variables
and functions that share a base type. A type is tagged, as a struct, union, enum or primitive is, or
it is a synonym made by a typedef.
-/

namespace CommonDecl

mutual

/-- What a typedef says of the type it names. -/
structure Typedef where
  /-- The type that is given a further name. -/
  aliased : TypeRef
  /-- The aliased type as it was defined inside the typedef. -/
  definition : Option TypeDecl
  /-- The part that holds the new name, with its pointers and dimensions. -/
  declarator : Declarator

/-- A declared type. -/
inductive TypeDecl where
  /-- A type with a tag. It has no members where it was only declared, as in `struct Point;`. -/
  | tagged (qualifiers : Qualifiers) (name : Option String) (members : Option (List Member))
  /-- A further name for a type. -/
  | synonym (qualifiers : Qualifiers) (name : String) (typedef : Typedef)

/-- An entry in the body of a type. -/
inductive Member where
  /-- A field, or a type declared inside. -/
  | declaration (declaration : Declaration)
  | enumerator (name : String) (value : Option String)

/-- One statement. -/
inductive Declaration where
  /-- A type, with what is declared beside it. -/
  | type (declared : TypeDecl) (instances : List Declarator)
  /-- Variables or functions that share a base type. -/
  | names (declarators : List Declarator)

end

namespace TypeDecl

/-- A type of which nothing but its name is known. -/
def ofName (name : Option String) : TypeDecl :=
  tagged {} name none

/-- The qualifiers left of the type. -/
def qualifiers : TypeDecl → Qualifiers
  | tagged qualifiers _ _ => qualifiers
  | synonym qualifiers _ _ => qualifiers

/-- The name that the declaration gives to the type. -/
def name? : TypeDecl → Option String
  | tagged _ name _ => name
  | synonym _ name _ => some name

/-- The members of a type with a body. -/
def members? : TypeDecl → Option (List Member)
  | tagged _ _ members => members
  | synonym _ _ _ => none

/-- What a typedef says of the type. -/
def typedef? : TypeDecl → Option Typedef
  | tagged _ _ _ => none
  | synonym _ _ typedef => some typedef

/-- The number of members, zero for a type without a body. -/
def memberCount (declared : TypeDecl) : Nat :=
  (declared.members?.getD []).length

/-- The type is a synonym. -/
def isSynonym (declared : TypeDecl) : Bool :=
  declared.typedef?.isSome

end TypeDecl

namespace Member

/-- The member is a type declared inside another. -/
def isType : Member → Bool
  | declaration (.type _ _) => true
  | _ => false

/-- The member is a field. -/
def isField : Member → Bool
  | declaration (.names _) => true
  | _ => false

end Member

namespace Declaration

/-- The names that the statement declares beside a type. -/
def declarators : Declaration → List Declarator
  | type _ instances => instances
  | names declarators => declarators

end Declaration

end CommonDecl

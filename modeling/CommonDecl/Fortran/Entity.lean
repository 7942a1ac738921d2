import CommonDecl.Declaration.Read
import CommonDecl.Fortran.Attributes

/-!
# Entities and statements of Fortran

An entity is one name of a statement: `[SUBROUTINE|FUNCTION] name [(arguments)] [(dimensions)]`. It
has the attributes of the statement, or its own where it stands alone. A statement is a list of
attributes and the entities that have them, or the heading of a subroutine or function. It declares
variables, never types.
-/

namespace CommonDecl.Fortran

/-- The declarator as it is declared by `SUBROUTINE` or `FUNCTION`, and the level after that word. A
subroutine gives back nothing. -/
def readHeading (scope : Scope) (declarator : Declarator) (level : Level) : Declarator × Level :=
  if level.isTokenAnyCase "SUBROUTINE" then
    ({ declarator with base := scope.lookup "void", kind := .functionDeclaration }, level.next)
  else if level.isTokenAnyCase "FUNCTION" then
    ({ declarator with kind := .functionDeclaration }, level.next)
  else (declarator, level)

/-- The declarator with the name that a level starts with, and the level after it. -/
def readName (declarator : Declarator) (level : Level) : Declarator × Level :=
  if level.isIdentifier then ({ declarator with name := level.value? }, level.next)
  else (declarator, level)

/-- The arguments in a list: bare names, each with whatever follows it up to the next comma. Their
types are declared elsewhere. -/
def argumentNames (list : Level) : List Declarator :=
  if h : list = [] then []
  else
    (if list.isIdentifier then [{ name := list.value? }] else []) ++
      argumentNames (list.skipPast ",")
termination_by list.length
decreasing_by exact Level.length_skipPast_lt h ","

@[elab_as_elim]
theorem argumentNames_induct {motive : Level → Prop} (nil : motive [])
    (argument : ∀ list : Level, ¬ list = [] → motive (list.skipPast ",") → motive list)
    (list : Level) :
    motive list :=
  argumentNames.induct motive nil argument list

/-- The declarator with the argument list that a level starts with, and the level after it. -/
def readArguments (declarator : Declarator) (level : Level) : Declarator × Level :=
  match level.groupContents? .parenthesis with
  | some list =>
    if declarator.kind.isFunction then
      ({ declarator with arguments := declarator.arguments ++ argumentNames list }, level.next)
    else (declarator, level)
  | none => (declarator, level)

/-- The declarator with the dimension list that a level starts with, and the level after it. -/
def readDimensions (declarator : Declarator) (level : Level) : Declarator × Level :=
  match level.groupContents? .parenthesis with
  | some list => (withDimensions list declarator, level.next)
  | none => (declarator, level)

/-- Reads the part of an entity after its attributes into a declarator. -/
def readEntity (scope : Scope) (declarator : Declarator) (level : Level) : Declarator × Level :=
  let (declarator, level) := readHeading scope declarator level
  let (declarator, level) := readName declarator level
  let (declarator, level) := readArguments declarator level
  readDimensions declarator level

/-- The declarator with the attributes of another one. -/
def withAttributesOf (shared declarator : Declarator) : Declarator :=
  { declarator with
    left := shared.left
    right := shared.right
    base := shared.base
    dimensions := shared.dimensions }

/-- Reads the part of an entity after its attributes into the declarator at hand. -/
def readRest (scope : Scope) (level : Level) : Attributing Level := fun declarator =>
  let (declarator, rest) := readEntity scope declarator level
  .ok rest declarator

/-- Reads an entity into the declarator at hand: with the attributes of the template, or else with
those that the level starts with. The result is the rest of the level. -/
def readDeclarator (scope : Scope) (template : Option Declarator) (level : Level) :
    Attributing Level :=
  match template with
  | some shared => do
    modify (withAttributesOf shared)
    readRest scope level
  | none => do
    let rest ← readAttributes scope level
    readRest scope rest

/-! ### Statements -/

/-- Reads one statement with the `;` that ends it. -/
def readStatement (scope : Scope) (level : Level) : Except Fault (Declaration × Level) :=
  match readAttributes scope level {} with
  | .error fault _ => .error fault
  | .ok rest shared => do
    let entity (level : Level) : Except Fault (Declarator × Level) :=
      .ok (readEntity scope (withAttributesOf shared {}) level)
    let (declarators, rest) ← rest.readSeparated entity
    return (.names declarators, rest.afterSemicolon)

end CommonDecl.Fortran

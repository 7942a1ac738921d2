import CommonDecl.Declaration.Render

/-!
# Outlines

An outline shows a declaration with one line for each part, indented by two spaces per level. Names
can be written in colour for a terminal.
-/

namespace CommonDecl

/-- The lines written so far, and the depth of the next one. -/
structure Outline where
  depth : Nat := 0
  text : String := ""

namespace Outline

/-- The outline with one more line. -/
def write (outline : Outline) (line : String) : Outline :=
  { outline with text := outline.text ++ indentation outline.depth ++ line ++ "\n" }

/-- The next lines stand one level deeper. -/
def indent (outline : Outline) : Outline :=
  { outline with depth := outline.depth + 1 }

/-- The next lines stand one level less deep, if there is one. -/
def dedent (outline : Outline) : Outline :=
  { outline with depth := outline.depth - 1 }

/-! ### Names in colour -/

/-- What a terminal takes for the start of yellow text. -/
def yellow : List Char := "\x1b[33m".toList

/-- What a terminal takes for the end of coloured text. -/
def plain : List Char := "\x1b[0m".toList

/-- The text with yellow started again after each end of coloured text inside it. -/
def restartYellow : List Char → List Char
  | '\x1b' :: '[' :: '0' :: 'm' :: rest => plain ++ yellow ++ restartYellow rest
  | c :: rest => c :: restartYellow rest
  | [] => []

/-- A name in yellow where colour is asked for. -/
def paint (colored : Bool) (name : String) : String :=
  if colored then String.ofList (yellow ++ restartYellow name.toList ++ plain) else name

/-! ### Parts of a declaration -/

/-- How an outline calls a kind of declarator. -/
def kindText : DeclaratorKind → String
  | .variable => "Variable"
  | .functionDeclaration => "FunctionDeclaration"
  | .functionDefinition => "FunctionDefinition"
  | .functionPointer => "FunctionPointer"
  | .nestedFunction => "NestedFunction"

mutual

/-- Adds a declarator: a line with its kind, name and text, and below it the arguments of each nest
and its own. -/
def addDeclarator (colored : Bool) (outline : Outline) : Declarator → Outline
  | ⟨kind, left, right, base, name, dimensions, outerDimensions, arguments, nests⟩ =>
    let declarator : Declarator :=
      ⟨kind, left, right, base, name, dimensions, outerDimensions, arguments, nests⟩
    let head := kindText kind ++ " " ++ paint colored (name.getD "<unnamed>") ++ ": " ++
      declarator.render true
    let outline := addNests colored 0 (outline.write head).indent nests
    (addDeclarators colored outline arguments).dedent

/-- Adds declarators one after the other. -/
def addDeclarators (colored : Bool) (outline : Outline) : List Declarator → Outline
  | [] => outline
  | declarator :: rest =>
    addDeclarators colored (addDeclarator colored outline declarator) rest

/-- Adds nests with their arguments, the first of them under the number `index`. -/
def addNests (colored : Bool) (index : Nat) (outline : Outline) : List Declarator → Outline
  | [] => outline
  | ⟨_, _, _, _, _, _, _, arguments, _⟩ :: rest =>
    let outline := (outline.write ("nest " ++ toString index)).indent
    addNests colored (index + 1) (addDeclarators colored outline arguments).dedent rest

end

mutual

/-- Adds a type: a line with its name, and below it its members or what a typedef defines. -/
def addType (colored : Bool) (outline : Outline) : TypeDecl → Outline
  | .synonym _ name ⟨aliased, none, _⟩ =>
    outline.write ("typedef " ++ paint colored name ++ " = " ++ aliased.name)
  | .synonym _ name ⟨aliased, some definition, _⟩ =>
    let outline := outline.write ("typedef " ++ paint colored name ++ " = " ++ aliased.name)
    (addType colored outline.indent definition).dedent
  | .tagged qualifiers name none =>
    outline.write
      ("type " ++ qualifiers.leadingText ++ paint colored (name.getD "<anonymous>"))
  | .tagged qualifiers name (some members) =>
    let outline := outline.write
      ("type " ++ qualifiers.leadingText ++ paint colored (name.getD "<anonymous>"))
    (addMembers colored outline.indent members).dedent

/-- Adds members one after the other. -/
def addMembers (colored : Bool) (outline : Outline) : List Member → Outline
  | [] => outline
  | member :: rest => addMembers colored (addMember colored outline member) rest

/-- Adds a member: a declaration, or a line for an enumerator. -/
def addMember (colored : Bool) (outline : Outline) : Member → Outline
  | .declaration declaration => addDeclaration colored outline declaration
  | .enumerator name (some value) =>
    outline.write ("enumerator " ++ paint colored name ++ " = " ++ value)
  | .enumerator name none => outline.write ("enumerator " ++ paint colored name)

/-- Adds a declaration: the type that it declares, then its declarators. -/
def addDeclaration (colored : Bool) (outline : Outline) : Declaration → Outline
  | .type declared instances =>
    addDeclarators colored (addType colored outline declared) instances
  | .names declarators => addDeclarators colored outline declarators

end

/-- The outline of a declaration. -/
def ofDeclaration (colored : Bool) (declaration : Declaration) : String :=
  (addDeclaration colored {} declaration).text

end Outline

end CommonDecl

import CommonDecl.Declarator
import CommonDecl.Text.Basic

/-!
# Declarators as text

`Declarator.render` writes a declarator as C. With the type it starts with the left qualifiers and
the base type; without, it is one of the further names of a statement such as `int a, *b`.
-/

namespace CommonDecl.Declarator

/-- The text of array dimensions. -/
def dimensionsText (dimensions : List String) : String :=
  String.join (dimensions.map fun dimension => "[" ++ dimension ++ "]")

/-- A space stands before the name and not after the base type: where there is nothing right of the
base type, and in `int* f()`, so that the pointer reads as part of what the function returns. -/
def spaceBeforeName (declarator : Declarator) : Bool :=
  (declarator.right.isEmpty && declarator.name.isNone) ||
    (declarator.kind.isFunction && declarator.right.endsInPointer)

/-- The left qualifiers, the base type and the space after them. -/
def typeText (declarator : Declarator) : String :=
  declarator.left.leadingText ++
    match declarator.base with
    | some base => base.name ++ if declarator.spaceBeforeName then "" else " "
    | none => ""

/-- The name, with a space before it where the type asks for it. -/
def nameText (withType : Bool) (declarator : Declarator) : String :=
  match declarator.name with
  | some name => (if withType && declarator.spaceBeforeName then " " else "") ++ name
  | none => ""

/-- What opens the nests, outermost first. -/
def nestOpenings (declarator : Declarator) : String :=
  String.join (declarator.nests.map fun nest => "(*" ++ nest.right.leadingText)

mutual

/-- The declarator as C, with its type or without. -/
def render (withType : Bool) : Declarator → String
  | ⟨kind, left, right, base, name, dimensions, outerDimensions, arguments, nests⟩ =>
    let declarator : Declarator :=
      ⟨kind, left, right, base, name, dimensions, outerDimensions, arguments, nests⟩
    Text.trimEnd <|
      (if withType then declarator.typeText else "") ++ right.leadingText ++
        declarator.nestOpenings ++ declarator.nameText withType ++ dimensionsText dimensions ++
        nestClosings nests ++ dimensionsText outerDimensions ++
        if kind.isFunction then "(" ++ ", ".intercalate (renderAll arguments) ++ ")" else ""

/-- Each declarator as C, with its type. -/
def renderAll : List Declarator → List String
  | [] => []
  | declarator :: rest => declarator.render true :: renderAll rest

/-- What follows and closes each nest, innermost first. -/
def nestClosings : List Declarator → String
  | [] => ""
  | ⟨kind, _, _, _, _, dimensions, _, arguments, _⟩ :: rest =>
    nestClosings rest ++ dimensionsText dimensions ++
      (if kind = .nestedFunction then "(" ++ ", ".intercalate (renderAll arguments) ++ ")"
        else "") ++ ")"

end

/-- The texts are the text of each declarator. -/
theorem renderAll_eq_map (declarators : List Declarator) :
    renderAll declarators = declarators.map (render true) := by
  induction declarators with
  | nil => rfl
  | cons declarator rest ih => rw [renderAll, List.map_cons, ih]

end CommonDecl.Declarator

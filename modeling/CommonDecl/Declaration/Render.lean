import CommonDecl.Declaration
import CommonDecl.Declarator.Render

/-!
# Declarations as text

A declaration is written as C without its closing `;`. The body of a type takes a line for each
member, two spaces further right than the type; the first line is never indented.
-/

namespace CommonDecl

/-- The spaces in front of a line. -/
def indentation (depth : Nat) : String :=
  String.join (List.replicate depth "  ")

/-- What stands in front of a body: a space, unless nothing or a space stands there already. -/
def beforeBody (head : String) : String :=
  if head.toList = [] ∨ head.toList.getLast? = some ' ' then head else head ++ " "

/-- Further declarators of a statement, without their type. -/
def furtherText (separator : String) : List Declarator → String
  | [] => ""
  | declarators => separator ++ ", ".intercalate (declarators.map (Declarator.render false))

/-- Only the texts of further declarators matter. -/
theorem furtherText_congr {declarators declarators' : List Declarator}
    (h : declarators.map (Declarator.render false) = declarators'.map (Declarator.render false))
    (separator : String) :
    furtherText separator declarators = furtherText separator declarators' := by
  cases declarators with
  | nil =>
    rw [List.map_nil, eq_comm, List.map_eq_nil_iff] at h
    rw [h]
  | cons first rest =>
    cases declarators' with
    | nil => cases h
    | cons first' rest' =>
      show separator ++ ", ".intercalate _ = separator ++ ", ".intercalate _
      rw [h]

mutual

/-- The type as C, its first line at the given depth. -/
def TypeDecl.render (depth : Nat) : TypeDecl → String
  | .tagged qualifiers name none => Text.trimEnd (qualifiers.leadingText ++ name.getD "")
  | .tagged qualifiers name (some members) =>
    Text.trimEnd <|
      beforeBody (qualifiers.leadingText ++ name.getD "") ++ "\x7b\n" ++
        renderMembers (depth + 1) members ++ indentation depth ++ "\x7d"
  | .synonym qualifiers _ ⟨aliased, none, declarator⟩ =>
    Text.trimEnd <|
      "typedef " ++ qualifiers.leadingText ++ aliased.name ++ " " ++ declarator.render false
  | .synonym qualifiers _ ⟨_, some definition, declarator⟩ =>
    Text.trimEnd <|
      "typedef " ++ qualifiers.leadingText ++ definition.render depth ++ " " ++
        declarator.render false

/-- The members as lines at the given depth. A comma follows each enumerator but the last entry, and
a semicolon each declaration. -/
def renderMembers (depth : Nat) : List Member → String
  | [] => ""
  | .enumerator name value :: rest =>
    indentation depth ++ Member.render depth (.enumerator name value) ++
      (if rest.isEmpty then "" else ",") ++ "\n" ++ renderMembers depth rest
  | .declaration declaration :: rest =>
    indentation depth ++ declaration.render depth ++ ";\n" ++ renderMembers depth rest

/-- The member as C, without what separates it from the next one. -/
def Member.render (depth : Nat) : Member → String
  | .declaration declaration => declaration.render depth
  | .enumerator name (some value) => name ++ " = " ++ value
  | .enumerator name none => name

/-- The statement as C. -/
def Declaration.render (depth : Nat) : Declaration → String
  | .type declared instances =>
    declared.render depth ++ furtherText (if declared.isSynonym then ", " else " ") instances
  | .names [] => ""
  | .names (first :: rest) => first.render true ++ furtherText ", " rest

end

end CommonDecl

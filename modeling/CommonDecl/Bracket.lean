/-!
# Brackets

The three kinds of bracket that group tokens, with the text that opens and closes each.
-/

namespace CommonDecl

/-- A kind of bracket. -/
inductive Bracket where
  | parenthesis
  | square
  | brace
deriving DecidableEq

namespace Bracket

/-- The text that opens a group. -/
def opening : Bracket → String
  | parenthesis => "("
  | square => "["
  | brace => "\x7b"

/-- The text that closes a group. -/
def closing : Bracket → String
  | parenthesis => ")"
  | square => "]"
  | brace => "\x7d"

/-- The bracket that a text opens. -/
def ofOpening? (text : String) : Option Bracket :=
  if text = "(" then some parenthesis
  else if text = "[" then some square
  else if text = "\x7b" then some brace
  else none

/-- The bracket that a text closes. -/
def ofClosing? (text : String) : Option Bracket :=
  if text = ")" then some parenthesis
  else if text = "]" then some square
  else if text = "\x7d" then some brace
  else none

@[simp]
theorem ofOpening?_opening (bracket : Bracket) : ofOpening? bracket.opening = some bracket := by
  cases bracket <;> rfl

@[simp]
theorem ofClosing?_closing (bracket : Bracket) : ofClosing? bracket.closing = some bracket := by
  cases bracket <;> rfl

end Bracket

end CommonDecl

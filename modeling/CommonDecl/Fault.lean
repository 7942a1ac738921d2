import CommonDecl.Bracket
import CommonDecl.Qualifiers
import CommonDecl.Text.Quoted

/-!
# Faults

Why a source text, a declaration or an edit is refused, and the message that says so.
-/

namespace CommonDecl

/-- The cause of a refusal. -/
inductive Fault where
  /-- A position past the end of a list of `count` entries. -/
  | outOfRange (index count : Nat)
  /-- A function without an argument list. -/
  | missingArguments (name : String)
  /-- No primitive type has the width asked for; `none` is a width that was not given. -/
  | unsupportedWidth (keyword : String) (width : Option Nat)
  /-- Text that is no lexeme. -/
  | unrecognised (text : String)
  /-- A closing bracket where no group is open. -/
  | unopened (closing : Bracket)
  /-- A group that is closed by another kind of bracket. -/
  | mismatched (opened closing : Bracket)
  /-- A group that is still open at the end. -/
  | unclosed (opened : Bracket)
  /-- A nest of a declarator that is no group. -/
  | nestExpected (found : Option String)
  /-- A typedef that names no type. -/
  | unnamedTypedef (qualifiers : Qualifiers)
  /-- A further declarator of a typedef that names no type. -/
  | unnamedSibling (aliased : String)
  /-- An INTENT attribute without a list after it. -/
  | intentExpected (found : Option String)
  /-- A DIMENSION attribute without a list after it. -/
  | dimensionsExpected
  /-- A type keyword of Fortran with something else than a width after it. -/
  | widthExpected (keyword : String) (found : Option String)
deriving DecidableEq

namespace Fault

/-- A fault of the text itself, as opposed to a request that cannot be met. -/
def isSyntactic : Fault → Bool
  | outOfRange .. | missingArguments .. | unsupportedWidth .. => false
  | _ => true

/-- A width, where one was given. -/
def widthText : Option Nat → String
  | some width => "Some(" ++ toString width ++ ")"
  | none => "None"

/-- What a fault is, without the words that are common to all faults of the text. -/
def description : Fault → String
  | outOfRange index count =>
    "there are only [" ++ toString count ++ "] qualifiers (asking for [" ++ toString index ++ "])"
  | missingArguments name => "missing arguments from function variable " ++ name
  | unsupportedWidth keyword width =>
    "cannot map " ++ keyword ++ " with a width of " ++ widthText width ++
      " bytes to a primitive type"
  | unrecognised text => "unrecognised character(s) \"" ++ text ++ "\""
  | unopened closing =>
    "found " ++ closing.closing ++ " without a matching " ++ closing.opening
  | mismatched opened closing => opened.opening ++ " was closed by " ++ closing.closing
  | unclosed opened => "unclosed " ++ opened.opening
  | nestExpected found => "expected a (* group, found " ++ Text.quoteFound found
  | unnamedTypedef qualifiers => "typedef of " ++ qualifiers.text ++ " does not name a type"
  | unnamedSibling aliased =>
    "typedef of " ++ aliased ++ " has an unnamed declarator after a comma"
  | intentExpected found =>
    "INTENT must be followed by (IN), (OUT) or (INOUT), found " ++ Text.quoteFound found
  | dimensionsExpected => "DIMENSION must be followed by a (...) list"
  | widthExpected keyword found =>
    "expected a byte width after " ++ keyword ++ ", found " ++ Text.quoteFound found

/-- The message for a fault. -/
def message (fault : Fault) : String :=
  if fault.isSyntactic then "Parse error: " ++ fault.description else fault.description

end Fault

end CommonDecl

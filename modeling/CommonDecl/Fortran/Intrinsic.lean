import CommonDecl.Fault
import CommonDecl.Level

/-!
# Intrinsic types of Fortran

An intrinsic type is a keyword, perhaps with a width in bytes: `REAL`, `REAL*8`, `INTEGER(2)`,
`INTEGER(KIND=8)` or `DOUBLE PRECISION`. It stands for the primitive type of C of the same width.
-/

namespace CommonDecl.Fortran

/-- The width of a type that is written without one. -/
def defaultWidth? (keyword : String) : Option Nat :=
  if keyword = "REAL" ∨ keyword = "INTEGER" then some 4
  else if keyword = "PRECISION" then some 8
  else if keyword = "LOGICAL" ∨ keyword = "CHARACTER" then some 1
  else none

/-- A type of floating point numbers. -/
def isFloating (keyword : String) : Bool :=
  keyword = "REAL" || keyword = "PRECISION" || keyword = "COMPLEX"

/-- The primitive type of C for a keyword and a width, which may be left out. -/
def primitive (keyword : String) (width : Option Nat) : Except Fault String :=
  let keyword := upperCase keyword
  match width.or (defaultWidth? keyword) with
  | some 1 => .ok "char"
  | some 2 => .ok "short"
  | some 4 => .ok (if isFloating keyword then "float" else "int")
  | some 8 => .ok (if isFloating keyword then "double" else "long long")
  | _ => .error (.unsupportedWidth keyword width)

/-- The number that decimal digits write, the first digit first. -/
def digitsValue (digits : List Char) : Nat :=
  digits.foldl (fun n c => 10 * n + (c.toNat - '0'.toNat)) 0

/-- The number that a text writes: digits, perhaps after a plus sign, of a number
that fits into 32 bits. -/
def number? (text : String) : Option Nat :=
  let digits :=
    match text.toList with
    | '+' :: rest => rest
    | digits => digits
  if !digits.isEmpty && digits.all Char.isDigit && digitsValue digits < 4294967296 then
    some (digitsValue digits)
  else none

/-- The width that was found after a keyword. -/
def widthOf (keyword : String) (found : Option String) : Except Fault Nat :=
  match found >>= number? with
  | some width => .ok width
  | none => .error (.widthExpected keyword found)

/-- The width in a list such as `(8)` or `(KIND=8)`, which is its last entry. A list with `LEN`
gives the length of a text and no width. -/
def widthInList (keyword : String) (list : Level) : Except Fault (Option Nat) :=
  if list.any (Item.isTokenAnyCase "LEN") then .ok none
  else do return some (← widthOf keyword (list.getLast?.map Item.value))

/-- The keyword that a level starts with, in upper case, and the level after it. The two words
`DOUBLE PRECISION` are one keyword, written `PRECISION`. -/
def keywordAt (level : Level) : String × Level :=
  let keyword := upperCase (level.value?.getD "")
  if keyword = "DOUBLE" ∧ level.next.isTokenAnyCase "PRECISION" then
    ("PRECISION", level.next.next)
  else (keyword, level.next)

/-- Reads an intrinsic type at the start of a level: the primitive type of C it stands for, or
nothing where the level starts with no type. With it goes the level that is left, which for a fault
is where the fault was found. -/
def readType (level : Level) : Except Fault (Option String) × Level :=
  if level.isTypeKeyword then
    let (keyword, rest) := keywordAt level
    if rest.isToken "*" then
      match widthOf keyword rest.next.value? with
      | .ok width => ((primitive keyword (some width)).map some, rest.next.next)
      | .error fault => (.error fault, rest.next)
    else
      match rest.groupContents? .parenthesis with
      | some list =>
        match widthInList keyword list with
        | .ok width => ((primitive keyword width).map some, rest.next)
        | .error fault => (.error fault, rest)
      | none => ((primitive keyword none).map some, rest)
  else (.ok none, level)

end CommonDecl.Fortran

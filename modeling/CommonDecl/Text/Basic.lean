/-!
# Characters

What is asked of single characters: whether a table lists them, whether they are blank, and how they
are written in upper case.
-/

namespace CommonDecl

namespace Text

/-- The code point `n` lies in one of the inclusive ranges of `table`, which lists the characters of
a property in ascending order. -/
def inRanges (table : List (Nat × Nat)) (n : Nat) : Bool :=
  table.any fun range => range.1 ≤ n && n ≤ range.2

/-! ### Blanks -/

/-- A character with the Unicode property `White_Space`. -/
def isBlank (c : Char) : Bool :=
  let n := c.toNat
  (9 ≤ n && n ≤ 13) || n == 32 || n == 0x85 || n == 0xA0 || n == 0x1680 ||
    (0x2000 ≤ n && n ≤ 0x200A) || n == 0x2028 || n == 0x2029 || n == 0x202F || n == 0x205F ||
    n == 0x3000

/-- The text without the blanks at its end. -/
def trimEnd (text : String) : String :=
  String.ofList (text.toList.reverse.dropWhile isBlank).reverse

end Text

/-! ### Letter case -/

/-- The text with the letters `a`–`z` in upper case, as the keywords of Fortran are written. -/
def upperCase (text : String) : String :=
  text.map Char.toUpper

/-- The texts differ at most in the case of the letters of ASCII. -/
def eqAnyCase (a b : String) : Bool :=
  upperCase a == upperCase b

end CommonDecl

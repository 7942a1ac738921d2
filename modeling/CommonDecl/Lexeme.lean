/-!
# Lexemes

A source text is cut into words, numbers, quoted literals, brackets and symbols. At each place the
longest lexeme wins, blanks between lexemes are passed over, and what starts no lexeme is kept as an
`unrecognised` one. The kind of a lexeme is decided by its first character.
-/

namespace CommonDecl

/-- What a lexeme is. -/
inductive LexemeKind where
  /-- A letter or low line, then letters, low lines and digits. -/
  | word
  /-- A digit, then digits, letters and low lines, at most once with a point among them. -/
  | number
  /-- Text between double or between single quotes. -/
  | literal
  | opening
  | closing
  | symbol
  /-- A character that starts no lexeme, or a literal that is not closed. -/
  | unrecognised
deriving DecidableEq

/-- A piece of the source with the place where it starts, counted in bytes. -/
structure Lexeme where
  kind : LexemeKind
  text : String
  start : Nat
deriving DecidableEq

namespace Lexeme

/-- The place directly after a lexeme. -/
def stop (lexeme : Lexeme) : Nat :=
  lexeme.start + lexeme.text.utf8ByteSize

/-! ### Classes of characters -/

/-- A blank that separates lexemes. -/
def isGap (c : Char) : Bool :=
  c == ' ' || c == '\t' || c == '\r' || c == '\n' || c == '\x0c'

/-- A character that starts a word. -/
def startsWord (c : Char) : Bool :=
  c.isAlpha || c == '_'

/-- A character that continues a word. -/
def continuesWord (c : Char) : Bool :=
  c.isAlphanum || c == '_'

/-- A character that is a symbol on its own. -/
def isSymbol (c : Char) : Bool :=
  "-+*/%<>=!&|^~?:;,.#".toList.contains c

/-- The symbols of more than one character. -/
def longSymbols : List (List Char) :=
  ["::".toList, "...".toList, "->".toList, "<<".toList, ">>".toList, "<=".toList, ">=".toList,
    "==".toList, "!=".toList, "&&".toList, "||".toList]

/-! ### The length of a lexeme

Each function takes the text after the first character of a lexeme and gives the number of its
further characters. -/

/-- The further characters of a word. -/
def wordTail (text : List Char) : Nat :=
  (text.takeWhile continuesWord).length

/-- The further characters of a number: a point continues it once, whatever follows the point. -/
def numberTail (text : List Char) : Nat :=
  let whole := wordTail text
  match text.drop whole with
  | '.' :: rest => whole + 1 + wordTail rest
  | _ => whole

/-- The further characters of a literal, and whether it is closed. A backslash takes the character
after it into the literal; before a line feed it breaks the literal off, as the end of the text
does. -/
def literalTail (quote : Char) : List Char → Bool × Nat
  | [] => (false, 0)
  | '\\' :: [] => (false, 1)
  | '\\' :: c :: rest =>
    if c = '\n' then (false, 1)
    else
      let (closed, n) := literalTail quote rest
      (closed, n + 2)
  | c :: rest =>
    if c = quote then (true, 1)
    else
      let (closed, n) := literalTail quote rest
      (closed, n + 1)

/-- The further characters of a symbol: those of the longest one that the text continues. -/
def symbolTail (first : Char) (text : List Char) : Nat :=
  match longSymbols.find? fun symbol => symbol.isPrefixOf (first :: text) with
  | some symbol => symbol.length - 1
  | none => 0

/-- The kind of the lexeme that starts with `first`, and the number of its further characters. -/
def shape (first : Char) (text : List Char) : LexemeKind × Nat :=
  if startsWord first then (.word, wordTail text)
  else if first.isDigit then (.number, numberTail text)
  else if first = '\"' || first = '\'' then
    let (closed, n) := literalTail first text
    (if closed then .literal else .unrecognised, n)
  else if first = '(' || first = '[' || first = '\x7b' then (.opening, 0)
  else if first = ')' || first = ']' || first = '\x7d' then (.closing, 0)
  else if isSymbol first then (.symbol, symbolTail first text)
  else (.unrecognised, 0)

/-! ### Scanning -/

/-- The lexemes of a text that starts at the place `start`. -/
def scanFrom (start : Nat) : List Char → List Lexeme
  | [] => []
  | c :: rest =>
    if isGap c then scanFrom (start + c.utf8Size) rest
    else
      let (kind, n) := shape c rest
      let lexeme : Lexeme := ⟨kind, String.ofList (c :: rest.take n), start⟩
      lexeme :: scanFrom lexeme.stop (rest.drop n)
termination_by text => text.length
decreasing_by all_goals simp only [List.length_cons, List.length_drop]; omega

/-- The lexemes of a source text. -/
def scan (text : String) : List Lexeme :=
  scanFrom 0 text.toList

end Lexeme

end CommonDecl

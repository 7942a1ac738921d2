import CommonDecl.Json

/-!
# Reading JSON text

The strict grammar of JSON: blanks are space, tab, line feed and carriage return, numbers have no
leading zeros, strings hold no control characters, nothing follows the value, and no comma stands
before a closing bracket. `Json.parse?` is `none` for any other text.
-/

namespace CommonDecl.Json

/-- A blank between the tokens of a document. -/
def isGap (c : Char) : Bool :=
  c == ' ' || c == '\n' || c == '\t' || c == '\r'

/-- The text from its first character on that is no blank. -/
def skipGap (text : List Char) : List Char :=
  text.dropWhile isGap

/-- The string that starts after an opening quote, as written, and the text after its closing quote.
Escapes have to be well formed. -/
def stringBody? : List Char → Option (List Char × List Char)
  | [] => none
  | '\"' :: rest => some ([], rest)
  | '\\' :: 'u' :: a :: b :: c :: d :: rest => do
    let _ ← hexUnit? a b c d
    let (written, rest) ← stringBody? rest
    return ('\\' :: 'u' :: a :: b :: c :: d :: written, rest)
  | '\\' :: c :: rest => do
    let _ ← letterEscape? c
    let (written, rest) ← stringBody? rest
    return ('\\' :: c :: written, rest)
  | c :: rest => do
    if c == '\\' || c.toNat < 32 then none
    else
      let (written, rest) ← stringBody? rest
      return (c :: written, rest)

/-- The text after one or more digits. -/
def digits? (text : List Char) : Option (List Char) :=
  if (text.takeWhile Char.isDigit).isEmpty then none else some (text.dropWhile Char.isDigit)

/-- The text after the digits of a whole part: a single zero, or digits that start with another. -/
def wholePart? : List Char → Option (List Char)
  | '0' :: rest => some rest
  | text => digits? text

/-- The text after a fraction, if there is one. -/
def fraction? : List Char → Option (List Char)
  | '.' :: rest => digits? rest
  | text => some text

/-- The text after an exponent, if there is one. -/
def exponent? : List Char → Option (List Char)
  | c :: rest =>
    if c == 'e' || c == 'E' then
      match rest with
      | '+' :: rest | '-' :: rest => digits? rest
      | rest => digits? rest
    else some (c :: rest)
  | [] => some []

/-- The text after a number. -/
def number? : List Char → Option (List Char)
  | '-' :: rest => wholePart? rest >>= fraction? >>= exponent?
  | text => wholePart? text >>= fraction? >>= exponent?

mutual

/-- Reads a value. `fuel` bounds the number of steps; each character needs at most two. -/
def value? : Nat → List Char → Option (Json × List Char)
  | 0, _ => none
  | fuel + 1, text =>
    match skipGap text with
    | '\x7b' :: rest =>
      match skipGap rest with
      | '\x7d' :: rest => some (.object [], rest)
      | rest => do
        let (fields, rest) ← fields? fuel rest
        return (.object fields, rest)
    | '[' :: rest =>
      match skipGap rest with
      | ']' :: rest => some (.array [], rest)
      | rest => do
        let (items, rest) ← items? fuel rest
        return (.array items, rest)
    | '\"' :: rest => do
      let (written, rest) ← stringBody? rest
      return (.string written, rest)
    | 'n' :: 'u' :: 'l' :: 'l' :: rest => some (.null, rest)
    | 't' :: 'r' :: 'u' :: 'e' :: rest => some (.bool true, rest)
    | 'f' :: 'a' :: 'l' :: 's' :: 'e' :: rest => some (.bool false, rest)
    | text => do return (.number, ← number? text)

/-- Reads the items of an array up to and including its closing bracket. -/
def items? : Nat → List Char → Option (List Json × List Char)
  | 0, _ => none
  | fuel + 1, text => do
    let (item, rest) ← value? fuel text
    match skipGap rest with
    | ']' :: rest => return ([item], rest)
    | ',' :: rest =>
      let (items, rest) ← items? fuel rest
      return (item :: items, rest)
    | _ => none

/-- Reads the fields of an object up to and including its closing brace. -/
def fields? : Nat → List Char → Option (List (List Char × Json) × List Char)
  | 0, _ => none
  | fuel + 1, text => do
    match skipGap text with
    | '\"' :: rest =>
      let (key, rest) ← stringBody? rest
      match skipGap rest with
      | ':' :: rest =>
        let (value, rest) ← value? fuel rest
        match skipGap rest with
        | '\x7d' :: rest => return ([(key, value)], rest)
        | ',' :: rest =>
          let (fields, rest) ← fields? fuel rest
          return ((key, value) :: fields, rest)
        | _ => none
      | _ => none
    | _ => none

end

/-- The value of a JSON document, `none` where the text is no JSON document. -/
def parse? (text : String) : Option Json := do
  let (value, rest) ← value? (2 * text.toList.length + 2) text.toList
  if (skipGap rest).isEmpty then some value else none

end CommonDecl.Json

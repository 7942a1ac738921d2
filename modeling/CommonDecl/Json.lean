/-!
# JSON values

The values of a JSON document. A string is kept as it was written between its quotes, with its
escapes unread, because a document is accepted as soon as its strings are well formed while the
value of a string is asked for only where the string is used.
-/

namespace CommonDecl

/-- A JSON value. Numbers are kept without their value, and objects keep every field in order. -/
inductive Json where
  | null
  | bool (value : Bool)
  | number
  | string (written : List Char)
  | array (items : List Json)
  | object (fields : List (List Char × Json))

namespace Json

/-- The value of a hexadecimal digit. -/
def hexDigit? (c : Char) : Option Nat :=
  if '0' ≤ c && c ≤ '9' then some (c.toNat - '0'.toNat)
  else if 'a' ≤ c && c ≤ 'f' then some (c.toNat - 'a'.toNat + 10)
  else if 'A' ≤ c && c ≤ 'F' then some (c.toNat - 'A'.toNat + 10)
  else none

/-- The value of four hexadecimal digits. -/
def hexUnit? (a b c d : Char) : Option Nat := do
  let a ← hexDigit? a
  let b ← hexDigit? b
  let c ← hexDigit? c
  let d ← hexDigit? d
  return ((a * 16 + b) * 16 + c) * 16 + d

/-- The character of an escape that is one letter long. -/
def letterEscape? : Char → Option Char
  | '\"' => some '\"'
  | '\\' => some '\\'
  | '/' => some '/'
  | 'b' => some '\x08'
  | 'f' => some '\x0c'
  | 'n' => some '\n'
  | 'r' => some '\r'
  | 't' => some '\t'
  | _ => none

/-- A first half of a surrogate pair. -/
def isHighSurrogate (unit : Nat) : Bool := 0xD800 ≤ unit && unit ≤ 0xDBFF

/-- A second half of a surrogate pair. -/
def isLowSurrogate (unit : Nat) : Bool := 0xDC00 ≤ unit && unit ≤ 0xDFFF

/-- The value of a string as written between its quotes. A surrogate that is not one half of a pair
makes it unreadable. -/
def unescape? : List Char → Option (List Char)
  | '\\' :: 'u' :: a :: b :: c :: d :: rest => do
    let unit ← hexUnit? a b c d
    if isHighSurrogate unit then
      match rest with
      | '\\' :: 'u' :: e :: f :: g :: h :: rest =>
        let second ← hexUnit? e f g h
        if isLowSurrogate second then
          let point := 0x10000 + (unit - 0xD800) * 0x400 + (second - 0xDC00)
          return Char.ofNat point :: (← unescape? rest)
        else none
      | _ => none
    else if isLowSurrogate unit then none
    else return Char.ofNat unit :: (← unescape? rest)
  | '\\' :: c :: rest => do return (← letterEscape? c) :: (← unescape? rest)
  | ['\\'] => none
  | c :: rest => do return c :: (← unescape? rest)
  | [] => some []

/-- The value of a JSON string. -/
def string? : Json → Option String
  | .string written => (unescape? written).map String.ofList
  | _ => none

/-- The values of a JSON array of strings. -/
def strings? : Json → Option (List String)
  | .array items => items.mapM string?
  | _ => none

end Json

end CommonDecl

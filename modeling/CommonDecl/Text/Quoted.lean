import CommonDecl.Text.Invisible

/-!
# Quoted text

How an error message shows a piece of the source: between double quotes, with `"` and `\` escaped,
line breaks, tabs and the null character by their letters, and any other invisible character by its
code point. Where nothing was there to show, `None` is written instead.
-/

namespace CommonDecl.Text

/-- One character inside double quotes. -/
def quoteChar (c : Char) : String :=
  if c == '\x00' then "\\0"
  else if c == '\t' then "\\t"
  else if c == '\r' then "\\r"
  else if c == '\n' then "\\n"
  else if c == '\\' then "\\\\"
  else if c == '"' then "\\\""
  else if isInvisible c then "\\u\x7b" ++ String.ofList (Nat.toDigits 16 c.toNat) ++ "\x7d"
  else String.ofList [c]

/-- The text between double quotes. -/
def quote (text : String) : String :=
  "\"" ++ String.join (text.toList.map quoteChar) ++ "\""

/-- What was found in the source: `Some("…")`, or `None` where the source had ended. -/
def quoteFound : Option String → String
  | some text => "Some(" ++ quote text ++ ")"
  | none => "None"

end CommonDecl.Text

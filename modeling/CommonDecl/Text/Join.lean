import CommonDecl.Text.Alphabetic
import CommonDecl.Text.Numeric

/-!
# Joining tokens to text

Tokens are written one after the other. A space is put only where two word characters would meet,
and after a comma, so `N + 1` becomes `N+1` while `unsigned int` keeps its space.
-/

namespace CommonDecl.Text

/-- A letter or a number of any script, or the low line. -/
def isWordLike (c : Char) : Bool :=
  isAlphabetic c || isNumeric c || c == '_'

/-- A space is needed between a text that ends in `last` and a token that starts with `first`. -/
def needsSpace (last first : Char) : Bool :=
  (isWordLike last && isWordLike first) || last == ','

/-- The text followed by a token, with a space between them where one is needed. -/
def pushToken (text token : String) : String :=
  match text.toList.getLast?, token.toList.head? with
  | some last, some first => if needsSpace last first then text ++ " " ++ token else text ++ token
  | _, _ => text ++ token

/-- The text of a list of tokens. -/
def joinTokens (tokens : List String) : String :=
  tokens.foldl pushToken ""

end CommonDecl.Text

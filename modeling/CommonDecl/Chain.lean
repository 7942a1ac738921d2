import CommonDecl.Item
import CommonDecl.TokenTree

/-!
# Chains

The list shape of a source: each link leads right to the next link of its level, and a group leads
down to the first link of its contents. A link keeps only a rough kind of its token; whether it is a
qualifier is asked of the keywords when it is read.
-/

namespace CommonDecl

/-- The kind of a link. -/
inductive LinkKind where
  /-- A word that is a qualifier or the name of a type. -/
  | specifier
  | unresolved
  | constant
  | operator
  | group (bracket : Bracket)
deriving DecidableEq

/-- A chain of links: where it ends, or a link with what is down and right of it. -/
inductive Chain where
  | stop
  | link (value : String) (kind : LinkKind) (down right : Chain)

namespace Chain

/-- The text starts like a word. -/
def isWord (text : String) : Bool :=
  match text.toList with
  | first :: _ => Text.isAlphabetic first || first == '_'
  | [] => false

/-- The kind of a token's link. A qualifier that is no word, such as `*`, is an operator. -/
def kindOf (token : Token) : LinkKind :=
  match token.cls with
  | .qualifier | .typeName => if isWord token.text then .specifier else .operator
  | .operator => .operator
  | .unresolved => .unresolved
  | .constant => .constant

mutual

/-- The link of a token tree, in front of the chain `right`. -/
def ofTree (right : Chain) : TokenTree → Chain
  | .leaf token => .link token.text (kindOf token) .stop right
  | .group bracket contents => .link bracket.opening (.group bracket) (ofTrees contents) right

/-- The list shape of a list of token trees. -/
def ofTrees : List TokenTree → Chain
  | [] => .stop
  | tree :: rest => ofTree (ofTrees rest) tree

end

/-- The roles of a token under the given keywords. -/
def roles (keywords : Keywords) (value : String) (kind : LinkKind) : Roles :=
  { isQualifier := keywords.isQualifier value
    isTypeKeyword := kind = .specifier && !keywords.isQualifier value
    isIdentifier := kind = .unresolved
    isUnresolved := kind = .unresolved }

/-- The level that starts at a chain, read with the given keywords. -/
def items (keywords : Keywords) : Chain → List Item
  | stop => []
  | link value kind down right =>
    let first :=
      match kind with
      | .group bracket => Item.group bracket.opening {} (items keywords down)
      | kind => Item.token value (roles keywords value kind)
    first :: items keywords right

end Chain

end CommonDecl

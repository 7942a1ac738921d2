import CommonDecl.Item
import CommonDecl.TokenTree

/-!
# Nodes

The tree shape of a source: a root whose leaves are the items of the outermost level. A group is a
node with its opening bracket as value and its contents as leaves. A node carries marks that say
what it is; a tree made by hand may give a node any marks.
-/

namespace CommonDecl

/-- What a node can be. -/
inductive NodeMark where
  | qualifier
  | typeName
  | unresolved
  /-- A name already resolved to a variable. -/
  | variable
  /-- A name already resolved to a function. -/
  | function
  | constant
  | operator
  | group
  | root
deriving DecidableEq

/-- The marks in their fixed order. -/
def NodeMark.all : List NodeMark :=
  [qualifier, typeName, unresolved, .variable, function, constant, operator, group, root]

/-- A node of the tree shape. -/
structure Node where
  value : String
  marks : List NodeMark
  leaves : List Node

namespace Node

/-- The node carries a mark. -/
def has (node : Node) (mark : NodeMark) : Bool :=
  node.marks.contains mark

/-- The root of the given leaves. -/
def root (leaves : List Node) : Node :=
  ⟨"", [.root], leaves⟩

/-- The mark of a token of a class. -/
def markOf : TokenClass → NodeMark
  | .qualifier => .qualifier
  | .typeName => .typeName
  | .unresolved => .unresolved
  | .constant => .constant
  | .operator => .operator

mutual

/-- The node of a token tree. -/
def ofTree : TokenTree → Node
  | .leaf token => ⟨token.text, [markOf token.cls], []⟩
  | .group bracket contents => ⟨bracket.opening, [.group], ofTreeList contents⟩

/-- The nodes of a list of token trees. -/
def ofTreeList : List TokenTree → List Node
  | [] => []
  | tree :: rest => ofTree tree :: ofTreeList rest

end

/-- The tree shape of a list of token trees. -/
def ofTrees (trees : List TokenTree) : Node :=
  root (ofTreeList trees)

mutual

/-- The source text of a node, with its brackets and contents for a group. -/
def text : Node → String
  | ⟨value, marks, leaves⟩ =>
    if marks.contains .group then
      value ++ Text.joinTokens (texts leaves) ++
        ((Bracket.ofOpening? value).map Bracket.closing).getD ""
    else value

/-- The source text of each of the nodes. -/
def texts : List Node → List String
  | [] => []
  | node :: rest => node.text :: texts rest

end

/-- The roles that marks give to a node. -/
def roles (marks : List NodeMark) : Roles :=
  { isQualifier := marks.contains .qualifier
    isTypeKeyword := marks.contains .typeName
    isIdentifier :=
      marks.contains .unresolved || marks.contains .variable || marks.contains .function
    isUnresolved := marks.contains .unresolved }

mutual

/-- The item that a node is. -/
def item : Node → Item
  | ⟨value, marks, leaves⟩ =>
    if marks.contains .group then .group value (roles marks) (itemsOf leaves)
    else .token value (roles marks)

/-- The items that a list of nodes is. -/
def itemsOf : List Node → List Item
  | [] => []
  | node :: rest => node.item :: itemsOf rest

end

/-- The level inside a node. -/
def items (node : Node) : List Item :=
  itemsOf node.leaves

end Node

end CommonDecl

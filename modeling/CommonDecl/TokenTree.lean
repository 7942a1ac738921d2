import CommonDecl.Bracket
import CommonDecl.Keywords
import CommonDecl.Lexeme
import CommonDecl.Text.Join

/-!
# Token trees

Tokens with their class, grouped by brackets. The class of a word depends on the keywords of the
dialect and, in C, on the type names known so far.
-/

namespace CommonDecl

/-- What a token is to a declaration. -/
inductive TokenClass where
  | qualifier
  | typeName
  /-- A word without a meaning so far. -/
  | unresolved
  /-- A number or a quoted literal. -/
  | constant
  | operator
deriving DecidableEq

/-- A token with its class. -/
structure Token where
  text : String
  cls : TokenClass
deriving DecidableEq

/-- A token, or everything between a bracket and its partner. -/
inductive TokenTree where
  | leaf (token : Token)
  | group (bracket : Bracket) (contents : List TokenTree)

/-- The class of a lexeme. Brackets are operators, as they are grouped before classes matter. -/
def TokenClass.ofLexeme (keywords : Keywords) (known : String → Bool) (kind : LexemeKind)
    (text : String) : TokenClass :=
  match kind with
  | .word =>
    if keywords.isQualifier text then .qualifier
    else if keywords.isTypeKeyword text then .typeName
    else if keywords.dialect = .c && known text then .typeName
    else .unresolved
  | .number | .literal => .constant
  | .symbol => if keywords.isQualifier text then .qualifier else .operator
  | .opening | .closing | .unrecognised => .operator

namespace TokenTree

/-! ### Equality -/

mutual

/-- Whether two trees are the same. -/
def decideEq : (first second : TokenTree) → Decidable (first = second)
  | leaf token, leaf token' => decidable_of_iff (token = token') (by rw [leaf.injEq])
  | leaf _, group _ _ => isFalse TokenTree.noConfusion
  | group _ _, leaf _ => isFalse TokenTree.noConfusion
  | group bracket contents, group bracket' contents' =>
    have := decideEqList contents contents'
    decidable_of_iff (bracket = bracket' ∧ contents = contents') (by rw [group.injEq])

/-- Whether two lists of trees are the same. -/
def decideEqList : (first second : List TokenTree) → Decidable (first = second)
  | [], [] => isTrue rfl
  | [], _ :: _ => isFalse (List.cons_ne_nil _ _).symm
  | _ :: _, [] => isFalse (List.cons_ne_nil _ _)
  | tree :: trees, tree' :: trees' =>
    have := decideEq tree tree'
    have := decideEqList trees trees'
    decidable_of_iff (tree = tree' ∧ trees = trees') (by rw [List.cons.injEq])

end

instance : DecidableEq TokenTree :=
  decideEq

/-! ### Texts -/

mutual

/-- The text of a tree, brackets included. -/
def text : TokenTree → String
  | leaf token => token.text
  | group bracket contents =>
    bracket.opening ++ Text.joinTokens (texts contents) ++ bracket.closing

/-- The text of each of the trees. -/
def texts : List TokenTree → List String
  | [] => []
  | tree :: rest => tree.text :: texts rest

end

/-- The texts are the text of each tree. -/
theorem texts_eq_map (trees : List TokenTree) : texts trees = trees.map text := by
  induction trees with
  | nil => rfl
  | cons tree rest ih => rw [texts, List.map_cons, ih]

end TokenTree

end CommonDecl

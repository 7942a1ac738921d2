import CommonDecl.Chain
import CommonDecl.Comment
import CommonDecl.Fortran.Entity
import CommonDecl.Node
import CommonDecl.TokenTree.Group

/-!
# Sources

From a source text to its declarations: the text without comments is cut into tokens, the tokens are
kept in a tree or a chain, and the statements of the outermost level are read one after the other.
-/

namespace CommonDecl

/-- The token trees of a source text, in the scope as it is now. -/
def TokenTree.ofSource (dialect : Dialect) (scope : Scope) (source : String) :
    Except Fault (List TokenTree) :=
  TokenTree.ofText (scope.keywords dialect) scope.knows (Comment.strip dialect source)

/-- The tree shape of a source text. -/
def Node.ofSource (dialect : Dialect) (scope : Scope) (source : String) : Except Fault Node :=
  (TokenTree.ofSource dialect scope source).map Node.ofTrees

/-- The list shape of a source text. -/
def Chain.ofSource (dialect : Dialect) (scope : Scope) (source : String) : Except Fault Chain :=
  (TokenTree.ofSource dialect scope source).map Chain.ofTrees

namespace Declaration

/-- The level after the empty statements that it starts with. -/
def afterEmptyStatements (level : Level) : Level :=
  level.dropWhile (Item.isToken ";")

/-- Reads one statement in either dialect. -/
def readIn (dialect : Dialect) (level : Level) : Reading (Declaration × Level) :=
  match dialect with
  | .c => Declaration.read level
  | .fortran => do
    let scope ← get
    Reading.ofExcept (Fortran.readStatement scope level)

/-- Reads the next statement of a level. The result is nothing where no statement is left. -/
def next? (dialect : Dialect) (level : Level) : Reading (Option (Declaration × Level)) :=
  if (afterEmptyStatements level).atEnd then return none
  else do return some (← readIn dialect (afterEmptyStatements level))

/-- What came of reading statements: those that were read, the fault that ended it, if there was
one, and the scope with the types added on the way. -/
structure Outcome where
  declarations : List Declaration
  fault? : Option Fault
  scope : Scope

/-- Reads the statements of a level up to its end or the first fault. The rest after a statement is
always shorter, which the condition says. -/
def readAll (dialect : Dialect) (scope : Scope) (level : Level) : Outcome :=
  match next? dialect level scope with
  | .error fault scope => ⟨[], some fault, scope⟩
  | .ok none scope => ⟨[], none, scope⟩
  | .ok (some (declaration, rest)) scope =>
    if rest.length < level.length then
      let outcome := readAll dialect scope rest
      { outcome with declarations := declaration :: outcome.declarations }
    else ⟨[declaration], none, scope⟩
termination_by level.length

/-- Induction along `readAll`: from a level to what is left after its first statement.  A statement
that took nothing in would end it, too. -/
@[elab_as_elim]
theorem readAll_induct (dialect : Dialect) {motive : Scope → Level → Prop}
    (fault : ∀ scope level fault after, next? dialect level scope = .error fault after →
      motive scope level)
    (ends : ∀ scope level after, next? dialect level scope = .ok none after → motive scope level)
    (statement : ∀ scope level declaration rest after,
      next? dialect level scope = .ok (some (declaration, rest)) after →
        rest.length < level.length → motive after rest → motive scope level)
    (stuck : ∀ scope level declaration rest after,
      next? dialect level scope = .ok (some (declaration, rest)) after →
        ¬ rest.length < level.length → motive scope level)
    (scope : Scope) (level : Level) : motive scope level :=
  readAll.induct dialect motive fault ends statement stuck scope level

/-- The declarations of a source text, all of them or none. The types of those before a fault stay
in the scope. -/
def ofSource (dialect : Dialect) (source : String) : Reading (List Declaration) := fun scope =>
  match Node.ofSource dialect scope source with
  | .error fault => .error fault scope
  | .ok root =>
    match readAll dialect scope root.items with
    | ⟨declarations, none, scope⟩ => .ok declarations scope
    | ⟨_, some fault, scope⟩ => .error fault scope

end Declaration

end CommonDecl

import CommonDecl.Fault
import CommonDecl.TokenTree

/-!
# Grouping lexemes by brackets

Lexemes are taken one by one. `outer` holds the groups that are open, the innermost first, each with
the trees read before it on its level; `level` holds the trees read so far inside the innermost one.
The first lexeme that cannot go on to a well-nested text decides the fault.
-/

namespace CommonDecl.TokenTree

/-- Groups the remaining lexemes. -/
def groupFrom (keywords : Keywords) (known : String → Bool)
    (outer : List (Bracket × List TokenTree)) (level : List TokenTree) :
    List Lexeme → Except Fault (List TokenTree)
  | [] =>
    match outer with
    | [] => .ok level
    | (opened, _) :: _ => .error (.unclosed opened)
  | lexeme :: rest =>
    if lexeme.kind = .unrecognised then .error (.unrecognised lexeme.text)
    else
      match Bracket.ofOpening? lexeme.text, Bracket.ofClosing? lexeme.text with
      | some bracket, _ => groupFrom keywords known ((bracket, level) :: outer) [] rest
      | none, some bracket =>
        match outer with
        | [] => .error (.unopened bracket)
        | (opened, before) :: outer =>
          if opened = bracket then
            groupFrom keywords known outer (before ++ [group bracket level]) rest
          else .error (.mismatched opened bracket)
      | none, none =>
        let cls := TokenClass.ofLexeme keywords known lexeme.kind lexeme.text
        groupFrom keywords known outer (level ++ [leaf ⟨lexeme.text, cls⟩]) rest

/-- The token trees of a source text without comments. -/
def ofText (keywords : Keywords) (known : String → Bool) (text : String) :
    Except Fault (List TokenTree) :=
  groupFrom keywords known [] [] (Lexeme.scan text)

end CommonDecl.TokenTree

import CommonDecl.Declarator
import CommonDecl.Level

/-!
# Dimension lists of Fortran

The list of `DIMENSION(…)` or of `name(…)`. An entry that is a lone `:` leaves its extent open, and
one such entry makes the whole list a rank of pointers, one for each entry. Otherwise each entry is
the extent of a fixed dimension, in the order of the list.
-/

namespace CommonDecl.Fortran

/-- The entries of a list, each as its tokens. -/
def entries (list : Level) : List (List String) :=
  list.split ","

/-- A list without any entry that holds something. -/
def isBlankList (list : Level) : Bool :=
  (entries list).all List.isEmpty

/-- A list with an open extent. -/
def isDeferred (list : Level) : Bool :=
  (entries list).any (· == [":"])

/-- The declarator with the dimensions of a list in place of those it had and of its pointers. A
rank of pointers takes the place of a reference as well. A list without entries changes nothing. -/
def withDimensions (list : Level) (declarator : Declarator) : Declarator :=
  if isBlankList list then declarator
  else
    let right := declarator.right.removeAll "*"
    if isDeferred list then
      let stars : Qualifiers := ⟨List.replicate (entries list).length "*"⟩
      { declarator with right := (stars ++ right).remove "&", dimensions := [] }
    else { declarator with right, dimensions := (entries list).map Text.joinTokens }

end CommonDecl.Fortran

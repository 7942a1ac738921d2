/-!
# Qualifiers

An ordered list of qualifiers such as `const`, `*`, `&` or a marker. A qualifier may stand in it
more than once: two `*` are two levels of pointer. Its text keeps pointer markers together.
-/

namespace CommonDecl

/-- The qualifiers on one side of a type, in the order they are written. -/
structure Qualifiers where
  toList : List String := []
deriving DecidableEq

/-- A `*`, a `&`, or anything that starts with one of them. -/
def isPointerMarker (qualifier : String) : Bool :=
  match qualifier.toList with
  | first :: _ => first == '*' || first == '&'
  | [] => false

namespace Qualifiers

/-! ### Queries -/

/-- The number of qualifiers. -/
def count (qualifiers : Qualifiers) : Nat :=
  qualifiers.toList.length

/-- There are no qualifiers. -/
def isEmpty (qualifiers : Qualifiers) : Bool :=
  qualifiers.toList.isEmpty

/-- The qualifier `name` stands among them. -/
def has (qualifiers : Qualifiers) (name : String) : Bool :=
  qualifiers.toList.contains name

/-- The number of times the qualifier `name` stands among them. -/
def countOf (qualifiers : Qualifiers) (name : String) : Nat :=
  qualifiers.toList.count name

/-- The last qualifier. -/
def last? (qualifiers : Qualifiers) : Option String :=
  qualifiers.toList.getLast?

/-- The last qualifier is a pointer marker. -/
def endsInPointer (qualifiers : Qualifiers) : Bool :=
  qualifiers.last?.any isPointerMarker

/-! ### Edits -/

/-- The qualifiers of both, the second after the first. -/
protected def append (first second : Qualifiers) : Qualifiers :=
  ⟨first.toList ++ second.toList⟩

instance : Append Qualifiers := ⟨Qualifiers.append⟩

/-- The qualifiers with one more at the end. -/
def add (qualifiers : Qualifiers) (name : String) : Qualifiers :=
  ⟨qualifiers.toList ++ [name]⟩

/-- The qualifiers with one more at the front. -/
def pushFront (qualifiers : Qualifiers) (name : String) : Qualifiers :=
  ⟨name :: qualifiers.toList⟩

/-- The qualifiers without the first one called `name`. -/
def remove (qualifiers : Qualifiers) (name : String) : Qualifiers :=
  ⟨qualifiers.toList.erase name⟩

/-- The qualifiers without any called `name`. -/
def removeAll (qualifiers : Qualifiers) (name : String) : Qualifiers :=
  ⟨qualifiers.toList.filter (· != name)⟩

/-! ### Text -/

/-- The text of one qualifier after another: nothing stands between two pointer markers, and a space
between any other two. -/
def textAfter (previous : String) : List String → String
  | [] => ""
  | next :: rest =>
    (if isPointerMarker previous && isPointerMarker next then "" else " ") ++ next ++
      textAfter next rest

/-- The qualifiers as they are written. -/
def text (qualifiers : Qualifiers) : String :=
  match qualifiers.toList with
  | [] => ""
  | first :: rest => first ++ textAfter first rest

/-- The qualifiers as they are written in front of what they apply to: a space follows, unless they
end in a pointer marker. -/
def leadingText (qualifiers : Qualifiers) : String :=
  match qualifiers.last? with
  | some last => if isPointerMarker last then qualifiers.text else qualifiers.text ++ " "
  | none => qualifiers.text

end Qualifiers

end CommonDecl

import CommonDecl.Qualifiers.Position

/-!
# Edits of qualifiers

Qualifiers are edited in place. An edit by position is refused where its end would lie past the last
qualifier.
-/

namespace CommonDecl.Qualifiers

/-- A step that changes qualifiers and may fail. What it changed before it failed stays. -/
abbrev Editing (α : Type) := EStateM Fault Qualifiers α

/-- Puts what an edit gives in the place of the qualifiers. -/
def Editing.replaceBy (edit : Qualifiers → Except Fault Qualifiers) :
    Editing Unit := fun qualifiers =>
  match edit qualifiers with
  | .ok edited => .ok () edited
  | .error fault => .error fault qualifiers

/-- One change of qualifiers. -/
inductive Edit where
  | add (name : String)
  | pushFront (name : String)
  | addAt (name : String) (position : UInt64)
  | remove (name : String)
  | removeRange (position length : UInt64)
  | clear
deriving DecidableEq

/-- Makes a change. -/
def Edit.make : Edit → Editing Unit
  | add name => modify fun qualifiers => qualifiers.add name
  | pushFront name => modify fun qualifiers => qualifiers.pushFront name
  | addAt name position => Editing.replaceBy fun qualifiers => qualifiers.addAt name position
  | remove name => modify fun qualifiers => qualifiers.remove name
  | removeRange position length =>
    Editing.replaceBy fun qualifiers => qualifiers.removeRange position length
  | clear => set ({} : Qualifiers)

end CommonDecl.Qualifiers

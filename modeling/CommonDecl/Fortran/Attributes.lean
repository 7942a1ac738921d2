import CommonDecl.Fortran.Dimensions
import CommonDecl.Fortran.Intrinsic
import CommonDecl.Scope

/-!
# Attributes of Fortran

The attributes in front of the names of a statement, such as `REAL*8, INTENT(IN), DIMENSION(10) ::`.
Each changes the declarator that the names share. The list ends after `::`, or before the first item
that is no attribute.
-/

namespace CommonDecl.Fortran

/-- A step that changes a declarator and may fail. What it changed before it failed stays. -/
abbrev Attributing (α : Type) := EStateM Fault Declarator α

/-- What an attribute of a single word does to a declarator. -/
def wordAttribute? (markers : Markers) (word : String) (declarator : Declarator) :
    Option Declarator :=
  let mark (marker : String) : Option Declarator :=
    some { declarator with left := declarator.left.add marker }
  if word = "POINTER" then some { declarator with right := declarator.right.add "*" }
  else if word = "VOLATILE" then mark "volatile"
  else if word = "PARAMETER" then
    some { declarator with left := declarator.left.pushFront "const" }
  else if word = "KERNEL" then mark markers.kernel
  else if word = "DEVICE" then mark markers.device
  else if word = "SHARED" then mark markers.shared
  else if word = "EXCLUSIVE" then mark markers.exclusive
  else none

/-- The declarator of an argument with an intent: a reference, which is constant where the argument
is only read. -/
def withIntent (intent : String) (declarator : Declarator) : Declarator :=
  let left := declarator.left.add ("INTENT" ++ intent)
  { declarator with
    left := if intent = "IN" then left.pushFront "const" else left
    right := declarator.right.pushFront "&" }

/-- The intent in a list after INTENT, in upper case. -/
def intentAt? (level : Level) : Option String :=
  (level.groupContents? .parenthesis >>= Level.value?).map upperCase

/-- Applies the attribute that a level starts with. The result is nothing where there is none;
otherwise it says whether the attribute gave a rank of pointers, and what is left of the level. -/
def applyAttribute (scope : Scope) (level : Level) : Attributing (Option (Bool × Level)) :=
  match readType level with
  | (.error fault, _) => throw fault
  | (.ok (some typeName), rest) => do
    modify fun declarator => { declarator with base := (scope.lookup typeName).or declarator.base }
    return some (false, rest)
  | (.ok none, _) =>
    match level.word?.map upperCase with
    | none => return none
    | some "INTENT" =>
      match intentAt? level.next with
      | some intent => do
        modify (withIntent intent)
        return some (false, level.next.next)
      | none => throw (.intentExpected level.next.value?)
    | some "DIMENSION" =>
      match level.next.groupContents? .parenthesis with
      | some list => do
        modify (withDimensions list)
        return some (isDeferred list, level.next.next)
      | none => throw .dimensionsExpected
    | some word => do
      match wordAttribute? scope.settings.markers word (← get) with
      | some changed =>
        set changed
        return some (false, level.next)
      | none => return none

/-- Applies attributes up to the end of their list. `deferred` says whether an attribute before gave
a rank of pointers, the result whether one of all did. The rest after a comma is always shorter,
which the condition says. -/
def applyAttributes (scope : Scope) (deferred : Bool) (level : Level) :
    Attributing (Bool × Level) :=
  if level.atEnd then return (deferred, level)
  else if level.isToken "::" then return (deferred, level.next)
  else do
    match ← applyAttribute scope level with
    | none => return (deferred, level)
    | some (deferredHere, rest) =>
      if rest.isToken "," ∧ rest.next.length < level.length then
        applyAttributes scope (deferred || deferredHere) rest.next
      else return (deferred || deferredHere, if rest.isToken "::" then rest.next else rest)
termination_by level.length
decreasing_by simp_all

/-- Induction along `applyAttributes`: from an attribute to what is left after the comma behind it.
-/
@[elab_as_elim]
theorem applyAttributes_induct {motive : Bool → Level → Prop}
    (ends : ∀ deferred (level : Level), level.atEnd = true → motive deferred level)
    (colons : ∀ deferred (level : Level), ¬ level.atEnd = true → level.isToken "::" = true →
      motive deferred level)
    (entry : ∀ deferred (level : Level), ¬ level.atEnd = true → ¬ level.isToken "::" = true →
      (∀ deferredHere (rest : Level),
        rest.isToken "," = true ∧ rest.next.length < level.length →
          motive (deferred || deferredHere) rest.next) → motive deferred level)
    (deferred : Bool) (level : Level) : motive deferred level :=
  applyAttributes.induct motive ends colons entry deferred level

/-- Reads the attributes that a level starts with. A rank of pointers takes the place of the
reference that an intent makes, whichever of them comes first. -/
def readAttributes (scope : Scope) (level : Level) : Attributing Level := do
  let (deferred, rest) ← applyAttributes scope false level
  if deferred then
    modify fun declarator => { declarator with right := declarator.right.remove "&" }
  return rest

end CommonDecl.Fortran

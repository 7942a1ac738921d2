/-!
# Settings of a session

What a session knows before it reads its first declaration: further type names, further qualifiers
of C, and the qualifiers of C that stand for the kernel attributes of Fortran.
-/

namespace CommonDecl

/-- The C qualifiers that stand for the kernel attributes of Fortran. -/
structure Markers where
  kernel : String := "occaKernel"
  device : String := "occaFunction"
  shared : String := "occaShared"
  exclusive : String := "exclusive"
deriving DecidableEq, Repr

/-- The markers in the order of their fields. -/
def Markers.toList (markers : Markers) : List String :=
  [markers.kernel, markers.device, markers.shared, markers.exclusive]

/-- The settings of one session. -/
structure Settings where
  /-- Type names known from the start, besides the primitives of C. -/
  builtinTypes : List String := []
  /-- Words that are qualifiers of C besides its own, such as calling conventions. -/
  extraQualifiers : List String := []
  markers : Markers := {}
deriving DecidableEq, Repr

end CommonDecl

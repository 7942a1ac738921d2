import CommonDecl.Settings
import CommonDecl.Text.Basic

/-!
# Dialects and their keywords

Declarations are read in two languages. The keywords are the words and symbols with a fixed meaning
in a dialect. C has qualifiers, among them `*` and `&` and those of the settings; its type names are
not keywords. Fortran has keywords for its types, written in either case.
-/

namespace CommonDecl

/-- The language a source text is written in. -/
inductive Dialect where
  | c
  | fortran
deriving DecidableEq

/-- The keywords of a dialect. -/
structure Keywords where
  dialect : Dialect
  qualifiers : List String
  typeKeywords : List String
deriving DecidableEq

namespace Keywords

/-- The qualifiers of C, without those of the settings. -/
def cQualifiers : List String :=
  ["const", "volatile", "restrict", "static", "extern", "inline", "register", "typedef", "struct",
    "union", "enum", "class", "unsigned", "signed", "long", "short", "*", "&"]

/-- The type keywords of Fortran. -/
def fortranTypes : List String :=
  ["INTEGER", "REAL", "DOUBLE", "PRECISION", "COMPLEX", "LOGICAL", "CHARACTER"]

/-- The keywords of a dialect under given settings. The markers are qualifiers of C, so that a
declaration of Fortran can be read again after it is written as C. -/
def ofSettings (dialect : Dialect) (settings : Settings) : Keywords :=
  match dialect with
  | .c =>
    { dialect, qualifiers := cQualifiers ++ settings.extraQualifiers ++ settings.markers.toList,
      typeKeywords := [] }
  | .fortran => { dialect, qualifiers := [], typeKeywords := fortranTypes }

/-- A text as the keywords of the dialect are written. -/
def normalize (keywords : Keywords) (text : String) : String :=
  match keywords.dialect with
  | .c => text
  | .fortran => upperCase text

/-- The text is a qualifier. -/
def isQualifier (keywords : Keywords) (text : String) : Bool :=
  keywords.qualifiers.contains (keywords.normalize text)

/-- The text is the keyword of a type. -/
def isTypeKeyword (keywords : Keywords) (text : String) : Bool :=
  keywords.typeKeywords.contains (keywords.normalize text)

end Keywords

end CommonDecl

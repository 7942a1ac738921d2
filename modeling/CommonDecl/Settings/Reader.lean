import CommonDecl.Json.Reader
import CommonDecl.Settings

/-!
# Settings from JSON

Settings are written as a JSON object, or as an array that holds the values of the fields in order.
A field that is left out keeps its default value and an unknown field is passed over; a field that
is written twice, or with a value of another kind, is a fault, and so is an array that is too long.
-/

namespace CommonDecl

/-- Why settings could not be loaded. -/
inductive SettingsFault where
  /-- The file that holds them could not be read. -/
  | unreadable
  /-- The text is not JSON, or not the JSON of settings. -/
  | malformed
deriving DecidableEq, Repr

namespace Json

/-- The values that an object or an array gives to the fields `names`, in the order of `names`. The
result is `none` where a name is given twice, a key is unreadable or an array is too long. -/
def fieldValues? (names : List String) : Json → Option (List (Option Json))
  | .object fields => do
    let fields ← fields.mapM fun (key, value) =>
      (unescape? key).map fun key => (String.ofList key, value)
    names.mapM fun name =>
      match fields.filter fun field => field.1 == name with
      | [] => some none
      | [(_, value)] => some (some value)
      | _ => none
  | .array items =>
    if items.length ≤ names.length then
      some (items.map some ++ List.replicate (names.length - items.length) none)
    else none
  | _ => none

/-- The value of a field: its default where the field is left out. -/
def fieldOr? {α : Type} (default : α) (decode : Json → Option α) : Option Json → Option α
  | none => some default
  | some value => decode value

end Json

/-- The markers that a JSON value holds. -/
def Markers.ofJson? (json : Json) : Option Markers := do
  match ← json.fieldValues? ["kernel", "device", "shared", "exclusive"] with
  | [kernel, device, shared, exclusive] =>
    let defaults : Markers := {}
    return { kernel := ← Json.fieldOr? defaults.kernel Json.string? kernel
             device := ← Json.fieldOr? defaults.device Json.string? device
             shared := ← Json.fieldOr? defaults.shared Json.string? shared
             exclusive := ← Json.fieldOr? defaults.exclusive Json.string? exclusive }
  | _ => none

/-- The settings that a JSON value holds. -/
def Settings.ofJson? (json : Json) : Option Settings := do
  match ← json.fieldValues? ["builtin_types", "extra_qualifiers", "fortran_markers"] with
  | [builtinTypes, extraQualifiers, markers] =>
    let defaults : Settings := {}
    return { builtinTypes := ← Json.fieldOr? defaults.builtinTypes Json.strings? builtinTypes
             extraQualifiers := ← Json.fieldOr? defaults.extraQualifiers Json.strings?
               extraQualifiers
             markers := ← Json.fieldOr? defaults.markers Markers.ofJson? markers }
  | _ => none

/-- The settings written in a JSON text. -/
def Settings.parse (text : String) : Except SettingsFault Settings :=
  match Json.parse? text >>= Settings.ofJson? with
  | some settings => .ok settings
  | none => .error .malformed

/-- The settings in a file, given the file's contents where it could be read. -/
def Settings.load : Option String → Except SettingsFault Settings
  | some contents => Settings.parse contents
  | none => .error .unreadable

end CommonDecl

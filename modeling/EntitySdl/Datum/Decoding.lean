import EntitySdl.Datum.Malformed
import EntitySdl.Number.Shortest

/-! # Reading values from data

Texts, truth values, lists, choices and records are read from a datum by one
function each.  A record may also be given as a list of its field values in
order, of which trailing ones may be left out if their fields are optional.

The formats differ in how they write numbers in messages and in what they accept
for a choice; a `Dialect` holds these differences.
-/
namespace EntitySdl
namespace Datum

/-- How a choice between names may be given. -/
inductive ChoiceForm where
  /-- As a text, or as a record of one entry with the value null. -/
  | nullEntry
  /-- As a text, or as a record of one entry whose value is null or an empty record. -/
  | emptyEntry
  /-- As a text, or as a table of one entry whose value is an empty table. -/
  | table
  deriving DecidableEq

/-- What a format decides about reading data. -/
structure Dialect where
  /-- How a message writes a float. -/
  floatText : Float → String
  /-- What a list longer than the fields of a record should have been. -/
  tooLong : Nat → String
  /-- How a choice may be given. -/
  choiceForm : ChoiceForm

/-- Some number of elements, in words. -/
def elementCount (n : Nat) : String := if n = 1 then "1 element" else n.repr ++ " elements"

/-- Data of a JSON text, read as a whole before they are decoded. -/
def Dialect.json : Dialect where
  floatText := Number.compactText
  tooLong n := elementCount n ++ " in sequence"
  choiceForm := .emptyEntry

/-- Data already at hand as a JSON tree. -/
def Dialect.jsonTree : Dialect where
  floatText := Number.compactText
  tooLong _ := "fewer elements in array"
  choiceForm := .nullEntry

/-- Data of a TOML text, read as a whole before they are decoded. -/
def Dialect.toml : Dialect where
  floatText := Number.positionalText
  tooLong n := elementCount n ++ " in sequence"
  choiceForm := .emptyEntry

/-- The tables of a TOML text themselves. -/
def Dialect.tomlTable : Dialect where
  floatText := Number.positionalText
  tooLong n := elementCount n ++ " in sequence"
  choiceForm := .table

/-- A reader of values of one type. -/
abbrev Decoder (α : Type) := Dialect → Datum → Except Mismatch α

/-- The refusal of a datum of a wrong kind. -/
def wrongKind (dialect : Dialect) (datum : Datum) (expected : String) : Mismatch :=
  .wrongType (datum.describe dialect.floatText) expected

/-- A text, given with the name of its kind. -/
def readTextAs (expected : String) : Decoder String := fun dialect datum =>
  match datum with
  | .text value => .ok value
  | _ => .error (wrongKind dialect datum expected)

/-- A text. -/
def readText : Decoder String := readTextAs "a string"

/-- A truth value. -/
def readBoolean : Decoder Bool := fun dialect datum =>
  match datum with
  | .boolean value => .ok value
  | _ => .error (wrongKind dialect datum "a boolean")

/-- A list. -/
def readList {α : Type} (item : Decoder α) : Decoder (List α) := fun dialect datum =>
  match datum with
  | .list items => items.mapM (item dialect)
  | _ => .error (wrongKind dialect datum "a sequence")

/-- A natural number below a bound, given with the name of its range. -/
def readNatural (bound : Nat) (range : String) : Decoder Nat := fun dialect datum =>
  match datum with
  | .integer value =>
    if 0 ≤ value ∧ value.toNat < bound then .ok value.toNat
    else .error (.wrongValue (datum.describe dialect.floatText) range)
  | _ => .error (wrongKind dialect datum range)

/-- A mapping from keys to texts, with the last entry of a key. -/
def readTextMap : Decoder (List (String × String)) := fun dialect datum =>
  match datum with
  | .record entries => entries.mapM fun (key, value) => do
    return (key, ← readText dialect value)
  | _ => .error (wrongKind dialect datum "a map")

/-- How the payload of a choice is named where a table is expected. -/
def tableKind : Datum → String
  | .null => "null"
  | .boolean _ => "boolean"
  | .integer _ => "integer"
  | .float _ => "float"
  | .text _ => "string"
  | .list _ => "array"
  | .record [("$__toml_private_datetime", _)] => "datetime"
  | .record _ => "table"

/-- One of several names. -/
def pick {α : Type} (choices : List (String × α)) (name : String) : Except Mismatch α :=
  match choices.lookup name with
  | some value => .ok value
  | none => .error (.unknownChoice name (choices.map (·.1)))

/-- A choice between names. -/
def readChoice {α : Type} (choices : List (String × α)) : Decoder α := fun dialect datum =>
  match dialect.choiceForm, datum with
  | _, .text name => pick choices name
  | .table, .record [] => .error .noChoiceKey
  | .table, .record [(name, payload)] => do
    let value ← pick choices name
    match payload with
    | .record [] => return value
    | .record entries =>
      if tableKind (.record entries) = "table" then throw .payloadNotEmpty
      else throw (.payloadNotTable (tableKind payload))
    | _ => throw (.payloadNotTable (tableKind payload))
  | .table, .record _ => .error .manyChoiceKeys
  | .table, _ => .error .noChoiceForm
  | form, .record [(name, payload)] => do
    let value ← pick choices name
    match form, payload with
    | _, .null => return value
    | .emptyEntry, .record [] => return value
    | _, _ => throw (wrongKind dialect payload "unit")
  | _, .record _ => .error (.wrongValue "map" "map with a single key")
  | _, _ => .error (wrongKind dialect datum "string or map")

/-- A field of a record that is being put together. -/
structure RecordField (σ : Type) where
  /-- Its key. -/
  key : String
  /-- Whether it must be given. -/
  required : Bool
  /-- How its value goes into the record. -/
  store : Dialect → Datum → σ → Except Mismatch σ

/-- A field read by a decoder. -/
def RecordField.of {σ α : Type} (key : String) (required : Bool) (decode : Decoder α)
    (set : α → σ → σ) : RecordField σ where
  key := key
  required := required
  store dialect datum built := (decode dialect datum).map (set · built)

/-- The record after the entries given, in their order, and the keys met.  An
entry of no field is passed over. -/
def readEntries {σ : Type} (fields : List (RecordField σ)) (dialect : Dialect) :
    List (String × Datum) → σ → List String → Except Mismatch (σ × List String)
  | [], built, met => .ok (built, met)
  | (key, value) :: entries, built, met =>
    match fields.find? (·.key == key) with
    | none => readEntries fields dialect entries built met
    | some field =>
      if met.contains key then .error (.duplicateField key)
      else do
        let built ← field.store dialect value built
        readEntries fields dialect entries built (key :: met)

/-- The record after the field values given in order.  Returns the values that
are left when there are no more fields. -/
def readPositions {σ : Type} (name : String) (total : Nat) (dialect : Dialect) :
    List (RecordField σ) → List Datum → σ → Except Mismatch (σ × List Datum)
  | [], rest, built => .ok (built, rest)
  | field :: fields, [], built =>
    if field.required then
      .error (.wrongLength (total - (fields.length + 1))
        ("struct " ++ name ++ " with " ++ elementCount total))
    else readPositions name total dialect fields [] built
  | field :: fields, value :: values, built => do
    let built ← field.store dialect value built
    readPositions name total dialect fields values built

/-- A record with the fields given, starting from one in which the optional
fields have their defaults. -/
def readRecord {σ : Type} (name : String) (fields : List (RecordField σ)) (blank : σ) :
    Decoder σ := fun dialect datum =>
  match datum with
  | .record entries => do
    let (built, met) ← readEntries fields dialect entries blank []
    match fields.find? fun field => field.required && !met.contains field.key with
    | some field => throw (.missingField field.key)
    | none => return built
  | .list values => do
    let (built, rest) ← readPositions name fields.length dialect fields values blank
    if rest.isEmpty then return built
    else throw (.wrongLength values.length (dialect.tooLong fields.length))
  | _ => .error (wrongKind dialect datum ("struct " ++ name))

end Datum
end EntitySdl

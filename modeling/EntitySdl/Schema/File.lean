import EntitySdl.Schema.Data
import EntitySdl.Json.Reader
import EntitySdl.Json.Printer
import EntitySdl.Toml.Reader
import EntitySdl.Toml.Printer
import EntitySdl.Files.Path
import EntitySdl.Fault

/-! # Schema files

A schema file is a record with the version of its layout beside the models.  It
is a JSON or a TOML document, as the extension of its name says.
-/
namespace EntitySdl

open Datum

/-- The formats of schema files. -/
inductive SchemaFormat where
  | json
  | toml
  deriving DecidableEq

/-- The format that the extension of a path stands for. -/
def SchemaFormat.ofPath (path : String) : Except Fault SchemaFormat :=
  match Path.extension? path with
  | some "json" => .ok .json
  | some "toml" => .ok .toml
  | other => .error (.invalidFormat ("unsupported schema file extension " ++
      Text.quoted (other.getD "") ++ " for '" ++ path ++ "'"))

namespace SchemaFile

/-- The version of the layout. -/
def currentVersion : Nat := 1

/-- The bound for versions. -/
def versionBound : Nat := 0x100000000

/-- The key of the version. -/
def versionKey : String := "schema_version"

/-- A version. -/
def readVersion : Decoder Nat := readNatural versionBound "u32"

/-- The entries of a file with a schema. -/
def entries (schema : Schema) : List (String × Datum) :=
  (versionKey, .integer currentVersion) :: schema.entries

/-- The schema of a file, unless its version is a later one. -/
def accept (version : Option Nat) (schema : Schema) : Except Fault Schema :=
  let version := version.getD currentVersion
  if currentVersion < version then .error (.versionMismatch currentVersion version)
  else .ok schema

/-- The schema in the entries of a file. -/
def readModels (dialect : Dialect) (entries : List (String × Datum)) : Except Malformed Schema :=
  match readEntries Schema.fields dialect entries {} [] with
  | .ok (schema, _) => .ok schema
  | .error mismatch => .error (.unfit mismatch)

/-! ## JSON -/

/-- The version as a value in a text.  A list or a record there is refused
without being read. -/
def readVersionText : Json.Reader Nat := fun cs => do
  let refuse := fun found => throw (.unfit (.wrongType found "u32"))
  match cs with
  | '[' :: _ => refuse "sequence"
  | '\x7b' :: _ => refuse "map"
  | cs =>
    let (datum, rest) ← Json.readScalar cs
    let version ← (readVersion .json datum).mapError Malformed.unfit
    return (version, rest)

/-- What is known of a file while its entries are read. -/
structure Draft where
  /-- The version, if it has been met. -/
  version : Option Nat := none
  /-- The other entries. -/
  entries : List (String × Datum) := []

/-- One entry of a file.  The version is checked when it is met. -/
def readEntry (file : Draft) : Json.Reader Draft := fun cs => do
  let (key, cs) ← Json.readKey cs
  if key = versionKey then
    if file.version.isSome then throw (.unfit (.duplicateField key))
    let ((), cs) ← Json.readColon cs
    let (version, cs) ← readVersionText cs
    return ({ file with version := some version }, cs)
  else
    let ((), cs) ← Json.readColon cs
    let (value, cs) ← Json.readValue (Json.maxDepth - 1) cs
    return ({ file with entries := file.entries ++ [(key, value)] }, cs)

/-- The version and the schema of a JSON text. -/
def readJson (text : String) : Except Malformed (Option Nat × Schema) := do
  let wrong := fun found => throw (.unfit (.wrongType found "struct SchemaFile"))
  match Json.skipSpace text.toList with
  | '\x7b' :: cs =>
    let (file, cs) ← Json.readMembers '\x7d' readEntry {} cs
    let schema ← readModels .json file.entries
    Json.readEnd (file.version, schema) cs
  | '[' :: _ => wrong "sequence"
  | cs =>
    let (datum, _) ← Json.readScalar cs
    wrong (datum.describe Dialect.json.floatText)

/-! ## TOML -/

/-- The version and the schema of a TOML text. -/
def readToml (text : String) : Except Malformed (Option Nat × Schema) := do
  let entries ← Toml.parse text
  let version ← (entries.lookup versionKey).mapM fun datum =>
    (readVersion .toml datum).mapError Malformed.unfit
  return (version, ← readModels .toml entries)

/-! ## Either format -/

/-- The schema of the text of a file. -/
def parse (format : SchemaFormat) (text : String) : Except Fault Schema := do
  let (version, schema) ← match format with
    | .json => (readJson text).mapError Fault.json
    | .toml => (readToml text).mapError Fault.toml
  accept version schema

/-- The text of a file with a schema. -/
def print (format : SchemaFormat) (schema : Schema) : String :=
  match format with
  | .json => Json.print (.record (entries schema))
  | .toml => Toml.print (entries schema)

end SchemaFile
end EntitySdl

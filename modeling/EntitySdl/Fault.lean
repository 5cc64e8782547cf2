import EntitySdl.Datum.Malformed

/-! # Faults

Everything that stops a schema from being loaded, checked, generated or written.
A fault keeps its cause as data; its text is made in one place.
-/
namespace EntitySdl

/-- The kinds of members of a model. -/
inductive MemberKind where
  | property
  | relation
  | operation
  deriving DecidableEq

/-- The word for a kind of member. -/
def MemberKind.word : MemberKind → String
  | property => "property"
  | relation => "relation"
  | operation => "operation"

/-- What can go wrong. -/
inductive Fault where
  /-- A property type that the SDL cannot express. -/
  | unsupportedType (typeName : String)
  /-- The same, at a field of a model. -/
  | unsupportedField (model field typeName : String)
  /-- A relation for which no resolver is given. -/
  | missingResolver (model relation : String)
  /-- A part of a schema that breaks a rule. -/
  | validation (text : String)
  /-- A model that breaks a rule, by itself or by a member. -/
  | modelValidation (model text : String)
  /-- Two models of one name. -/
  | duplicateModel (name : String)
  /-- Two members of one name that share a name space. -/
  | duplicateMember (model : String) (kind : MemberKind) (name : String)
  /-- A schema file that does not exist. -/
  | schemaNotFound (path : String)
  /-- A file that cannot be read. -/
  | fileRead (path text : String)
  /-- A file that cannot be written. -/
  | fileWrite (path text : String)
  /-- A directory that cannot be created. -/
  | directoryCreate (path text : String)
  /-- A JSON document that is refused. -/
  | json (why : Malformed)
  /-- A TOML document that is refused as a schema. -/
  | toml (why : Malformed)
  /-- A file of another format than its use demands. -/
  | invalidFormat (text : String)
  /-- A schema file of a later version. -/
  | versionMismatch (expected found : Nat)
  /-- An SDL document that would be cut inside a character, which stops the program. -/
  | tornText (name : String)
  deriving DecidableEq

namespace Fault

/-- The text of a fault. -/
def message : Fault → String
  | unsupportedType typeName => "Property type not supported: " ++ typeName
  | unsupportedField model field typeName =>
    "Property type '" ++ typeName ++ "' of '" ++ model ++ "." ++ field ++ "' is not supported"
  | missingResolver model relation =>
    "No resolver configured for relation '" ++ model ++ "." ++ relation ++ "'"
  | validation text => "Validation error: " ++ text
  | modelValidation model text => "Model validation failed for '" ++ model ++ "': " ++ text
  | duplicateModel name => "Duplicate model name: '" ++ name ++ "' already exists"
  | duplicateMember model kind name =>
    "Duplicate " ++ kind.word ++ " name: '" ++ name ++ "' already exists in model '" ++ model ++ "'"
  | schemaNotFound path => "Schema not found at path: " ++ path
  | fileRead path text => "Failed to read file '" ++ path ++ "': " ++ text
  | fileWrite path text => "Failed to write file '" ++ path ++ "': " ++ text
  | directoryCreate path text => "Failed to create directory '" ++ path ++ "': " ++ text
  | json why => "JSON serialization error: " ++ why.message
  | toml why => "Invalid schema file format: " ++ why.message
  | invalidFormat text => "Invalid schema file format: " ++ text
  | versionMismatch expected found =>
    "Schema version mismatch: expected " ++ expected.repr ++ ", found " ++ found.repr
  | tornText name => name ++ ": a byte index is not a char boundary"

/-- The fault of a written type that denotes none. -/
def ofTypeFault : TypeFault → Fault
  | .unsupported typeName => unsupportedType typeName
  | .memberMissing => invalidFormat "Array type requires a MemberType"
  | .modelMissing typeName => invalidFormat (typeName ++ " type requires a ModelName")

/-- An unsupported type located at a field of a model; other faults stay as they
are. -/
def atField (model field : String) : Fault → Fault
  | unsupportedType typeName => unsupportedField model field typeName
  | fault => fault

/-- Whether a fault is about a type that the SDL cannot express. -/
def isUnsupported : Fault → Bool
  | unsupportedType _ | unsupportedField _ _ _ => true
  | _ => false

/-- Whether a fault is about a rule for schemas. -/
def isValidation : Fault → Bool
  | validation _ | modelValidation _ _ | duplicateModel _ | duplicateMember _ _ _ => true
  | _ => false

/-- Whether a fault is about reading or writing files. -/
def isInputOutput : Fault → Bool
  | fileRead _ _ | fileWrite _ _ | directoryCreate _ _ => true
  | _ => false

/-- Whether a fault stops the program at once. -/
def isCrash : Fault → Bool
  | tornText _ => true
  | _ => false

end Fault
end EntitySdl

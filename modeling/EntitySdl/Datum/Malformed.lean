import EntitySdl.Datum.Basic

/-! # Why a document is refused

A document may end too early, not belong to its format, or hold data that do not
fit what is read from it.  A misfit keeps what was found and what was expected,
each as a message names it.
-/
namespace EntitySdl

/-- Why a written property type denotes none. -/
inductive TypeFault where
  /-- The type name is unknown, or the type has no counterpart in the SDL. -/
  | unsupported (typeName : String)
  /-- An array without the type of its members. -/
  | memberMissing
  /-- A model type without the name of the model. -/
  | modelMissing (typeName : String)
  deriving DecidableEq

/-- The text of a type fault. -/
def TypeFault.message : TypeFault → String
  | unsupported typeName => "Property type not supported: " ++ typeName
  | memberMissing => "Invalid schema file format: Array type requires a MemberType"
  | modelMissing typeName =>
    "Invalid schema file format: " ++ typeName ++ " type requires a ModelName"

/-- Why a datum does not fit. -/
inductive Mismatch where
  /-- A datum of another kind. -/
  | wrongType (found expected : String)
  /-- A datum of the right kind with a value out of range. -/
  | wrongValue (found expected : String)
  /-- A list with too few or too many elements. -/
  | wrongLength (length : Nat) (expected : String)
  /-- A record without an entry that it must have. -/
  | missingField (name : String)
  /-- A record with two entries of one name. -/
  | duplicateField (name : String)
  /-- A choice that does not exist. -/
  | unknownChoice (name : String) (choices : List String)
  /-- Neither form in which a property type may be written. -/
  | noTypeForm
  /-- A property type in one of the forms that denotes none. -/
  | typeFault (fault : TypeFault)
  /-- A choice given as a table without entries. -/
  | noChoiceKey
  /-- A choice given as a table with several entries. -/
  | manyChoiceKeys
  /-- A choice given as neither a text nor a table. -/
  | noChoiceForm
  /-- A choice with a payload that is a table with entries. -/
  | payloadNotEmpty
  /-- A choice with a payload that is no table. -/
  | payloadNotTable (found : String)
  deriving DecidableEq

/-- A list of choices in backquotes. -/
def quoteChoices (choices : List String) : String :=
  let quote := fun (s : String) => "`" ++ s ++ "`"
  match choices with
  | [] => "there are no variants"
  | [a] => quote a
  | [a, b] => quote a ++ " or " ++ quote b
  | _ => "one of " ++ ", ".intercalate (choices.map quote)

/-- The text of a misfit. -/
def Mismatch.message : Mismatch → String
  | wrongType found expected => "invalid type: " ++ found ++ ", expected " ++ expected
  | wrongValue found expected => "invalid value: " ++ found ++ ", expected " ++ expected
  | wrongLength length expected =>
    "invalid length " ++ length.repr ++ ", expected " ++ expected
  | missingField name => "missing field `" ++ name ++ "`"
  | duplicateField name => "duplicate field `" ++ name ++ "`"
  | unknownChoice name choices =>
    "unknown variant `" ++ name ++ "`, expected " ++ quoteChoices choices
  | noTypeForm => "data did not match any variant of untagged enum RawPropertyType"
  | typeFault fault => fault.message
  | noChoiceKey => "wanted exactly 1 element, found 0 elements"
  | manyChoiceKeys => "wanted exactly 1 element, more than 1 element"
  | noChoiceForm => "wanted string or table"
  | payloadNotEmpty => "expected empty table"
  | payloadNotTable found => "expected table, found " ++ found

/-- Why a document is refused. -/
inductive Malformed where
  /-- The text stops before the document is complete. -/
  | ended
  /-- The text does not belong to the format. -/
  | ungrammatical
  /-- The data do not fit. -/
  | unfit (mismatch : Mismatch)
  deriving DecidableEq

/-- The text of a refusal. -/
def Malformed.message : Malformed → String
  | ended => "the text ends too early"
  | ungrammatical => "the text is not well formed"
  | unfit mismatch => mismatch.message

end EntitySdl

import EntitySdl.Schema.Basic
import EntitySdl.Name.Identifier
import EntitySdl.Fault

/-! # The rules for schemas

Every name of a schema is an identifier, and so is the target of a relation.
Names do not repeat: models in a schema, properties and relations together in a
model, operations in a model, arguments in an operation.  The first breach in
the order of declaration is reported, the name of a model before its members and
a repeated model after them.
-/
namespace EntitySdl

open Name

/-- A breach of a rule by a member of a model. -/
inductive Violation where
  /-- The name of a property or an argument is no identifier. -/
  | propertyName (name : String)
  /-- The name of a relation is no identifier. -/
  | relationName (name : String)
  /-- The target of a relation is no identifier. -/
  | relationTarget (relation target : String)
  /-- The name of an operation is no identifier. -/
  | operationName (name : String)
  /-- Two arguments of an operation have one name. -/
  | repeatedArgument (argument operation : String)
  deriving DecidableEq

namespace Violation

/-- The text of a violation. -/
def text : Violation → String
  | propertyName name => "Property name '" ++ name ++ "' is not a valid identifier"
  | relationName name => "Relation name '" ++ name ++ "' is not a valid identifier"
  | relationTarget relation target =>
    "Relation '" ++ relation ++ "' targets invalid model name '" ++ target ++ "'"
  | operationName name => "Operation name '" ++ name ++ "' is not a valid identifier"
  | repeatedArgument argument operation =>
    "Duplicate argument '" ++ argument ++ "' in operation '" ++ operation ++ "'"

/-- The fault of a member that is checked by itself. -/
def fault (violation : Violation) : Fault := .validation violation.text

/-- The fault of a model with such a member. -/
def inModel (model : String) (violation : Violation) : Fault :=
  .modelValidation model violation.fault.message

end Violation

/-- The rule for a property. -/
def Property.check (property : Property) : Except Violation Unit :=
  if isIdentifier property.name then .ok () else .error (.propertyName property.name)

/-- The rules for a relation. -/
def Relation.check (relation : Relation) : Except Violation Unit :=
  if !isIdentifier relation.name then .error (.relationName relation.name)
  else if !isIdentifier relation.model then .error (.relationTarget relation.name relation.model)
  else .ok ()

/-- The rules for the arguments of an operation, some of whose names are taken. -/
def Operation.checkArguments (operation : String) :
    List Property → List String → Except Violation Unit
  | [], _ => .ok ()
  | argument :: rest, taken => do
    argument.check
    if taken.contains argument.name then throw (.repeatedArgument argument.name operation)
    Operation.checkArguments operation rest (argument.name :: taken)

/-- The rules for an operation. -/
def Operation.check (operation : Operation) : Except Violation Unit :=
  if isIdentifier operation.name then Operation.checkArguments operation.name operation.arguments []
  else .error (.operationName operation.name)

/-- The rules for members of one kind, some of whose names are taken.  Returns
the names taken afterwards. -/
def Model.checkMembers {α : Type} (model : String) (kind : MemberKind) (name : α → String)
    (check : α → Except Violation Unit) : List α → List String → Except Fault (List String)
  | [], taken => .ok taken
  | member :: rest, taken => do
    (check member).mapError (Violation.inModel model)
    if taken.contains (name member) then throw (.duplicateMember model kind (name member))
    Model.checkMembers model kind name check rest (name member :: taken)

/-- The rules for a model. -/
def Model.check (model : Model) : Except Fault Unit := do
  if model.name.isEmpty then throw (.modelValidation model.name "Model name cannot be empty")
  if !isIdentifier model.name then
    throw (.modelValidation model.name
      ("Model name '" ++ model.name ++ "' is not a valid identifier"))
  let fields ← Model.checkMembers model.name .property Property.name Property.check
    model.properties []
  let _ ← Model.checkMembers model.name .relation Relation.name Relation.check
    model.relations fields
  let _ ← Model.checkMembers model.name .operation Operation.name Operation.check
    model.operations []

/-- The rules for models, some of whose names are taken. -/
def Schema.checkModels : List Model → List String → Except Fault Unit
  | [], _ => .ok ()
  | model :: rest, taken => do
    model.check
    if taken.contains model.name then throw (.duplicateModel model.name)
    Schema.checkModels rest (model.name :: taken)

/-- The rules for a schema. -/
def Schema.check (schema : Schema) : Except Fault Unit := Schema.checkModels schema.models []

end EntitySdl

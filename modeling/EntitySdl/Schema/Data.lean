import EntitySdl.Schema.Basic
import EntitySdl.Schema.TypeForm

/-! # Schemas as data

The records that stand for a schema and its parts, written and read.  Empty lists
of relations and operations are left out, those of properties and arguments are
not.
-/
namespace EntitySdl

open Datum

/-! ## Writing -/

/-- The record of a property. -/
def Property.toDatum (property : Property) : Datum :=
  .record [("name", .text property.name), ("type", property.type.toDatum)]

/-- The name of a cardinality. -/
def Cardinality.name : Cardinality → String
  | single => "Single"
  | multiple => "Multiple"

/-- The record of a relation. -/
def Relation.toDatum (relation : Relation) : Datum :=
  .record [("name", .text relation.name), ("model", .text relation.model),
    ("cardinality", .text relation.cardinality.name)]

/-- The record of an operation. -/
def Operation.toDatum (operation : Operation) : Datum :=
  .record [("name", .text operation.name),
    ("arguments", .list (operation.arguments.map Property.toDatum)),
    ("returns", operation.returns.toDatum)]

/-- The entry of a list that is left out when it is empty. -/
def listEntry (key : String) (items : List Datum) : List (String × Datum) :=
  if items.isEmpty then [] else [(key, .list items)]

/-- The record of a model. -/
def Model.toDatum (model : Model) : Datum :=
  .record ([("name", .text model.name),
    ("properties", .list (model.properties.map Property.toDatum))] ++
    listEntry "relations" (model.relations.map Relation.toDatum) ++
    listEntry "operations" (model.operations.map Operation.toDatum))

/-- The entries of the record of a schema. -/
def Schema.entries (schema : Schema) : List (String × Datum) :=
  [("models", .list (schema.models.map Model.toDatum))]

/-- The record of a schema. -/
def Schema.toDatum (schema : Schema) : Datum := .record schema.entries

/-! ## Reading -/

/-- A property. -/
def Property.decode : Decoder Property :=
  readRecord "Property"
    [RecordField.of "name" true readText fun name property => { property with name },
     RecordField.of "type" true PropertyType.decode fun type property => { property with type }]
    ⟨"", .object {}⟩

/-- The cardinality of a relation. -/
def Cardinality.decode : Decoder Cardinality :=
  readChoice [("Single", .single), ("Multiple", .multiple)]

/-- A relation. -/
def Relation.decode : Decoder Relation :=
  readRecord "Relation"
    [RecordField.of "name" true readText fun name relation => { relation with name },
     RecordField.of "model" true readText fun model relation => { relation with model },
     RecordField.of "cardinality" false Cardinality.decode fun cardinality relation =>
       { relation with cardinality }]
    ⟨"", "", .single⟩

/-- An operation. -/
def Operation.decode : Decoder Operation :=
  readRecord "Operation"
    [RecordField.of "name" true readText fun name operation => { operation with name },
     RecordField.of "arguments" false (readList Property.decode) fun arguments operation =>
       { operation with arguments },
     RecordField.of "returns" true PropertyType.decode fun returns operation =>
       { operation with returns }]
    ⟨"", [], .object {}⟩

/-- A model. -/
def Model.decode : Decoder Model :=
  readRecord "Model"
    [RecordField.of "name" true readText fun name model => { model with name },
     RecordField.of "properties" false (readList Property.decode) fun properties model =>
       { model with properties },
     RecordField.of "relations" false (readList Relation.decode) fun relations model =>
       { model with relations },
     RecordField.of "operations" false (readList Operation.decode) fun operations model =>
       { model with operations }]
    ⟨"", [], [], []⟩

/-- The fields of a schema. -/
def Schema.fields : List (RecordField Schema) :=
  [RecordField.of "models" false (readList Model.decode) fun models _ => { models }]

/-- A schema. -/
def Schema.decode : Decoder Schema := readRecord "Schema" Schema.fields {}

end EntitySdl

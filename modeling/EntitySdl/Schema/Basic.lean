import EntitySdl.Schema.PropertyType

/-! # Schemas

A schema is an ordered list of models.  A model has properties, relations to
other models and operations, each in the order of declaration, which is also the
order of all that is generated from them.
-/
namespace EntitySdl

/-- A named value of a type: a field of a model or an argument of an
operation. -/
structure Property where
  /-- Its name, which is also the name of the SDL field. -/
  name : String
  /-- Its type. -/
  type : PropertyType
  deriving DecidableEq

/-- A named link from a model to another. -/
structure Relation where
  /-- Its name, which is also the name of the SDL field. -/
  name : String
  /-- The name of the model it points at. -/
  model : String
  /-- How many records it points at. -/
  cardinality : Cardinality := .single
  deriving DecidableEq

/-- An action on a model, with arguments and a result. -/
structure Operation where
  /-- Its name, which is also the name of the SDL mutation. -/
  name : String
  /-- Its arguments. -/
  arguments : List Property := []
  /-- The type of its result. -/
  returns : PropertyType
  deriving DecidableEq

/-- A kind of record. -/
structure Model where
  /-- Its name, which is also the name of the SDL type. -/
  name : String
  /-- Its properties. -/
  properties : List Property := []
  /-- Its relations. -/
  relations : List Relation := []
  /-- Its operations. -/
  operations : List Operation := []
  deriving DecidableEq

/-- The models that output is generated from. -/
structure Schema where
  /-- The models, in the order of declaration. -/
  models : List Model := []
  deriving DecidableEq

namespace Property

/-- Whether the value of a property identifies a single record. -/
def isIdentifying (property : Property) : Bool := property.type.isIdentifying

end Property

namespace Model

/-- The property of a name. -/
def property? (model : Model) (name : String) : Option Property :=
  model.properties.find? (·.name == name)

/-- The relation of a name. -/
def relation? (model : Model) (name : String) : Option Relation :=
  model.relations.find? (·.name == name)

/-- The operation of a name. -/
def operation? (model : Model) (name : String) : Option Operation :=
  model.operations.find? (·.name == name)

/-- The properties that identify a single record. -/
def identifyingProperties (model : Model) : List Property :=
  model.properties.filter (·.isIdentifying)

end Model

namespace Schema

/-- The first model of a name. -/
def model? (schema : Schema) (name : String) : Option Model :=
  schema.models.find? (·.name == name)

/-- A schema with a model added at its end. -/
def push (schema : Schema) (model : Model) : Schema := { models := schema.models ++ [model] }

end Schema

/-- A use of a model that a schema does not define. -/
structure DanglingReference where
  /-- The model that uses it. -/
  model : String
  /-- The member that uses it; an argument follows its operation and a point. -/
  member : String
  /-- The name of the missing model. -/
  target : String
  deriving DecidableEq

/-- The uses of other models by a model: relations first, then properties, and
for each operation its arguments and its result.  Imported models belong to
other schemas and are not listed. -/
def Model.references (model : Model) : List DanglingReference :=
  let use := fun (member : String) (type : PropertyType) =>
    type.referencedModel?.toList.map fun target => ⟨model.name, member, target⟩
  (model.relations.map fun relation => ⟨model.name, relation.name, relation.model⟩) ++
    (model.properties.flatMap fun property => use property.name property.type) ++
    model.operations.flatMap fun operation =>
      (operation.arguments.flatMap fun argument =>
        use (operation.name ++ "." ++ argument.name) argument.type) ++
        use operation.name operation.returns

/-- The uses of models that the schema does not define. -/
def Schema.danglingReferences (schema : Schema) : List DanglingReference :=
  (schema.models.flatMap Model.references).filter fun reference =>
    !(schema.models.any (·.name == reference.target))

end EntitySdl

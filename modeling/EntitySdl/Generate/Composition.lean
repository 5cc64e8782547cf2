import EntitySdl.Generate.Filter
import EntitySdl.Generate.SdlType
import EntitySdl.Schema.Validation
import EntitySdl.Sdl.Fragment

/-! # The SDL of a model

A model is composed of its object type, an input for each operation with
arguments, the type of its count, its filters, and its root fields.  The parts
are kept as blocks and fields; a fragment is their text.
-/
namespace EntitySdl
namespace Generate

open Sdl

/-- The SDL of a model, in parts. -/
structure Composition where
  /-- The name of the model. -/
  name : String
  /-- The object type. -/
  object : Block
  /-- The inputs of operations with arguments. -/
  operationInputs : List Block
  /-- The type of the number of records. -/
  count : Block
  /-- The filter. -/
  filter : Option Block
  /-- The filter that picks a single record. -/
  uniqueFilter : Option Block
  /-- The queries. -/
  queries : List FieldLine
  /-- The mutations. -/
  mutations : List FieldLine
  deriving DecidableEq

namespace Composition

/-- The types and inputs that are defined, in order. -/
def blocks (c : Composition) : List Block :=
  c.object :: c.operationInputs ++ c.count :: (c.filter.toList ++ c.uniqueFilter.toList)

/-- The text of a composition, by sections. -/
def fragment (c : Composition) : Fragment where
  name := c.name
  definitions := c.blocks.map Block.text
  queryFields := c.queries.map FieldLine.text
  mutationFields := c.mutations.map FieldLine.text

end Composition

/-- The type of a relation's field: the target, or a list of it. -/
def relationType (relation : Relation) : TypeRef :=
  match relation.cardinality with
  | .single => .named relation.model false
  | .multiple => .list (.named relation.model true) false

namespace Generator

/-- The field of a property. -/
def propertyField (g : Generator) (model : Model) (property : Property) :
    Except Fault FieldLine := do
  let type ← (sdlType g.config.idScalar .output property.type).mapError
    (Fault.atField model.name property.name)
  return { name := property.name, type := type
           directive := g.fieldDirective model property.name }

/-- The field of a relation. -/
def relationField (g : Generator) (model : Model) (relation : Relation) : FieldLine where
  name := relation.name
  type := relationType relation
  directive := g.fieldDirective model relation.name

/-- The object type of a model: properties first, then relations. -/
def objectType (g : Generator) (model : Model) : Except Fault Block := do
  let properties ← (g.properties model).mapM (g.propertyField model)
  return { kind := .type, name := model.name
           fields := properties ++ (g.relations model).map (g.relationField model) }

/-- The field of an argument in the input of its operation. -/
def argumentField (g : Generator) (model : Model) (operation : Operation) (argument : Property) :
    Except Fault FieldLine := do
  let type ← (sdlType g.config.idScalar .input argument.type).mapError
    (Fault.atField model.name (operation.name ++ "." ++ argument.name))
  return { name := argument.name, type := type }

/-- The input with the arguments of an operation, unless it has none. -/
def operationInput (g : Generator) (model : Model) (operation : Operation) :
    Except Fault (Option Block) :=
  match operation.arguments with
  | [] => .ok none
  | arguments => do
    let fields ← arguments.mapM (g.argumentField model operation)
    return some { kind := .input, name := Naming.argsType operation.name, fields := fields }

/-- The type of the number of records of a model. -/
def countType (model : Model) : Block where
  kind := .type
  name := Naming.metaType model.name
  fields := [{ name := "count", type := .named "Int" true }]

/-- The filter argument of a query, unless there is no filter. -/
def filterArgument (model : Model) (withFilter : Bool) : List (String × TypeRef) :=
  if withFilter then [("filter", .named (Naming.filterType model.name) false)] else []

/-- The queries for a single record. -/
def lookupFields (g : Generator) (model : Model) : List FieldLine :=
  match g.identifiers model with
  | [] => []
  | identifiers => match g.config.lookup with
    | .uniqueFilter =>
      [{ name := Naming.singleQuery model.name
         arguments := [("where", .named (Naming.uniqueFilterType model.name) false)]
         type := .named model.name false }]
    | .perIdentifier => identifiers.map fun (property, kind) =>
      { name := Naming.lookupQuery model.name property.name
        arguments := [(Name.camel property.name, .named (kind.sdlName g.config.idScalar) true)]
        type := .named model.name false }

/-- The queries of a model: for many records, for their number, and for a single
record. -/
def queryFields (g : Generator) (model : Model) (withFilter : Bool) : List FieldLine :=
  { name := Naming.collectionQuery model.name
    arguments := [("offset", .named "Int" false), ("limit", .named "Int" false)] ++
      filterArgument model withFilter
    type := .list (.named model.name true) true } ::
  { name := Naming.metaQuery model.name
    arguments := filterArgument model withFilter
    type := .named (Naming.metaType model.name) true } ::
  g.lookupFields model

/-- The mutation of an operation. -/
def mutationField (g : Generator) (model : Model) (operation : Operation) :
    Except Fault FieldLine := do
  let type ← (optionalSdlType g.config.idScalar .output operation.returns).mapError
    (Fault.atField model.name operation.name)
  return { name := operation.name
           arguments := match operation.arguments with
             | [] => []
             | _ => [("data", .named (Naming.argsType operation.name) true)]
           type := type }

/-- The mutations of a model. -/
def mutationFields (g : Generator) (model : Model) : Except Fault (List FieldLine) :=
  (g.operations model).mapM (g.mutationField model)

/-- The SDL of a model. -/
def compose (g : Generator) (model : Model) : Except Fault Composition := do
  model.check
  let object ← g.objectType model
  let inputs ← (g.operations model).mapM (g.operationInput model)
  let filter := if g.config.filters then g.filterInput model else none
  let mutations ← g.mutationFields model
  return {
    name := model.name
    object := object
    operationInputs := inputs.filterMap id
    count := countType model
    filter := filter
    uniqueFilter := match g.config.lookup with
      | .uniqueFilter => g.uniqueFilterInput model
      | .perIdentifier => none
    queries := g.queryFields model filter.isSome
    mutations := mutations }

end Generator
end Generate
end EntitySdl

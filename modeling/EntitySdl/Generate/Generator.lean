import EntitySdl.Generate.Config
import EntitySdl.Generate.Naming
import EntitySdl.Schema.Basic

/-! # Generators

A generator is a configuration together with hooks.  The hooks choose which
models and members take part, and may supply directives and resolvers, for which
the configuration is asked second.
-/
namespace EntitySdl
namespace Generate

/-- What a caller decides about each model and member. -/
structure Hooks where
  /-- Whether a model is one of its own, and not a part of others. -/
  isTopLevel : Model → Bool := fun _ => true
  /-- Whether a model is emitted. -/
  shouldEmit : Model → Bool := fun _ => true
  /-- Whether a property takes part. -/
  includesProperty : Model → Property → Bool := fun _ _ => true
  /-- Whether a relation takes part. -/
  includesRelation : Model → Relation → Bool := fun _ _ => true
  /-- Whether an operation takes part. -/
  includesOperation : Model → Operation → Bool := fun _ _ => true
  /-- Whether a model gets a resolver file. -/
  generatesResolvers : Model → Bool := fun _ => true
  /-- The directive of a field. -/
  fieldDirective : Model → String → Option String := fun _ _ => none
  /-- The resolver of a relation. -/
  relationResolver : Model → Relation → Option String := fun _ _ => none

/-- A configuration with hooks. -/
structure Generator where
  /-- The settings. -/
  config : Config := {}
  /-- The choices of the caller. -/
  hooks : Hooks := {}

namespace Generator

/-- Whether output is generated for a model. -/
def emits (g : Generator) (model : Model) : Bool :=
  g.hooks.isTopLevel model && g.hooks.shouldEmit model

/-- The models that output is generated for. -/
def models (g : Generator) (schema : Schema) : List Model := schema.models.filter g.emits

/-- The properties of a model that take part. -/
def properties (g : Generator) (model : Model) : List Property :=
  model.properties.filter (g.hooks.includesProperty model)

/-- The relations of a model that take part. -/
def relations (g : Generator) (model : Model) : List Relation :=
  model.relations.filter (g.hooks.includesRelation model)

/-- The operations of a model that take part. -/
def operations (g : Generator) (model : Model) : List Operation :=
  model.operations.filter (g.hooks.includesOperation model)

/-- The properties that take part and identify a single record, with their
scalar kinds. -/
def identifiers (g : Generator) (model : Model) : List (Property × ScalarKind) :=
  ((g.properties model).filter (·.isIdentifying)).filterMap fun property =>
    property.type.scalarKind?.map (property, ·)

/-- The directive of a field, if it has one that is not blank. -/
def fieldDirective (g : Generator) (model : Model) (field : String) : Option String :=
  ((g.hooks.fieldDirective model field).or
    (g.config.fieldDirectives.get? (memberKey model.name field))).filter fun text =>
      !(Text.trim text.toList).isEmpty

/-- The resolver of a relation, if one is given. -/
def relationResolver (g : Generator) (model : Model) (relation : Relation) : Option String :=
  (g.hooks.relationResolver model relation).or
    (g.config.relationResolvers.get? (memberKey model.name relation.name))

/-- Whether a model gets a resolver file. -/
def emitsResolvers (g : Generator) (model : Model) : Bool :=
  g.config.emitResolvers && g.hooks.generatesResolvers model

/-- The names of the queries for a single record. -/
def lookupNames (g : Generator) (model : Model) : List String :=
  match g.identifiers model with
  | [] => []
  | identifiers => match g.config.lookup with
    | .uniqueFilter => [Naming.singleQuery model.name]
    | .perIdentifier =>
      identifiers.map fun (property, _) => Naming.lookupQuery model.name property.name

/-- The names of all queries of a model. -/
def queryNames (g : Generator) (model : Model) : List String :=
  Naming.collectionQuery model.name :: Naming.metaQuery model.name :: g.lookupNames model

/-- The names of all mutations of a model. -/
def mutationNames (g : Generator) (model : Model) : List String :=
  (g.operations model).map Operation.name

end Generator
end Generate
end EntitySdl

import EntitySdl.Generate.Composition
import EntitySdl.Generate.Resolvers

/-! # Projects

A run of the generator turns a schema into a project: files and warnings.  Each
model gives one document, or all of them one together, and each may have a
resolver file behind it.
-/
namespace EntitySdl
namespace Generate

open Sdl

/-- The kinds of generated files. -/
inductive FileKind where
  /-- An SDL document. -/
  | sdl
  /-- A resolver file. -/
  | resolvers
  deriving DecidableEq

/-- The extension of a kind of file. -/
def FileKind.extension : FileKind → String
  | sdl => "graphql"
  | resolvers => "js"

/-- A generated file. -/
structure OutputFile where
  /-- Its path below the output directory. -/
  path : String
  /-- Its kind. -/
  kind : FileKind
  /-- Its content. -/
  content : String
  deriving DecidableEq

/-- What a run has generated. -/
structure Project where
  /-- The files, in the order of generation. -/
  files : List OutputFile := []
  /-- The warnings, in the order in which they arose. -/
  warnings : List String := []
  deriving DecidableEq

namespace Project

/-- The file at a path, which is compared by components. -/
def file? (project : Project) (path : String) : Option OutputFile :=
  project.files.find? fun file => Path.same file.path path

/-- The files of a kind. -/
def filesOf (project : Project) (kind : FileKind) : List OutputFile :=
  project.files.filter (·.kind == kind)

end Project

/-- The warning about a use of an unknown model. -/
def danglingWarning (reference : DanglingReference) : String :=
  "'" ++ reference.model ++ "." ++ reference.member ++ "' references unknown model '" ++
    reference.target ++ "'"

/-- What is generated for one model. -/
structure ModelOutput where
  /-- Its SDL. -/
  composition : Composition
  /-- Its resolver file, if it has one. -/
  resolvers : Option ResolverModule
  deriving DecidableEq

namespace Generator

/-- The warnings about a model that takes part. -/
def modelWarnings (g : Generator) (model : Model) : List String :=
  (if (g.properties model).isEmpty && (g.relations model).isEmpty then
    ["Model '" ++ model.name ++ "' exposes no fields; its object type is empty"] else []) ++
  (if (g.identifiers model).isEmpty then
    ["Model '" ++ model.name ++
      "' has no identifying property; no singular lookup is generated"] else [])

/-- The warnings about a schema. -/
def warnings (g : Generator) (schema : Schema) : List String :=
  schema.danglingReferences.map danglingWarning ++
    match g.models schema with
    | [] => ["No models selected for generation"]
    | models => models.flatMap g.modelWarnings

/-- What is generated for a model. -/
def modelOutput (g : Generator) (model : Model) : Except Fault ModelOutput := do
  let composition ← g.compose model
  if g.emitsResolvers model then return ⟨composition, some (← g.resolvers model)⟩
  else return ⟨composition, none⟩

/-- The resolver file of a model, if it has one. -/
def resolverFiles (g : Generator) (output : ModelOutput) : List OutputFile :=
  output.resolvers.toList.map fun resolvers =>
    ⟨resolverPath g.config resolvers.model, .resolvers, resolvers.text⟩

/-- The files of models with a document for each. -/
def perModelFiles (g : Generator) (outputs : List ModelOutput) : List OutputFile :=
  outputs.flatMap fun output =>
    ⟨output.composition.name ++ ".graphql", .sdl, output.composition.fragment.render⟩ ::
      g.resolverFiles output

/-- The files of models with one document for all. -/
def mergedFiles (g : Generator) (outputs : List ModelOutput) : List OutputFile :=
  ⟨g.config.mergedFile, .sdl,
    merge (outputs.map (·.composition.fragment)) g.config.idScalar⟩ ::
      outputs.flatMap g.resolverFiles

/-- The project of a schema.  A schema that breaks a rule, a type that the SDL
cannot express and a relation without a resolver stop the run. -/
def generate (g : Generator) (schema : Schema) : Except Fault Project := do
  schema.check
  let outputs ← (g.models schema).mapM g.modelOutput
  return {
    files := match g.config.mode with
      | .perModel => g.perModelFiles outputs
      | .merged => g.mergedFiles outputs
    warnings := g.warnings schema }

end Generator
end Generate
end EntitySdl

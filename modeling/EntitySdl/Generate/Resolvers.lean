import EntitySdl.Generate.Generator
import EntitySdl.Files.Path
import EntitySdl.Fault

/-! # Resolver files

The resolver file of a model has a resolver for each of its root fields, which
throws until it is filled in, and for each of its relations the resolver that
the caller supplies.
-/
namespace EntitySdl
namespace Generate

/-- A resolver in a section of a file. -/
structure ResolverEntry where
  /-- The field that it resolves. -/
  name : String
  /-- Its source text. -/
  source : String
  deriving DecidableEq

/-- A resolver as it is written. -/
def ResolverEntry.text (entry : ResolverEntry) : String := entry.name ++ ": " ++ entry.source

/-- A resolver that throws until it is filled in. -/
def placeholder (name : String) : ResolverEntry where
  name := name
  source :=
    "(parent, args, context, info) => \x7b\n" ++
    "      // Insert your " ++ name ++ " implementation here\n" ++
    "      throw new Error('" ++ name ++ " is not implemented')\n" ++
    "    \x7d"

/-- The resolvers of a model, by the type that their fields belong to. -/
structure ResolverModule where
  /-- How the file exports them. -/
  kind : ResolverModuleKind
  /-- The name of the model. -/
  model : String
  /-- The resolvers of queries. -/
  queries : List ResolverEntry
  /-- The resolvers of mutations. -/
  mutations : List ResolverEntry
  /-- The resolvers of relations. -/
  relations : List ResolverEntry
  deriving DecidableEq

namespace ResolverModule

/-- The section of a type, unless it is empty. -/
def renderSection (name : String) : List ResolverEntry → String
  | [] => ""
  | entries =>
    "  " ++ name ++ ": \x7b\n" ++
      String.join (entries.map fun entry => "    " ++ entry.text ++ ",\n") ++ "  \x7d,\n"

/-- How a file of a kind begins. -/
def opening : ResolverModuleKind → String
  | .sourceModule => "export default \x7b\n"
  | .plainScript => "module.exports = \x7b\n"

/-- A resolver file as it is written. -/
def text (m : ResolverModule) : String :=
  opening m.kind ++ renderSection "Query" m.queries ++ renderSection "Mutation" m.mutations ++
    renderSection m.model m.relations ++ "\x7d\n"

end ResolverModule

/-- A text with every line after the first indented by four spaces, unless it is
empty. -/
def indentContinuation (text : List Char) : String :=
  match Text.lines text with
  | [] => ""
  | first :: rest =>
    let indent := fun (line : List Char) => if line.isEmpty then line else "    ".toList ++ line
    "\n".intercalate ((first :: rest.map indent).map String.ofList)

/-- The resolver file of a model below the output directory. -/
def resolverPath (config : Config) (model : String) : String :=
  Path.join config.resolverDir (model ++ ".js")

namespace Generator

/-- The resolver of a relation, which must be given. -/
def relationEntry (g : Generator) (model : Model) (relation : Relation) :
    Except Fault ResolverEntry :=
  match g.relationResolver model relation with
  | some source => .ok ⟨relation.name, indentContinuation (Text.trim source.toList)⟩
  | none => .error (.missingResolver model.name relation.name)

/-- The resolvers of a model. -/
def resolvers (g : Generator) (model : Model) : Except Fault ResolverModule := do
  let relations ← (g.relations model).mapM (g.relationEntry model)
  return {
    kind := g.config.outputKind
    model := model.name
    queries := (g.queryNames model).map placeholder
    mutations := (g.mutationNames model).map placeholder
    relations := relations }

end Generator
end Generate
end EntitySdl

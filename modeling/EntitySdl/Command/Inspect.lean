import EntitySdl.Command.Settings
import EntitySdl.Generate.Project
import EntitySdl.Schema.Store

/-! # Looking at schemas

Two commands write no file: one checks whether a schema could be generated, the
other describes it.
-/
namespace EntitySdl
namespace Command

open Generate

variable {m : Type → Type} [Monad m] [Workspace m]

/-- The schema in a file. -/
def loadSchema (path : String) : m (Except Failure Schema) :=
  return (← SchemaFile.load path).mapError fun fault =>
    .during (.loadingSchema path) (.fault fault)

/-- A line of output. -/
def line (text : String) : String := text ++ "\n"

/-- The lines about warnings. -/
def warningLines (warnings : List String) : String :=
  String.join (warnings.map fun warning => line ("warning: " ++ warning))

/-- What a check has found about a schema that could be generated. -/
structure CheckReport where
  /-- The file of the schema. -/
  path : String
  /-- The number of models. -/
  models : Nat
  /-- What would be generated. -/
  project : Project
  deriving DecidableEq

/-- The text about a check. -/
def CheckReport.text (report : CheckReport) : String :=
  warningLines report.project.warnings ++
    line ("✓ " ++ report.path ++ " is valid (" ++ report.models.repr ++ " model(s), " ++
      report.project.files.length.repr ++ " file(s) would be generated)")

/-- Checks a schema with the settings of a configuration. -/
def checkSchema (config : Config) (path : String) (schema : Schema) :
    Except Failure CheckReport := do
  schema.check.mapError fun fault => Failure.during (.validating path) (.fault fault)
  let project ← (Generator.generate { config } schema).mapError fun fault =>
    Failure.during (.previewing path) (.fault fault)
  return ⟨path, schema.models.length, project⟩

/-- Checks the schema in a file. -/
def validate (path : String) (config : Option String) : m (Except Failure CheckReport) := do
  match ← loadConfig config with
  | .error failure => return .error failure
  | .ok config =>
    match ← loadSchema path with
    | .error failure => return .error failure
    | .ok schema => return checkSchema config path schema

/-- A line about a model. -/
def describe (model : Model) : String :=
  let identifiers := match model.identifyingProperties with
    | [] => "none"
    | properties => ", ".intercalate (properties.map (·.name))
  "  " ++ model.name ++ " " ++ model.properties.length.repr ++ " properties, " ++
    model.relations.length.repr ++ " relations, " ++ model.operations.length.repr ++
    " operations; identified by " ++ identifiers

/-- The text about a schema: its models, and the unknown models that it refers
to. -/
def overview (path : String) (schema : Schema) : String :=
  line ("Schema " ++ path ++ " (" ++ schema.models.length.repr ++ " model(s))") ++
    String.join (schema.models.map fun model => line (describe model)) ++
    match schema.danglingReferences with
    | [] => ""
    | references => "\nUnknown references:\n" ++ String.join (references.map fun reference =>
        line ("  " ++ reference.model ++ "." ++ reference.member ++ " -> " ++ reference.target))

end Command
end EntitySdl

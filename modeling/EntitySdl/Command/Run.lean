import EntitySdl.Command.Inspect
import EntitySdl.Command.Line
import EntitySdl.Command.Sources
import EntitySdl.Generate.Summary

/-! # Running commands

A command works on files and answers with the text for the output of the program,
or with a failure, and then there is no output.
-/
namespace EntitySdl
namespace Command

open Generate

variable {m : Type → Type} [Monad m] [Workspace m]

/-- The text about a run of the generator. -/
def runText (config : Config) (report : RunReport) : String :=
  (Summary.ofProject report.project).text ++ warningLines report.project.warnings ++
    line ("✓ " ++ report.deliveries.written.length.repr ++ " file(s) written to " ++
      config.outputDir) ++
    if report.deliveries.kept.isEmpty then ""
    else line ("  " ++ report.deliveries.kept.length.repr ++
      " existing file(s) kept; pass --overwrite to replace them")

/-- Generates the output of a schema in a file with the settings of a
configuration. -/
def generateWith (config : Config) (path : String) : m (Except Failure RunReport) := do
  match ← loadSchema path with
  | .error failure => return .error failure
  | .ok schema =>
    return (← Generator.run { config } (fun _ => pure ()) schema).mapError fun fault =>
      .during (.generating path) (.fault fault)

/-- Carries out a task. -/
def Task.run (verbose : Bool) (config : Option String) : Task → m (Except Failure String)
  | generate path overrides => do
    match ← loadConfig config with
    | .error failure => return .error failure
    | .ok config =>
      let config := overrides.apply verbose config
      return (← generateWith config path).map (runText config)
  | merge paths output overwrite idScalar =>
    return (← Command.merge paths output overwrite (idScalar.getD .id)).map (·.text)
  | validate path => return (← Command.validate path config).map (·.text)
  | info path => return (← loadSchema path).map (overview path)

/-- Carries out an invocation. -/
def Invocation.run (invocation : Invocation) : m (Except Failure String) :=
  invocation.task.run invocation.verbose invocation.config

/-- The name and the version of the program. -/
def versionText : String := "sdlgen 0.1.0\n"

/-- What a run of the program leaves behind besides files. -/
structure Outcome where
  /-- The exit status. -/
  status : Nat := 0
  /-- The text on the standard output. -/
  output : String := ""
  /-- The text on the standard error output. -/
  errors : String := ""
  deriving DecidableEq

/-- The outcome of a command line that is not carried out. -/
def Usage.outcome (help : String) : Usage → Outcome
  | helpWanted => { output := help }
  | versionWanted => { output := versionText }
  | _ => { status := 2, errors := help }

/-- An invocation with the configuration file that the environment names, which
counts if the command line names none. -/
def Invocation.withVariable (configVariable : Option String) (invocation : Invocation) :
    Except Usage Invocation :=
  match invocation.config, configVariable with
  | none, some "" => .error .invalidValue
  | none, some path => .ok { invocation with config := some path }
  | _, _ => .ok invocation

/-- Runs the program on the arguments of a command line, and the configuration file
that the environment names. -/
def run (help : String) (configVariable : Option String) (arguments : List String) : m Outcome := do
  match (Invocation.parse arguments).bind (·.withVariable configVariable) with
  | .error usage => return usage.outcome help
  | .ok invocation =>
    match ← invocation.run with
    | .error failure => return { status := failure.status, errors := failure.report }
    | .ok output => return { output }

end Command
end EntitySdl

import EntitySdl.Fault
import EntitySdl.Files.SystemFault

/-! # Failures of commands

Why a command has failed: what went wrong and, for most commands, what was being
done.  The report names the activity first and the cause below it.
-/
namespace EntitySdl
namespace Command

/-- What a command was doing when it failed. -/
inductive Activity where
  | readingConfig (path : String)
  | parsingConfig (path : String)
  | loadingSchema (path : String)
  | generating (schema : String)
  | validating (schema : String)
  | previewing (schema : String)
  | readingSource (path : String)
  | writingOutput (path : String)
  deriving DecidableEq

/-- The text about an activity that has failed. -/
def Activity.message : Activity → String
  | readingConfig path => "Failed to read config file " ++ path
  | parsingConfig path => "Invalid config file " ++ path
  | loadingSchema path => "Failed to load schema " ++ path
  | generating schema => "Generation from " ++ schema ++ " failed"
  | validating schema => schema ++ " is not valid"
  | previewing schema => schema ++ " cannot be generated"
  | readingSource path => "Failed to read " ++ path
  | writingOutput path => "Failed to write " ++ path

/-- What made a command fail. -/
inductive Cause where
  /-- A fault of a schema or of its output. -/
  | fault (fault : Fault)
  /-- A reason of the file system. -/
  | system (why : SystemFault)
  /-- A configuration that is refused. -/
  | config (why : Malformed)
  /-- A path to merge that leads nowhere. -/
  | missingSource (path : String)
  /-- Paths to merge that hold no SDL document. -/
  | noSources
  deriving DecidableEq

/-- The text of a cause. -/
def Cause.message : Cause → String
  | .fault why => why.message
  | system why => why.message
  | config why => why.message
  | missingSource path => "No such file or directory: " ++ path
  | noSources => "No .graphql files found to merge"

/-- Why a command has failed. -/
structure Failure where
  /-- What it was doing. -/
  activity : Option Activity
  /-- What went wrong. -/
  cause : Cause
  deriving DecidableEq

namespace Failure

/-- A failure without an activity. -/
def plain (cause : Cause) : Failure := ⟨none, cause⟩

/-- A failure of an activity. -/
def during (activity : Activity) (cause : Cause) : Failure := ⟨some activity, cause⟩

/-- The exit status that a failure leads to. -/
def status (failure : Failure) : Nat :=
  match failure.cause with
  | .fault why => if why.isCrash then 101 else 1
  | _ => 1

/-- A text with every line after the first one indented. -/
def indentRest (text : String) : String :=
  String.ofList (text.toList.flatMap fun c => if c = '\n' then "\n    ".toList else [c])

/-- The text of a failure as the program reports it. -/
def report (failure : Failure) : String :=
  match failure.activity with
  | none => "Error: " ++ failure.cause.message ++ "\n"
  | some activity =>
    "Error: " ++ activity.message ++ "\n\nCaused by:\n    " ++
      indentRest failure.cause.message ++ "\n"

end Failure
end Command
end EntitySdl

import EntitySdl.Command.Failure
import EntitySdl.Files.Workspace
import EntitySdl.Generate.Config

/-! # Settings of a run

A run takes its settings from a configuration file, on top of which come those of
the command line.
-/
namespace EntitySdl
namespace Command

open Generate

/-- The settings that a command line may give. -/
structure Overrides where
  /-- Where the output goes. -/
  output : Option String := none
  /-- Whether existing files are replaced. -/
  overwrite : Bool := false
  /-- The file of a merged document. -/
  merged : Option String := none
  /-- The scalar of unique identifiers. -/
  idScalar : Option IdScalar := none
  /-- The shape of queries for a single record. -/
  lookup : Option LookupStyle := none
  /-- How resolver files export. -/
  outputKind : Option ResolverModuleKind := none
  /-- Whether filters are left out. -/
  noFilters : Bool := false
  /-- Whether resolver files are left out. -/
  noResolvers : Bool := false
  /-- The directory of resolver files. -/
  resolverDir : Option String := none
  deriving DecidableEq

namespace Overrides

/-- A configuration with the settings of a command line, which prevail. -/
def apply (overrides : Overrides) (verbose : Bool) (config : Config) : Config where
  outputDir := overrides.output.getD config.outputDir
  overwrite := overrides.overwrite || config.overwrite
  verbose := verbose || config.verbose
  mode := if overrides.merged.isSome then .merged else config.mode
  mergedFile := overrides.merged.getD config.mergedFile
  outputKind := overrides.outputKind.getD config.outputKind
  idScalar := overrides.idScalar.getD config.idScalar
  filters := !overrides.noFilters && config.filters
  lookup := overrides.lookup.getD config.lookup
  emitResolvers := !overrides.noResolvers && config.emitResolvers
  resolverDir := overrides.resolverDir.getD config.resolverDir
  relationResolvers := config.relationResolvers
  fieldDirectives := config.fieldDirectives

/-- No settings of the command line leave a configuration as it is. -/
@[simp] theorem apply_none (config : Config) : apply {} false config = config := rfl

end Overrides

/-- The configuration file that is used, if it exists, when none is named. -/
def defaultConfigFile : String := "sdlgen.toml"

variable {m : Type → Type} [Monad m] [Workspace m]

/-- The configuration in a file. -/
def readConfig (path : String) : m (Except Failure Config) := do
  match ← Workspace.read path with
  | .error why => return .error (.during (.readingConfig path) (.system why))
  | .ok text =>
    return (Config.parse text).mapError fun why => .during (.parsingConfig path) (.config why)

/-- The configuration of a run: that of the file named, which must exist, or that of
the default file, or the default one. -/
def loadConfig (named : Option String) : m (Except Failure Config) := do
  match named with
  | some path => readConfig path
  | none =>
    if ← Workspace.pathExists defaultConfigFile then readConfig defaultConfigFile
    else return .ok {}

end Command
end EntitySdl

import EntitySdl.Command.Settings

/-! # Options of the command line

An option has a long name, often a short one, and may take a value.  Each option
stores what it was given in one record for the whole command line.
-/
namespace EntitySdl
namespace Command

open Generate

/-- Why a command line is not carried out. -/
inductive Usage where
  /-- An option that does not exist, or an argument too many. -/
  | unknownArgument
  /-- A command without the paths that it needs. -/
  | missingArgument
  /-- An option without its value, or with one that it does not take. -/
  | invalidValue
  /-- A command that does not exist. -/
  | unknownCommand
  /-- Options, but no command. -/
  | missingCommand
  /-- An option that is given twice. -/
  | repeatedOption
  /-- A value for an option that takes none. -/
  | unneededValue
  /-- The help has been asked for. -/
  | helpWanted
  /-- The version has been asked for. -/
  | versionWanted
  /-- Nothing has been given. -/
  | nothingGiven
  deriving DecidableEq

/-- What a command line has given. -/
structure Given where
  /-- Whether every file is to be logged. -/
  verbose : Bool := false
  /-- The configuration file. -/
  config : Option String := none
  /-- The arguments that are no options. -/
  paths : List String := []
  /-- The settings. -/
  overrides : Overrides := {}
  deriving DecidableEq

/-- Whether an option takes a value. -/
inductive ValueUse where
  | never
  | always
  /-- It may be left out, and then stands for the one given here. -/
  | optional (value : String)
  deriving DecidableEq

/-- An option. -/
structure Switch where
  /-- The name behind two hyphens. -/
  long : String
  /-- The letter behind one hyphen. -/
  short : Option Char
  /-- Whether it takes a value. -/
  use : ValueUse
  /-- What it does with its value. -/
  store : String → Given → Except Usage Given

namespace Switch

/-- An option without a value. -/
def flag (long : String) (short : Option Char) (set : Given → Given) : Switch :=
  ⟨long, short, .never, fun _ given => .ok (set given)⟩

/-- An option that is answered at once. -/
def answered (long : String) (short : Option Char) (answer : Usage) : Switch :=
  ⟨long, short, .never, fun _ _ => .error answer⟩

/-- An option whose value is a path. -/
def path (long : String) (short : Option Char) (use : ValueUse)
    (set : String → Given → Given) : Switch :=
  ⟨long, short, use, fun text given =>
    if text.isEmpty then .error .invalidValue else .ok (set text given)⟩

/-- An option whose value is one of some names, which are compared after a
change. -/
def choice {α : Type} (long : String) (change : Char → Char) (names : List (String × α))
    (set : α → Given → Given) : Switch :=
  ⟨long, none, .always, fun text given =>
    match names.find? fun entry => entry.1.toList.map change == text.toList.map change with
    | some (_, value) => .ok (set value given)
    | none => .error .invalidValue⟩

/-! ## The options -/

/-- A setting stored in what a command line has given. -/
def setting (set : Overrides → Overrides) (given : Given) : Given :=
  { given with overrides := set given.overrides }

/-- Log every file. -/
def verbose : Switch := flag "verbose" (some 'v') fun given => { given with verbose := true }

/-- The configuration file. -/
def config : Switch :=
  path "config" (some 'c') .always fun text given => { given with config := some text }

/-- Ask for the help. -/
def help : Switch := answered "help" (some 'h') .helpWanted

/-- Ask for the version. -/
def version : Switch := answered "version" (some 'V') .versionWanted

/-- Where the output goes. -/
def output : Switch :=
  path "output" (some 'o') .always fun text =>
    setting fun overrides => { overrides with output := some text }

/-- Replace existing files. -/
def overwrite : Switch :=
  flag "overwrite" none (setting fun overrides => { overrides with overwrite := true })

/-- Write one merged document. -/
def merged : Switch :=
  path "merged" none (.optional "schema.graphql") fun text =>
    setting fun overrides => { overrides with merged := some text }

/-- The scalar of unique identifiers, in letters of either case. -/
def idScalar : Switch :=
  choice "id-scalar" Char.toLower idScalars fun value =>
    setting fun overrides => { overrides with idScalar := some value }

/-- The shape of queries for a single record. -/
def lookup : Switch :=
  choice "lookup" id lookupStyles fun value =>
    setting fun overrides => { overrides with lookup := some value }

/-- How resolver files export. -/
def outputKind : Switch :=
  choice "output-kind" id resolverModuleKinds fun value =>
    setting fun overrides => { overrides with outputKind := some value }

/-- Leave the filters out. -/
def noFilters : Switch :=
  flag "no-filters" none (setting fun overrides => { overrides with noFilters := true })

/-- Leave the resolver files out. -/
def noResolvers : Switch :=
  flag "no-resolvers" none (setting fun overrides => { overrides with noResolvers := true })

/-- The directory of resolver files. -/
def resolverDir : Switch :=
  path "resolver-dir" none .always fun text =>
    setting fun overrides => { overrides with resolverDir := some text }

/-- The options of every command. -/
def shared : List Switch := [verbose, config, help]

end Switch
end Command
end EntitySdl

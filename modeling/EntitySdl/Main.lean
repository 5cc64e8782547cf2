import EntitySdl.Command.Run

/-! # The program

The files of the machine as a workspace, and the program that runs on them.
-/
namespace EntitySdl
namespace Machine

/-- The reason behind an error of the machine. -/
def reason (error : IO.Error) : SystemFault :=
  match error with
  | .noFileOrDirectory _ _ _ | .noSuchThing _ _ _ => .noEntry
  | .alreadyExists _ _ _ => .exists
  | .inappropriateType _ 20 _ => .notDirectory
  | .inappropriateType _ 21 _ => .isDirectory
  | error => .other (toString error)

/-- The result of an action, or the reason why it failed. -/
def attempt {α : Type} (action : IO α) : IO (Except SystemFault α) := do
  match ← action.toBaseIO with
  | .ok value => return .ok value
  | .error error => return .error (reason error)

/-- The kind of a file. -/
def kindOf : IO.FS.FileType → NodeKind
  | .file => .file
  | .dir => .directory
  | _ => .special

/-- What a path leads to. -/
def find? (path : String) : IO (Option Found) := do
  let found ← attempt do
    let real ← IO.FS.realPath path
    let place := (real.toString.splitOn "/").filter (!·.isEmpty)
    return (⟨place, kindOf (← real.metadata).type⟩ : Found)
  return found.toOption

/-- The files below a directory, each behind the names given. -/
partial def walk (directory : String) (names : Place) : IO (List Place) := do
  let entries ← (← IO.FS.realPath directory).readDir
  let below ← entries.toList.mapM fun entry => do
    let place := names ++ [entry.fileName]
    match (← entry.path.symlinkMetadata).type with
    | .file => return [place]
    | .dir => walk (Path.join directory entry.fileName) place
    | _ => return []
  return below.flatten

end Machine

/-- The files of the machine are a workspace. -/
instance : Workspace IO where
  find? := Machine.find?
  read path := Machine.attempt (IO.FS.readFile path)
  write path text := Machine.attempt (IO.FS.writeFile path text)
  makeDirectory path := Machine.attempt (IO.FS.createDir path)
  filesBelow path := Machine.attempt do
    return (← Machine.walk path []).mergeSort Place.notAfter

/-- The help. -/
def helpText : String :=
  "GraphQL SDL and resolver stubs from entity schemas\n\n" ++
  "Usage: sdlgen [OPTIONS] <COMMAND>\n\n" ++
  "Commands:\n" ++
  "  generate <SCHEMA>   Generate SDL and resolver stubs from a schema file\n" ++
  "  merge <PATHS>...    Merge existing .graphql files into one root document\n" ++
  "  validate <SCHEMA>   Validate a schema file\n" ++
  "  info <SCHEMA>       Display information about a schema file\n" ++
  "  help                Print this message\n\n" ++
  "Options:\n" ++
  "  -v, --verbose       Log every written or skipped file\n" ++
  "  -c, --config <FILE> Configuration file (defaults to ./sdlgen.toml when present)\n" ++
  "  -h, --help          Print help\n" ++
  "  -V, --version       Print version\n\n" ++
  "Options of generate:\n" ++
  "  -o, --output <DIR>  Output directory\n" ++
  "      --overwrite     Overwrite existing files\n" ++
  "      --merged [FILE] Write one merged document instead of one file per model\n" ++
  "      --id-scalar <ID|UUID>\n" ++
  "      --lookup <unique-filter|per-identifier>\n" ++
  "      --output-kind <source-module|plain-script>\n" ++
  "      --no-filters    Do not generate filter input types\n" ++
  "      --no-resolvers  Do not write resolver stubs\n" ++
  "      --resolver-dir <DIR>\n\n" ++
  "Options of merge:\n" ++
  "  -o, --output <FILE> Output file (prints to stdout when omitted)\n" ++
  "      --overwrite     Overwrite the output file if it exists\n" ++
  "      --id-scalar <ID|UUID>\n"

end EntitySdl

def main (arguments : List String) : IO UInt32 := do
  let outcome ← EntitySdl.Command.run EntitySdl.helpText (← IO.getEnv "SDLGEN_CONFIG") arguments
  IO.print outcome.output
  IO.eprint outcome.errors
  return outcome.status.toUInt32

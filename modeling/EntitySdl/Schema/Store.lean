import EntitySdl.Schema.File
import EntitySdl.Files.Workspace

/-! # Stored schemas

Schemas in files, of the format that the extension of the path stands for.
-/
namespace EntitySdl
namespace SchemaFile

variable {m : Type → Type} [Monad m] [Workspace m]

/-- A fault of a text, as a fault of the file that holds it. -/
def inFile (path : String) : Fault → Fault
  | .json why => .fileRead path ("Invalid schema file format: " ++ why.message)
  | fault => fault

/-- The schema in a file. -/
def load (path : String) : m (Except Fault Schema) := do
  if !(← Workspace.pathExists path) then return .error (.schemaNotFound path)
  match SchemaFormat.ofPath path with
  | .error fault => return .error fault
  | .ok format =>
    match ← Workspace.read path with
    | .error why => return .error (.fileRead path why.message)
    | .ok text => return (parse format text).mapError (inFile path)

/-- Creates the directory that a file is to be put into, unless something is
there. -/
def createFolder (path : String) : m (Except Fault Unit) := do
  match Path.parent? path with
  | none | some "" => return .ok ()
  | some parent =>
    if ← Workspace.pathExists parent then return .ok ()
    return (← Workspace.createDirectories parent).mapError fun why =>
      .directoryCreate parent why.message

/-- Puts a schema into a file. -/
def save (schema : Schema) (path : String) : m (Except Fault Unit) := do
  match SchemaFormat.ofPath path with
  | .error fault => return .error fault
  | .ok format =>
    match ← createFolder path with
    | .error fault => return .error fault
    | .ok () =>
      return (← Workspace.write path (print format schema)).mapError fun why =>
        .fileWrite path why.message

end SchemaFile
end EntitySdl

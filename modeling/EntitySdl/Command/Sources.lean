import EntitySdl.Command.Failure
import EntitySdl.Files.Workspace
import EntitySdl.Generate.Emission
import EntitySdl.Sdl.Split

/-! # Merging documents

SDL documents are named one by one or by the directories that hold them.  They
are merged in the order in which they are named, those of a directory in the
order of their names.  The output is never one of them.
-/
namespace EntitySdl
namespace Command

open Generate

variable {m : Type → Type} [Monad m] [Workspace m]

/-- The extensions of SDL documents. -/
def documentExtensions : List String := ["graphql", "gql"]

/-- Whether a path has the extension of an SDL document. -/
def isDocument (path : String) : Bool :=
  (Path.extension? path).any documentExtensions.contains

/-- The paths of SDL documents among files below a directory.  A file at a place that
is left out does not count. -/
def documentsAmong (directory : String) (base : Place) (excluded : Option Place)
    (files : List Place) : List String :=
  (files.filter fun names => excluded != some (base ++ names)).filterMap fun names =>
    let path := names.foldl Path.join directory
    if isDocument path then some path else none

/-- The documents that one path stands for: the file itself, or all of a
directory. -/
def collectOne (excluded : Option Place) (path : String) : m (Except Failure (List String)) := do
  match ← Workspace.find? path with
  | some ⟨place, .file⟩ => return .ok (if excluded = some place then [] else [path])
  | some ⟨place, .directory⟩ =>
    match ← Workspace.filesBelow path with
    | .error why => return .error (.during (.readingSource path) (.system why))
    | .ok files => return .ok (documentsAmong path place excluded files)
  | _ => return .error (.plain (.missingSource path))

/-- The documents that paths stand for. -/
def collectFrom (excluded : Option Place) : List String → m (Except Failure (List String))
  | [] => return .ok []
  | path :: paths => do
    match ← collectOne excluded path with
    | .error failure => return .error failure
    | .ok documents => return (← collectFrom excluded paths).map (documents ++ ·)

/-- The documents that paths stand for, without the output. -/
def collect (paths : List String) (output : Option String) :
    m (Except Failure (List String)) := do
  match output with
  | none => collectFrom none paths
  | some path => collectFrom ((← Workspace.find? path).map (·.place)) paths

/-- The fragment in a file. -/
def readFragment (path : String) : m (Except Failure Sdl.Fragment) := do
  match ← Workspace.read path with
  | .error why => return .error (.during (.readingSource path) (.system why))
  | .ok source =>
    return (Sdl.Fragment.parse path source).mapError fun fault => .plain (.fault fault)

/-- The fragments in files. -/
def readFragments : List String → m (Except Failure (List Sdl.Fragment))
  | [] => return .ok []
  | path :: paths => do
    match ← readFragment path with
    | .error failure => return .error failure
    | .ok fragment => return (← readFragments paths).map (fragment :: ·)

/-- The documents in files, merged. -/
def mergeFiles (paths : List String) (idScalar : IdScalar) : m (Except Failure String) :=
  return (← readFragments paths).map fun fragments => Sdl.merge fragments idScalar

/-- What has become of a merged document. -/
inductive MergeReport where
  /-- It goes to the output of the program. -/
  | shown (text : String)
  /-- It has been written. -/
  | written (documents : Nat) (output : String)
  /-- The file that was there has been kept. -/
  | kept (output : String)
  deriving DecidableEq

/-- The text about a merged document. -/
def MergeReport.text : MergeReport → String
  | shown text => text
  | written documents output =>
    "✓ merged " ++ documents.repr ++ " file(s) into " ++ output ++ "\n"
  | kept output => "warning: " ++ output ++ " exists; pass --overwrite to replace it\n"

/-- Shows a merged document or writes it to a file. -/
def deliver (documents : Nat) (output : Option String) (overwrite : Bool) (text : String) :
    m (Except Failure MergeReport) := do
  match output with
  | none => return .ok (.shown text)
  | some path =>
    match ← Emitter.emit ⟨"", overwrite⟩ ⟨path, .sdl, text⟩ with
    | .error fault => return .error (.during (.writingOutput path) (.fault fault))
    | .ok (.written _) => return .ok (.written documents path)
    | .ok (.kept _) => return .ok (.kept path)

/-- Merges the documents that paths stand for. -/
def merge (paths : List String) (output : Option String) (overwrite : Bool)
    (idScalar : IdScalar) : m (Except Failure MergeReport) := do
  match ← collect paths output with
  | .error failure => return .error failure
  | .ok [] => return .error (.plain .noSources)
  | .ok documents =>
    match ← mergeFiles documents idScalar with
    | .error failure => return .error failure
    | .ok text => deliver documents.length output overwrite text

end Command
end EntitySdl

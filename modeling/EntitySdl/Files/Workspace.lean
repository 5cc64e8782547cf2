import EntitySdl.Files.Path
import EntitySdl.Files.SystemFault

/-! # Working with files

What a computation may do with files is a handful of operations on paths, given
as a class of monads.  The program is written over any such monad: it runs on the
files of the machine, and it is reasoned about on a tree of files that is a
value.
-/
namespace EntitySdl

/-- The names on the way from the root to a file or a directory. -/
abbrev Place := List String

/-- Whether a place is not behind another in the order of names. -/
def Place.notAfter : Place → Place → Bool
  | [], _ => true
  | _ :: _, [] => false
  | a :: as, b :: bs => decide (a < b) || (a == b && notAfter as bs)

/-- What a path leads to. -/
inductive NodeKind where
  | file
  | directory
  /-- A device or another thing that is neither. -/
  | special
  deriving DecidableEq

/-- A file or a directory that a path leads to. -/
structure Found where
  /-- Where it is, however the path is spelled. -/
  place : Place
  /-- What it is. -/
  kind : NodeKind
  deriving DecidableEq

/-- The operations on files. -/
class Workspace (m : Type → Type) where
  /-- What a path leads to, if it leads anywhere. -/
  find? : String → m (Option Found)
  /-- The text of a file. -/
  read : String → m (Except SystemFault String)
  /-- Writes a text to a file, which is created or replaced. -/
  write : String → String → m (Except SystemFault Unit)
  /-- Creates a directory in one that exists. -/
  makeDirectory : String → m (Except SystemFault Unit)
  /-- The files below a directory, each with the names on the way to it. -/
  filesBelow : String → m (Except SystemFault (List Place))

namespace Workspace

variable {m : Type → Type} [Monad m] [Workspace m]

/-- Files are at hand also where a state is carried along. -/
instance {σ : Type} : Workspace (StateT σ m) where
  find? path := liftM (find? (m := m) path)
  read path := liftM (read (m := m) path)
  write path text := liftM (write (m := m) path text)
  makeDirectory path := liftM (makeDirectory (m := m) path)
  filesBelow path := liftM (filesBelow (m := m) path)

/-- Whether a path leads anywhere. -/
def pathExists (path : String) : m Bool := return (← find? path).isSome

/-- Whether a path leads to a directory. -/
def isDirectory (path : String) : m Bool :=
  return (← find? path).any fun found => found.kind == .directory

/-- Creates the first of some directories, each of which lies in the next one,
after as many of the others as are missing. -/
def createInner : List String → m (Except SystemFault Unit)
  | [] => return .ok ()
  | path :: outer => do
    match ← makeDirectory path with
    | .error .noEntry =>
      match ← createInner outer with
      | .error why => return .error why
      | .ok () => settle path (← makeDirectory path)
    | made => settle path made
where
  /-- A directory that is there need not be created. -/
  settle (path : String) : Except SystemFault Unit → m (Except SystemFault Unit)
    | .ok () => return .ok ()
    | .error why => return if ← isDirectory path then .ok () else .error why

/-- Creates a directory and those around it that are missing. -/
def createDirectories (path : String) : m (Except SystemFault Unit) :=
  createInner (Path.ancestors path)

end Workspace
end EntitySdl

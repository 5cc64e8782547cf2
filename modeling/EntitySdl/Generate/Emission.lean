import EntitySdl.Generate.Project
import EntitySdl.Files.Workspace

/-! # Emission

Generated files are written below a base directory, one after the other.  A file
that is already there is kept, unless files are to be replaced.  The first fault
ends the emission; what was written before stays written.
-/
namespace EntitySdl
namespace Generate

/-- Where and how files are written. -/
structure Emitter where
  /-- The directory that paths of files are relative to. -/
  base : String
  /-- Whether files that are there are replaced. -/
  overwrite : Bool
  deriving DecidableEq

/-- What has become of a generated file. -/
inductive Delivery where
  /-- It has been written. -/
  | written (path : String)
  /-- The file that was there has been kept. -/
  | kept (path : String)
  deriving DecidableEq

/-- What has become of some generated files, in their order. -/
structure Deliveries where
  /-- The paths that have been written. -/
  written : List String := []
  /-- The paths at which a file has been kept. -/
  kept : List String := []
  deriving DecidableEq

/-- Deliveries with one more. -/
def Deliveries.add (deliveries : Deliveries) : Delivery → Deliveries
  | .written path => { deliveries with written := deliveries.written ++ [path] }
  | .kept path => { deliveries with kept := deliveries.kept ++ [path] }

namespace Emitter

/-- The emitter that a configuration asks for. -/
def ofConfig (config : Config) : Emitter := ⟨config.outputDir, config.overwrite⟩

variable {m : Type → Type} [Monad m] [Workspace m]

/-- The path of a file. -/
def pathOf (emitter : Emitter) (file : OutputFile) : String := Path.join emitter.base file.path

/-- Creates the directory that holds a path, if the path names one. -/
def createParent (path : String) : m (Except Fault Unit) :=
  match Path.parent? path with
  | none => return .ok ()
  | some parent => do
    return (← Workspace.createDirectories parent).mapError fun why =>
      .directoryCreate parent why.message

/-- Writes a file whether or not one is there. -/
def replace (path content : String) : m (Except Fault Delivery) := do
  match ← createParent path with
  | .error fault => return .error fault
  | .ok () =>
    match ← Workspace.write path content with
    | .error why => return .error (.fileWrite path why.message)
    | .ok () => return .ok (.written path)

/-- Writes a file, unless one is there that must be kept. -/
def emit (emitter : Emitter) (file : OutputFile) : m (Except Fault Delivery) := do
  let path := emitter.pathOf file
  if emitter.overwrite then replace path file.content
  else if ← Workspace.pathExists path then return .ok (.kept path)
  else replace path file.content

/-- Writes files in order, up to the first fault, and adds what has become of them to
earlier deliveries. -/
def emitAll (emitter : Emitter) :
    List OutputFile → Deliveries → m (Except Fault Unit × Deliveries)
  | [], deliveries => return (.ok (), deliveries)
  | file :: files, deliveries => do
    match ← emitter.emit file with
    | .error fault => return (.error fault, deliveries)
    | .ok delivery => emitter.emitAll files (deliveries.add delivery)

end Emitter

/-- What a run has generated and what has become of it. -/
structure RunReport where
  /-- The files and the warnings. -/
  project : Project
  /-- The paths written and kept. -/
  deliveries : Deliveries
  deriving DecidableEq

/-- Generates the project of a schema and writes its files.  When all of them have
been dealt with, the paths written are handed over, once. -/
def Generator.run {m : Type → Type} [Monad m] [Workspace m] (g : Generator)
    (onComplete : List String → m Unit) (schema : Schema) : m (Except Fault RunReport) := do
  match g.generate schema with
  | .error fault => return .error fault
  | .ok project =>
    match ← (Emitter.ofConfig g.config).emitAll project.files {} with
    | (.error fault, _) => return .error fault
    | (.ok (), deliveries) =>
      onComplete deliveries.written
      return .ok ⟨project, deliveries⟩

end Generate
end EntitySdl

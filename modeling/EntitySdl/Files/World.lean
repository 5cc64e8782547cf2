import EntitySdl.Files.Tree

/-! # Worlds

A tree of files together with the directory that relative paths start at.  A world
is a workspace: every operation answers and passes the world on, and only the two
that succeed in writing a file or creating a directory change it.
-/
namespace EntitySdl

/-- A tree of files and the directory that paths start at. -/
structure World where
  /-- The files. -/
  tree : Tree := {}
  /-- The working directory. -/
  directory : Place := []
  deriving DecidableEq

namespace World

/-- The place that a path leads to. -/
def locate (world : World) (path : String) : Except SystemFault Place :=
  if path.isEmpty then .error .noEntry
  else world.tree.follow (if Path.isAbsolute path then [] else world.directory) (Tree.pieces path)

/-- The node that a path leads to, with its place. -/
def find (world : World) (path : String) : Except SystemFault (Place × Node) := do
  let place ← world.locate path
  match world.tree.node? place with
  | none => throw .noEntry
  | some .directory => return (place, .directory)
  | some (.file content) =>
    if Tree.asksDirectory path then throw .notDirectory else return (place, .file content)

/-- The text of a file. -/
def read (world : World) (path : String) : Except SystemFault String := do
  match ← world.find path with
  | (_, .directory) => throw .isDirectory
  | (_, .file content) => return content

/-- The place that a file may be written to. -/
def target (world : World) (path : String) : Except SystemFault Place := do
  let place ← world.locate path
  if Tree.asksDirectory path || world.tree.node? place == some .directory then
    throw .isDirectory
  else return place

/-- The place that a directory may be created at. -/
def vacancy (world : World) (path : String) : Except SystemFault Place := do
  let place ← world.locate path
  if (world.tree.node? place).isSome then throw .exists else return place

/-- The files below a directory. -/
def filesBelow (world : World) (path : String) : Except SystemFault (List Place) := do
  match ← world.find path with
  | (place, .directory) => return world.tree.filesBelow place
  | (_, .file _) => throw .notDirectory

/-- A world with a node put at a place, if there is a place for it. -/
def putAt (world : World) (node : Node) :
    Except SystemFault Place → Except SystemFault Unit × World
  | .error why => (.error why, world)
  | .ok place => (.ok (), { world with tree := world.tree.put place node })

/-- A world is worked with by passing it on. -/
instance : Workspace (StateM World) where
  find? path := fun world =>
    ((world.find path).toOption.map fun (place, node) => ⟨place, node.kind⟩, world)
  read path := fun world => (world.read path, world)
  write path text := fun world => world.putAt (.file text) (world.target path)
  makeDirectory path := fun world => world.putAt .directory (world.vacancy path)
  filesBelow path := fun world => (world.filesBelow path, world)

end World
end EntitySdl

import EntitySdl.Files.Workspace

/-! # Trees of files

A tree of files as a value: what stands at each place below the root.  The root
itself is a directory.  A path is followed piece by piece, and every piece leads
on from a directory only.
-/
namespace EntitySdl

/-- What stands at a place. -/
inductive Node where
  | directory
  | file (content : String)
  deriving DecidableEq

/-- The kind of a node. -/
def Node.kind : Node → NodeKind
  | directory => .directory
  | file _ => .file

/-- A tree of files. -/
structure Tree where
  /-- The nodes below the root, with their places. -/
  nodes : List (Place × Node) := []
  deriving DecidableEq

namespace Tree

/-- The node at a place. -/
def node? (tree : Tree) (place : Place) : Option Node :=
  if place = [] then some .directory else tree.nodes.lookup place

/-- Nodes with one replaced, or added at the end. -/
def putNode (place : Place) (node : Node) : List (Place × Node) → List (Place × Node)
  | [] => [(place, node)]
  | (other, old) :: nodes =>
    if other = place then (place, node) :: nodes else (other, old) :: putNode place node nodes

/-- A tree with a node replaced or added. -/
def put (tree : Tree) (place : Place) (node : Node) : Tree := ⟨putNode place node tree.nodes⟩

/-- The files below a place, each with the names on the way to it from there.  They
are in the order of their names, so that those of a directory stand together. -/
def filesBelow (tree : Tree) (place : Place) : List Place :=
  (tree.nodes.filterMap fun (other, node) =>
    if node.kind = .file then place.isPrefixOf? other else none).mergeSort
      Place.notAfter

/-- The pieces of a path: what stands between its slashes. -/
def pieces (path : String) : List String :=
  ((Text.splitAt (· == '/') path.toList).filter (!·.isEmpty)).map String.ofList

/-- Whether a path ends with a slash, and so asks for a directory. -/
def asksDirectory (path : String) : Bool := path.toList.getLast? == some '/'

/-- The place that one piece leads to. -/
def step (place : Place) (piece : String) : Place :=
  if piece = "." then place else if piece = ".." then place.dropLast else place ++ [piece]

/-- The place that pieces lead to.  Whether there is something at the last of them
is left open. -/
def follow (tree : Tree) : Place → List String → Except SystemFault Place
  | place, [] => .ok place
  | place, piece :: rest =>
    match tree.node? place with
    | some .directory => follow tree (step place piece) rest
    | some (.file _) => .error .notDirectory
    | none => .error .noEntry

end Tree

end EntitySdl

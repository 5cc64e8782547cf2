import EntitySdl.Text.Blank

/-! # Paths

A path is a text of components between slashes.  It is kept as it was written:
joining adds a slash and nothing else, and no component is resolved.  Two paths
are the same when their components are, in which repeated slashes and inner
single points do not count.
-/
namespace EntitySdl
namespace Path

/-- A step of a path. -/
inductive Component where
  /-- The root directory. -/
  | root
  /-- The current directory, which counts at the start of a path only. -/
  | current
  /-- The directory above. -/
  | up
  /-- An entry of the directory. -/
  | entry (name : String)
  deriving DecidableEq

/-- The component that a piece between slashes stands for, if any. -/
def component? (first : Bool) (piece : List Char) : Option Component :=
  match piece with
  | [] => none
  | ['.'] => if first then some .current else none
  | ['.', '.'] => some .up
  | name => some (.entry (String.ofList name))

/-- The components of a path. -/
def components (path : String) : List Component :=
  match Text.splitAt (· == '/') path.toList with
  | [] => []
  | [[]] => []
  | [] :: pieces => .root :: pieces.filterMap (component? false)
  | piece :: pieces => (component? true piece).toList ++ pieces.filterMap (component? false)

/-- Whether two paths have the same components. -/
def same (left right : String) : Bool := components left == components right

/-- Whether a path begins at the root directory. -/
def isAbsolute (path : String) : Bool := path.toList.head? == some '/'

/-- A path taken relative to another. -/
def join (left right : String) : String :=
  if isAbsolute right then right
  else if left.isEmpty || left.toList.getLast? == some '/' then left ++ right
  else left ++ "/" ++ right

/-- A reversed path without the slashes and the single points that it ends
with. -/
def dropEnd : List Char → List Char
  | '/' :: c :: rest => dropEnd (c :: rest)
  | '.' :: '/' :: rest => dropEnd ('/' :: rest)
  | path => path

/-- The path of the directory that holds the last component, if there is one. -/
def parent? (path : String) : Option String :=
  match dropEnd path.toList.reverse with
  | [] | ['/'] => none
  | reversed =>
    some (String.ofList (dropEnd (reversed.dropWhile (· != '/'))).reverse)

/-- A path and the paths of the directories around it, innermost first, up to a
number of them. -/
def ancestorsFrom : Nat → String → List String
  | 0, _ => []
  | count + 1, path =>
    if path.isEmpty then [] else path :: ((parent? path).map (ancestorsFrom count)).getD []

/-- A path and the paths of the directories around it, innermost first. -/
def ancestors (path : String) : List String := ancestorsFrom path.length path

/-- The name of the last component, if that is an entry. -/
def fileName? (path : String) : Option (List Char) :=
  match (dropEnd path.toList.reverse).takeWhile (· != '/') with
  | [] | ['.'] | ['.', '.'] => none
  | reversed => some reversed.reverse

/-- What follows the last point of the name of the last component.  A point at
the start of the name does not count. -/
def extension? (path : String) : Option String := do
  let name ← fileName? path
  let reversed := name.reverse
  match reversed.dropWhile (· != '.') with
  | [] | ['.'] => none
  | _ => some (String.ofList (reversed.takeWhile (· != '.')).reverse)

end Path
end EntitySdl

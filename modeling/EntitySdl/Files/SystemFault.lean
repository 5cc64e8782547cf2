/-! # Faults of the file system

Why a file or a directory cannot be used.  The four usual reasons are kept as
data, since the program reacts to one of them; any other is a text.
-/
namespace EntitySdl

/-- The reasons of the file system. -/
inductive SystemFault where
  /-- Something on the path does not exist. -/
  | noEntry
  /-- What is to be created exists. -/
  | exists
  /-- Something on the path is a file where a directory is needed. -/
  | notDirectory
  /-- The path leads to a directory where a file is needed. -/
  | isDirectory
  /-- Another reason. -/
  | other (text : String)
  deriving DecidableEq

/-- The text of a reason. -/
def SystemFault.message : SystemFault → String
  | noEntry => "No such file or directory (os error 2)"
  | .exists => "File exists (os error 17)"
  | notDirectory => "Not a directory (os error 20)"
  | isDirectory => "Is a directory (os error 21)"
  | other text => text

end EntitySdl

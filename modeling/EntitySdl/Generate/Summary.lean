import EntitySdl.Generate.Project
import EntitySdl.Number.Nearest

/-! # The summary of a run

The numbers of files and warnings and the size of the output, in a box.  A size
from 1024 bytes on is given in larger units with one decimal place, a half being
rounded to the even digit.
-/
namespace EntitySdl
namespace Generate

/-- The numbers of a run. -/
structure Summary where
  /-- All files. -/
  totalFiles : Nat
  /-- The SDL documents. -/
  sdlFiles : Nat
  /-- The resolver files. -/
  resolverFiles : Nat
  /-- The warnings. -/
  warningCount : Nat
  /-- The size of all files in bytes. -/
  totalBytes : Nat
  deriving DecidableEq

namespace Summary

/-- The size of all files in bytes. -/
def totalSize : List OutputFile → Nat
  | [] => 0
  | file :: files => file.content.utf8ByteSize + totalSize files

/-- The summary of a project. -/
def ofProject (project : Project) : Summary where
  totalFiles := project.files.length
  sdlFiles := (project.filesOf .sdl).length
  resolverFiles := (project.filesOf .resolvers).length
  warningCount := project.warnings.length
  totalBytes := totalSize project.files

/-- A number of bytes as the whole number that a double holds for it. -/
def wholeDouble (bytes : Nat) : Nat :=
  let d := Number.Dyadic.ofFloat (Number.nearest bytes 1)
  if 0 ≤ d.q then d.m * Number.twoTo d.q.natAbs else d.m / Number.twoTo d.q.natAbs

/-- A number of bytes in a unit, with one decimal place. -/
def inUnits (bytes unit : Nat) : String :=
  let tenths := Number.roundHalfEven (10 * wholeDouble bytes) unit
  (tenths / 10).repr ++ "." ++ (tenths % 10).repr

/-- A size as the summary shows it. -/
def sizeText (bytes : Nat) : String :=
  if bytes < 1024 then bytes.repr ++ " B"
  else if bytes < 1024 * 1024 then inUnits bytes 1024 ++ " KB"
  else inUnits bytes (1024 * 1024) ++ " MB"

/-- A line of the box: a label and a value, filled up to the width. -/
def boxLine (label value : String) : String :=
  "║  " ++ label ++ value ++ String.ofList (List.replicate (35 - value.length) ' ') ++ "║\n"

/-- A summary as text. -/
def text (summary : Summary) : String :=
  "╔══════════════════════════════════════════════════╗\n" ++
  "║         Schema Generation Complete               ║\n" ++
  "╠══════════════════════════════════════════════════╣\n" ++
  boxLine "Total Files: " summary.totalFiles.repr ++
  boxLine "  SDL:       " summary.sdlFiles.repr ++
  boxLine "  Resolvers: " summary.resolverFiles.repr ++
  boxLine "Warnings:    " summary.warningCount.repr ++
  boxLine "Total Size:  " (sizeText summary.totalBytes) ++
  "╚══════════════════════════════════════════════════╝\n"

end Summary
end Generate
end EntitySdl

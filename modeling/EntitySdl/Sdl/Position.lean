/-! # Lines and columns

A place in a text is named by its line and column, both counted from one.  Two
ways of counting are in use.  The place of a definition is counted by line feeds
alone, and a carriage return sets the column back; looking such a place up
counts characters from the last line feed, so that the two agree only on texts
without carriage returns.  A report counts a carriage return with its line feed
as one line end.
-/
namespace EntitySdl
namespace Sdl

/-- A place in a text. -/
structure Position where
  /-- The line, counted from one. -/
  line : Nat := 1
  /-- The column, counted from one. -/
  column : Nat := 1
  deriving DecidableEq

namespace Position

/-- The place behind a further character. -/
def step (position : Position) (c : Char) : Position :=
  if c = '\n' then ⟨position.line + 1, 1⟩
  else if c = '\r' then ⟨position.line, 1⟩
  else ⟨position.line, position.column + 1⟩

/-- The place behind so many characters of a text. -/
def after (source : List Char) (offset : Nat) : Position :=
  (source.take offset).foldl step {}

/-- The number of characters before the start of a line, if there is such a
line. -/
def lineStart? : Nat → List Char → Option Nat
  | 0, _ => some 0
  | _ + 1, [] => none
  | lines + 1, c :: cs =>
    (lineStart? (if c = '\n' then lines else lines + 1) cs).map (· + 1)

/-- The number of characters before a place; all of them if there is no such
place. -/
def offset (source : List Char) (position : Position) : Nat :=
  match lineStart? (position.line - 1) source with
  | none => source.length
  | some start =>
    if start + (position.column - 1) < source.length then start + (position.column - 1)
    else source.length

/-- The line and column behind a text as a report counts them. -/
def reported : List Char → Position → Position
  | [], position => position
  | '\r' :: '\n' :: cs, position => reported cs ⟨position.line + 1, 1⟩
  | '\n' :: cs, position => reported cs ⟨position.line + 1, 1⟩
  | _ :: cs, position => reported cs ⟨position.line, position.column + 1⟩

end Position
end Sdl
end EntitySdl

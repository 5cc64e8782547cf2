import EntitySdl.Datum.Basic
import EntitySdl.Number.Shortest
import EntitySdl.Text.CharSet

/-! # Writing JSON

One element or entry stands on a line of its own, two spaces deeper than the
brackets around it; empty lists and records stay on one line.
-/
namespace EntitySdl
namespace Json

open Text

/-- How a string shows a character. -/
def escapeChar (c : Char) : List Char :=
  match c with
  | '"' => ['\\', '"']
  | '\\' => ['\\', '\\']
  | '\x08' => ['\\', 'b']
  | '\t' => ['\\', 't']
  | '\n' => ['\\', 'n']
  | '\x0C' => ['\\', 'f']
  | '\r' => ['\\', 'r']
  | c =>
    if c.toNat < 0x20 then
      let digits := hexDigits c.toNat
      ['\\', 'u'] ++ List.replicate (4 - digits.length) '0' ++ digits
    else [c]

/-- A text as a string. -/
def printString (text : String) : List Char := '"' :: text.toList.flatMap escapeChar ++ ['"']

/-- A line break with the indentation of a depth. -/
def lineBreak (depth : Nat) : List Char := '\n' :: List.replicate (2 * depth) ' '

/-- Elements on lines of their own between brackets. -/
def bracket (opening closing : Char) (depth : Nat) : List (List Char) → List Char
  | [] => [opening, closing]
  | elements =>
    let onLines := elements.map fun element => lineBreak (depth + 1) ++ element
    opening :: [','].intercalate onLines ++ lineBreak depth ++ [closing]

mutual

/-- A datum at a depth. -/
def printAt (depth : Nat) : Datum → List Char
  | .null => "null".toList
  | .boolean value => (if value then "true" else "false").toList
  | .integer value => value.repr.toList
  | .float value => (Number.compactText value).toList
  | .text value => printString value
  | .list items => bracket '[' ']' depth (printItems depth items)
  | .record entries => bracket '\x7b' '\x7d' depth (printEntries depth entries)

/-- The elements of a list at a depth. -/
def printItems (depth : Nat) : List Datum → List (List Char)
  | [] => []
  | item :: items => printAt (depth + 1) item :: printItems depth items

/-- The entries of a record at a depth. -/
def printEntries (depth : Nat) : List (String × Datum) → List (List Char)
  | [] => []
  | (key, value) :: entries =>
    (printString key ++ [':', ' '] ++ printAt (depth + 1) value) :: printEntries depth entries

end

/-- A document. -/
def print (datum : Datum) : String := String.ofList (printAt 0 datum)

end Json
end EntitySdl

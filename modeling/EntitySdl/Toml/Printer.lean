import EntitySdl.Datum.Basic
import EntitySdl.Number.Shortest
import EntitySdl.Toml.Text

/-! # Writing TOML

A record becomes sections, one after the other with a blank line between them: its
scalars and empty lists first, then the records and lists of records among its
entries, each under a header.  A text is written in the first of five styles
that can hold it.
-/
namespace EntitySdl
namespace Toml

open Text

/-! ## Strings -/

/-- The styles of strings, each preferred to the ones below it. -/
inductive StringStyle where
  /-- Between quotation marks, with nothing to be escaped but tabs. -/
  | plain
  /-- Between apostrophes. -/
  | literal
  /-- Between triple quotation marks, with nothing to be escaped but tabs. -/
  | plainLines
  /-- Between triple apostrophes. -/
  | literalLines
  /-- Between quotation marks, triple ones if there is a line break, with
  escapes. -/
  | escaped
  deriving DecidableEq

/-- Whether a character appears more than twice in a row. -/
def hasTriple (quote : Char) : List Char → Bool
  | a :: b :: c :: cs => (a == quote && b == quote && c == quote) || hasTriple quote (b :: c :: cs)
  | _ => false

/-- Whether a text has a character that no string shows as itself. -/
def hasControl (cs : List Char) : Bool := cs.any fun c => !isPlain c && c != '\n'

namespace StringStyle

/-- Whether a style can hold a text. -/
def holds (cs : List Char) : StringStyle → Bool
  | plain => !(hasControl cs || cs.contains '"' || cs.contains '\\' || cs.contains '\n')
  | literal => !(hasControl cs || cs.contains '\'' || cs.contains '\n')
  | plainLines => !(hasControl cs || cs.contains '\\' || hasTriple '"' cs)
  | literalLines => !(hasControl cs || hasTriple '\'' cs)
  | escaped => true

/-- The style of a text: the first one that can hold it. -/
def ofText (cs : List Char) : StringStyle :=
  ([plain, literal, plainLines, literalLines].find? (holds cs)).getD escaped

end StringStyle

/-- A control character by its code point. -/
def codeEscape (c : Char) : List Char :=
  let digits := (hexDigits c.toNat).map Char.toUpper
  ['\\', 'u'] ++ List.replicate (4 - digits.length) '0' ++ digits

/-- A character of a string with escapes, other than a quotation mark.  Line
breaks stand for themselves between triple quotation marks. -/
def escapeChar (lines : Bool) (c : Char) : List Char :=
  match c with
  | '\x08' => ['\\', 'b']
  | '\t' => ['\\', 't']
  | '\x0C' => ['\\', 'f']
  | '\r' => ['\\', 'r']
  | '\\' => ['\\', '\\']
  | '\n' => if lines then ['\n'] else ['\\', 'n']
  | c => if isPlain c then [c] else codeEscape c

/-- The characters of a string with escapes, after some quotation marks in a row.
Two in a row may stand for themselves between triple quotation marks, none
otherwise. -/
def escapeFrom (lines : Bool) : Nat → List Char → List Char
  | _, [] => []
  | marks, c :: cs =>
    if c = '"' then
      if marks < (if lines then 2 else 0) then c :: escapeFrom lines (marks + 1) cs
      else '\\' :: c :: escapeFrom lines 0 cs
    else escapeChar lines c ++ escapeFrom lines 0 cs

/-- A text between delimiters.  Behind triple ones a text with line breaks begins
on a line of its own. -/
def delimit (quote : Char) (lines : Bool) (startsLine : Bool) (cs : List Char) : List Char :=
  let delimiter := List.replicate (if lines then 3 else 1) quote
  delimiter ++ (if lines && startsLine then ['\n'] else []) ++ cs ++ delimiter

/-- A text as a string. -/
def printString (text : String) : List Char :=
  let cs := text.toList
  let broken := cs.contains '\n'
  let basic := fun lines => delimit '"' lines broken (escapeFrom lines 0 cs)
  match StringStyle.ofText cs with
  | .plain => basic false
  | .literal => delimit '\'' false broken cs
  | .plainLines => basic true
  | .literalLines => delimit '\'' true broken cs
  | .escaped => basic broken

/-- A key, without quotation marks if it needs none. -/
def printKey (key : String) : List Char :=
  if !key.isEmpty && key.toList.all isBare then key.toList else printString key

/-! ## Values -/

mutual

/-- A value on the line of its key. -/
def printValue : Datum → List Char
  | .null => printString ""
  | .boolean value => (if value then "true" else "false").toList
  | .integer value => value.repr.toList
  | .float value => (Number.positionalText value).toList
  | .text value => printString value
  | .list items => ['['] ++ [',', ' '].intercalate (printItems items) ++ [']']
  | .record [] => ['\x7b', '\x7d']
  | .record entries => ['\x7b', ' '] ++ [',', ' '].intercalate (printPairs entries) ++ [' ', '\x7d']

/-- The elements of a list. -/
def printItems : List Datum → List (List Char)
  | [] => []
  | item :: items => printValue item :: printItems items

/-- The pairs of an inline table. -/
def printPairs : List (String × Datum) → List (List Char)
  | [] => []
  | (key, value) :: entries =>
    (printKey key ++ [' ', '=', ' '] ++ printValue value) :: printPairs entries

end

/-! ## Sections -/

/-- Whether a datum is a record. -/
def isRecord : Datum → Bool
  | .record _ => true
  | _ => false

/-- Whether a datum stands under headers of its own. -/
def hasHeader : Datum → Bool
  | .record _ => true
  | .list items => !items.isEmpty && items.all isRecord
  | _ => false

/-- The line of a header, with as many brackets as given. -/
def headerLine (brackets : Nat) (path : List String) : List Char :=
  List.replicate brackets '[' ++ ['.'].intercalate (path.map printKey) ++
    List.replicate brackets ']' ++ ['\n']

/-- The lines of the entries of a record that stand under no header of their
own. -/
def directLines (entries : List (String × Datum)) : List Char :=
  (entries.filter fun entry => !hasHeader entry.2).flatMap fun (key, value) =>
    printKey key ++ [' ', '=', ' '] ++ printValue value ++ ['\n']

mutual

/-- The sections of a value under a key, behind the path of the record that holds
it.  A record without direct lines needs no header if it has sections. -/
def sections (path : List String) : Datum → List (List Char)
  | .record entries =>
    let lines := directLines entries
    let inner := entrySections path entries
    if lines.isEmpty && !inner.isEmpty then inner else (headerLine 1 path ++ lines) :: inner
  | .list items => elementSections path items
  | _ => []

/-- The sections of the elements of a list of records. -/
def elementSections (path : List String) : List Datum → List (List Char)
  | [] => []
  | .record entries :: items =>
    (headerLine 2 path ++ directLines entries) :: entrySections path entries ++
      elementSections path items
  | _ :: items => elementSections path items

/-- The sections of the entries of a record. -/
def entrySections (path : List String) : List (String × Datum) → List (List Char)
  | [] => []
  | (key, value) :: entries =>
    (if hasHeader value then sections (path ++ [key]) value else []) ++ entrySections path entries

end

/-- A document with the entries given. -/
def print (entries : List (String × Datum)) : String :=
  let lines := directLines entries
  let inner := entrySections [] entries
  String.ofList (['\n'].intercalate (if lines.isEmpty then inner else lines :: inner))

end Toml
end EntitySdl

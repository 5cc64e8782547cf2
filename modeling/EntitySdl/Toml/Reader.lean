import EntitySdl.Toml.Number
import EntitySdl.Toml.Table
import EntitySdl.Datum.Malformed

/-! # Reading TOML

A document is a sequence of lines: headers of tables, pairs of a key and a value,
comments, and nothing.  Lists may run over several lines, inline tables may not.
-/
namespace EntitySdl
namespace Toml

open Text

/-- The end of a line, after the blanks and the comment before it. -/
def readLineEnd (cs : List Char) : Option (List Char) :=
  match skipSpace cs with
  | [] => some []
  | '#' :: cs => lineBreak (cs.dropWhile isPlain)
  | cs => lineBreak cs
where
  /-- A line break, or the end of the text. -/
  lineBreak : List Char → Option (List Char)
    | [] => some []
    | cs => dropLineBreak? cs

/-- A text without the blanks, line breaks and comments that it begins with; the
flag tells whether it begins inside a comment. -/
def skipLayout : Bool → List Char → List Char
  | _, [] => []
  | true, '\n' :: cs => skipLayout false cs
  | true, '\r' :: '\n' :: cs => skipLayout false cs
  | true, c :: cs => if isPlain c then skipLayout true cs else c :: cs
  | false, '\n' :: cs => skipLayout false cs
  | false, '\r' :: '\n' :: cs => skipLayout false cs
  | false, '#' :: cs => skipLayout true cs
  | false, c :: cs => if isSpace c then skipLayout false cs else c :: cs

/-- The elements of a list up to its closing bracket, after which further ones
are appended.  The fuel is the length of the text. -/
def readElements (element : Reader Datum) : Nat → List Datum → Reader (List Datum)
  | 0, _, _ => none
  | fuel + 1, before, cs =>
    match skipLayout false cs with
    | ']' :: cs => some (before, cs)
    | cs => do
      let (datum, cs) ← element cs
      match skipLayout false cs with
      | ']' :: cs => return (before ++ [datum], cs)
      | ',' :: cs => readElements element fuel (before ++ [datum]) cs
      | _ => none

/-- A key with its value, in a table. -/
def readPair (value : Reader Datum) : Reader (List String × Datum) := fun cs => do
  let (path, cs) ← readKey cs
  let (datum, cs) ← value (skipSpace (← expect '=' cs))
  return ((path, datum), cs)

/-- The pairs of an inline table up to its closing brace, taken into a table.
The fuel is the length of the text. -/
def readPairs (value : Reader Datum) : Nat → Table → Reader Table
  | 0, _, _ => none
  | fuel + 1, table, cs => do
    let ((path, datum), cs) ← readPair value cs
    let table ← addPair path datum table
    match skipSpace cs with
    | '\x7d' :: cs => return (table, cs)
    | ',' :: cs => readPairs value fuel table cs
    | _ => none

/-- A fixed word, after its first letter. -/
def readWord (value : Datum) (word : List Char) : Reader Datum := fun cs =>
  (dropStart? word cs).map (value, ·)

/-- A value, with lists and inline tables nested up to a depth. -/
def readValue : Nat → Reader Datum
  | depth, cs =>
    match depth, cs with
    | _, '"' :: _ | _, '\'' :: _ => (readString cs).map fun (text, cs) => (.text text, cs)
    | depth + 1, '[' :: cs => do
      let (items, cs) ← readElements (readValue depth) (cs.length + 1) [] cs
      return (.list items, cs)
    | depth + 1, '\x7b' :: cs =>
      match skipSpace cs with
      | '\x7d' :: cs => some (.record [], cs)
      | cs => do
        let (table, cs) ← readPairs (readValue depth) (cs.length + 1) {} cs
        return (table.toDatum, cs)
    | _, 't' :: cs => readWord (.boolean true) ['r', 'u', 'e'] cs
    | _, 'f' :: cs => readWord (.boolean false) ['a', 'l', 's', 'e'] cs
    | _, cs => readNumber cs

/-- One line that begins with a header or a pair, taken into a draft. -/
def readLine (draft : Draft) : Reader Draft
  | '[' :: '[' :: cs => do
    let (path, cs) ← readKey cs
    let cs ← expect ']' (← expect ']' cs)
    return (← draft.element path, ← readLineEnd cs)
  | '[' :: cs => do
    let (path, cs) ← readKey cs
    let cs ← expect ']' cs
    return (← draft.header path, ← readLineEnd cs)
  | cs => do
    let ((path, datum), cs) ← readPair (readValue maxDepth) cs
    return (← draft.pair path datum, ← readLineEnd cs)

/-- The lines of a document, taken into a draft.  The fuel is the length of the
text. -/
def readDraft : Nat → Draft → List Char → Option Draft
  | 0, _, _ => none
  | fuel + 1, draft, cs =>
    match skipSpace cs with
    | [] => some draft
    | '#' :: cs => do readDraft fuel draft (← readLineEnd ('#' :: cs))
    | cs => match dropLineBreak? cs with
      | some cs => readDraft fuel draft cs
      | none => do
        let (draft, cs) ← readLine draft cs
        readDraft fuel draft cs

/-- The entries of a document.  A byte order mark at its start does not count. -/
def parse (text : String) : Except Malformed (List (String × Datum)) :=
  let cs := match text.toList with
    | '\uFEFF' :: cs => cs
    | cs => cs
  match (readDraft (cs.length + 1) {} cs).bind Draft.finish with
  | some table => .ok (entriesToData table.entries)
  | none => .error .ungrammatical

end Toml
end EntitySdl

import EntitySdl.Sdl.Document
import EntitySdl.Sdl.Position

/-! # Reports of documents that are refused

The report of a text that does not match the grammar shows the line of the
furthest failure with a mark below the place, and names the rules that were
expected or unexpected there.
-/
namespace EntitySdl
namespace Sdl

/-- The names of rules in a sentence. -/
def enumerate : List String → String
  | [] => ""
  | [a] => a
  | [a, b] => a ++ " or " ++ b
  | names => ", ".intercalate names.dropLast ++ ", or " ++ names.getLast?.getD ""

namespace Attempts

/-- The rules of a list in the order of the grammar, each once. -/
def titles (rules : List Rule) : List String :=
  (Rule.all.filter rules.contains).map Rule.title

/-- What was expected and what was not. -/
def explanation (attempts : Attempts Rule) : String :=
  match attempts.unexpected, attempts.expected with
  | [], [] => "unknown parsing error"
  | [], expected => "expected " ++ enumerate (titles expected)
  | unexpected, [] => "unexpected " ++ enumerate (titles unexpected)
  | unexpected, expected =>
    "unexpected " ++ enumerate (titles unexpected) ++
      "; expected " ++ enumerate (titles expected)

end Attempts

/-- The characters of the line that holds a place, with the line feed at its
end. -/
def lineAround (source : List Char) (offset : Nat) : List Char :=
  let before := ((source.take offset).reverse.takeWhile (· != '\n')).reverse
  let after := source.drop offset
  let rest := after.takeWhile (· != '\n')
  before ++ rest ++ (after.drop rest.length).take 1

/-- A line as a report shows it: line ends are pictured if the failure is at one
of them, and left out otherwise. -/
def shownLine (source : List Char) (offset : Nat) : List Char :=
  let line := lineAround source offset
  if (source.drop offset).head?.any isLineEnd then
    line.map fun c => if c = '\r' then '␍' else if c = '\n' then '␊' else c
  else line.filter (!isLineEnd ·)

/-- The report of a failure. -/
def syntaxReport (source : List Char) (attempts : Attempts Rule) : String :=
  let position := Position.reported (source.take attempts.offset) {}
  let line := shownLine source attempts.offset
  let number := position.line.repr
  let margin := String.ofList (List.replicate number.length ' ')
  let indent := (line.take (position.column - 1)).map fun c => if c = '\t' then '\t' else ' '
  margin ++ "--> " ++ number ++ ":" ++ position.column.repr ++ "\n" ++
    margin ++ " |\n" ++
    number ++ " | " ++ String.ofList line ++ "\n" ++
    margin ++ " | " ++ String.ofList indent ++ "^---\n" ++
    margin ++ " |\n" ++
    margin ++ " = " ++ attempts.explanation

/-- The report of a document that is refused. -/
def DocumentFault.report (source : List Char) : DocumentFault → String
  | ungrammatical attempts => syntaxReport source attempts
  | numberOutOfRange => "syntax error"
  | missingQueryRoot => "schema definition is missing query root"
  | multipleRoots operation => "multiple " ++ operation ++ " roots in schema definition"

end Sdl
end EntitySdl

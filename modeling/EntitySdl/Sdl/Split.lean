import EntitySdl.Sdl.Fragment
import EntitySdl.Sdl.Report
import EntitySdl.Fault

/-! # Splitting a document into a fragment

Each definition of a document keeps its text, from its start to the start of the
next one, without the comments in between.  Of the root types only the lines of
their bodies are kept.

Places are counted in characters, but the end of a root type is its start and the bytes
of its text.  It can lie inside a character, if the text does not begin at the start:
then no fragment is made at all.
-/
namespace EntitySdl
namespace Sdl

/-- Whether a line is a comment. -/
def isCommentLine (line : List Char) : Bool := (Text.trimStart line).head? == some '#'

/-- Whether a line is blank. -/
def isBlankLine (line : List Char) : Bool := (Text.trim line).isEmpty

/-- Whether a text has no lines but comments and blank ones. -/
def isCommentOnly (source : List Char) : Bool :=
  (Text.lines source).all fun line => isBlankLine line || isCommentLine line

/-- Lines, the last one first, without the comments and the blank lines at their
end.  The first line stays. -/
def dropComments : List (List Char) → List (List Char)
  | last :: line :: lines =>
    if isCommentLine last || isBlankLine last then dropComments (line :: lines)
    else last :: line :: lines
  | lines => lines

/-- The text of a definition without the blanks around it and the comments
behind it. -/
def trimDefinition (text : List Char) : List Char :=
  let lines := (Text.splitAt (· == '\n') (Text.trim text)).reverse
  Text.trimEnd (['\n'].intercalate (dropComments lines).reverse)

/-- A definition in its text. -/
structure PlacedDefinition where
  /-- The number of characters before it. -/
  start : Nat
  /-- The root type that it contributes to, if any. -/
  root : Option RootKind
  /-- The number of characters before each of its fields, if it is a root type. -/
  fieldStarts : List Nat
  deriving DecidableEq

/-- The place in the text of a node at an offset, by its line and column. -/
def placeOf (source : List Char) (start : Nat) : Nat :=
  (Position.after source start).offset source

/-- A definition with its places. -/
def place (source : List Char) (definition : Tree Rule) : PlacedDefinition where
  start := placeOf source definition.start
  root := rootKind? definition
  fieldStarts := match rootKind? definition with
    | some _ => (fieldStarts definition).map (placeOf source)
    | none => []

/-- The characters of a text from one place to another. -/
def slice (source : List Char) (start finish : Nat) : List Char :=
  (source.drop start).take (finish - start)

/-- The number of bytes that a text takes up. -/
def byteLength : List Char → Nat
  | [] => 0
  | c :: cs => c.utf8Size + byteLength cs

/-- The number of characters at the start of a text that fit into so many bytes. -/
def fitting : Nat → List Char → Nat
  | _, [] => 0
  | bytes, c :: cs => if c.utf8Size ≤ bytes then fitting (bytes - c.utf8Size) cs + 1 else 0

/-- The number of characters before the end of a definition of which the start and the
whole text are given.  The end is as many bytes behind the start as the text takes up, also
if the text does not begin at the start. -/
def textEnd (source : List Char) (start : Nat) (text : List Char) : Nat :=
  start + fitting (byteLength text) (source.drop start)

/-- Whether a root type has a body that ends inside a character. -/
def isTorn (source : List Char) (definition : PlacedDefinition) (text : List Char) : Bool :=
  let finish := textEnd source definition.start text
  definition.fieldStarts.min?.any (· ≤ finish) &&
    byteLength (slice source definition.start finish) != byteLength text

/-- The lines of a root type of which the whole text is given: from its first
field up to the closing brace, trimmed, and without blank ones. -/
def bodyLines (source : List Char) (definition : PlacedDefinition) (text : List Char) :
    List String :=
  match definition.fieldStarts.min? with
  | none => []
  | some first =>
    let body := slice source first (textEnd source definition.start text)
    let body :=
      if body.contains '\x7d' then
        ((body.reverse.dropWhile (· != '\x7d')).drop 1).reverse
      else body
    (((Text.lines body).map Text.trim).filter (!·.isEmpty)).map String.ofList

/-- A fragment with one more definition, of which the text is given. -/
def Fragment.addDefinition (source : List Char) (fragment : Fragment)
    (definition : PlacedDefinition) (text : List Char) : Fragment :=
  match definition.root with
  | none => { fragment with definitions := fragment.definitions ++ [String.ofList text] }
  | some .query =>
    { fragment with
      queryFields := fragment.queryFields ++ bodyLines source definition text }
  | some .mutation =>
    { fragment with
      mutationFields := fragment.mutationFields ++ bodyLines source definition text }

/-- The place where the next of some definitions starts, or the end of the text. -/
def nextStart (source : List Char) : List PlacedDefinition → Nat
  | next :: _ => next.start
  | [] => source.length

/-- The fragment of definitions in the order of their places. -/
def Fragment.ofPlaced (source : List Char) : List PlacedDefinition → Fragment → Fragment
  | [], fragment => fragment
  | definition :: rest, fragment =>
    let text := trimDefinition (slice source definition.start (nextStart source rest))
    Fragment.ofPlaced source rest (fragment.addDefinition source definition text)

/-- Whether one of the definitions in the order of their places is torn. -/
def anyTorn (source : List Char) : List PlacedDefinition → Bool
  | [] => false
  | definition :: rest =>
    isTorn source definition
        (trimDefinition (slice source definition.start (nextStart source rest))) ||
      anyTorn source rest

/-- The fragment of a document that stands under a name. -/
def Fragment.parse (name source : String) : Except Fault Fragment :=
  let chars := source.toList
  if isCommentOnly chars then .ok { name := name }
  else match parseDocument chars with
    | .error fault => .error (.invalidFormat (name ++ ": " ++ fault.report chars))
    | .ok definitions =>
      let placed := (definitions.map (place chars)).mergeSort fun a b => a.start ≤ b.start
      if anyTorn chars placed then .error (.tornText name)
      else .ok (Fragment.ofPlaced chars placed { name := name })

end Sdl
end EntitySdl

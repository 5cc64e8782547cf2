import EntitySdl.Text.CharSet
import EntitySdl.Text.Blank

/-! # TOML strings and keys

A string is basic, with escapes, or literal, without; either may run over
several lines between triple quotes.  Readers take a value off the front of a
text and fail if it has none.
-/
namespace EntitySdl
namespace Toml

open Text

/-- A reader of values of one type. -/
abbrev Reader (α : Type) := List Char → Option (α × List Char)

/-- A blank inside a line. -/
def isSpace (c : Char) : Bool := c == ' ' || c == '\t'

/-- A text without the blanks it begins with. -/
def skipSpace (cs : List Char) : List Char := cs.dropWhile isSpace

/-- A character that may stand in a comment: no control character but the
tab. -/
def isPlain (c : Char) : Bool := c == '\t' || (0x20 ≤ c.toNat && c.toNat != 0x7F)

/-- What follows a line break, if the text begins with one. -/
def dropLineBreak? : List Char → Option (List Char)
  | '\n' :: cs => some cs
  | '\r' :: '\n' :: cs => some cs
  | _ => none

/-- A number of hexadecimal digits that denote a character. -/
def readCode (count : Nat) : Reader Char := fun cs =>
  let digits := cs.take count
  let code := digitsValue 16 digits
  if digits.length = count && digits.all isAsciiHexDigit && decide (code.isValidChar) then
    some (Char.ofNat code, cs.drop count)
  else none

/-- An escape, after its backslash. -/
def readEscape : Reader Char
  | 'b' :: cs => some ('\x08', cs)
  | 't' :: cs => some ('\t', cs)
  | 'n' :: cs => some ('\n', cs)
  | 'f' :: cs => some ('\x0C', cs)
  | 'r' :: cs => some ('\r', cs)
  | '"' :: cs => some ('"', cs)
  | '\\' :: cs => some ('\\', cs)
  | 'u' :: cs => readCode 4 cs
  | 'U' :: cs => readCode 8 cs
  | _ => none

/-- The characters of a basic string up to its closing quote.  The fuel is the
length of the text. -/
def readBasicFrom : Nat → Reader (List Char)
  | 0, _ => none
  | _ + 1, [] => none
  | _ + 1, '"' :: cs => some ([], cs)
  | fuel + 1, '\\' :: cs => do
    let (c, cs) ← readEscape cs
    let (rest, cs) ← readBasicFrom fuel cs
    return (c :: rest, cs)
  | fuel + 1, c :: cs =>
    if isPlain c then do
      let (rest, cs) ← readBasicFrom fuel cs
      return (c :: rest, cs)
    else none

/-- The characters of a literal string up to its closing quote. -/
def readLiteral : Reader (List Char)
  | [] => none
  | '\'' :: cs => some ([], cs)
  | c :: cs =>
    if isPlain c then do
      let (rest, cs) ← readLiteral cs
      return (c :: rest, cs)
    else none

/-- What follows a backslash at the end of a line: the line break, and all
blanks and line breaks behind it. -/
def dropContinuation? (cs : List Char) : Option (List Char) :=
  (dropLineBreak? (skipSpace cs)).map skipLines
where
  /-- A text without the blanks and line breaks it begins with. -/
  skipLines : List Char → List Char
    | '\n' :: cs => skipLines cs
    | '\r' :: '\n' :: cs => skipLines cs
    | c :: cs => if isSpace c then skipLines cs else c :: cs
    | [] => []

/-- The characters of a string between triple quotes, up to the closing ones.
Up to two quotes may stand by themselves, also right before the closing ones.
In a basic string backslashes begin escapes.  The fuel is the length of the
text. -/
def readLinesFrom (quote : Char) (escapes : Bool) : Nat → Reader (List Char)
  | 0, _ => none
  | _ + 1, [] => none
  | fuel + 1, c :: cs =>
    if c = quote then
      let quotes := (c :: cs).takeWhile (· == quote)
      let rest := (c :: cs).dropWhile (· == quote)
      if quotes.length < 3 then do
        let (more, rest) ← readLinesFrom quote escapes fuel rest
        return (quotes ++ more, rest)
      else if quotes.length ≤ 5 then some (quotes.drop 3, rest)
      else none
    else if c = '\\' && escapes then
      match dropContinuation? cs with
      | some cs => readLinesFrom quote escapes fuel cs
      | none => do
        let (c, cs) ← readEscape cs
        let (rest, cs) ← readLinesFrom quote escapes fuel cs
        return (c :: rest, cs)
    else match dropLineBreak? (c :: cs) with
      | some cs => do
        let (rest, cs) ← readLinesFrom quote escapes fuel cs
        return ('\n' :: rest, cs)
      | none =>
        if isPlain c then do
          let (rest, cs) ← readLinesFrom quote escapes fuel cs
          return (c :: rest, cs)
        else none

/-- A string between triple quotes, after the opening ones.  A line break right
behind these does not count. -/
def readLines (quote : Char) (escapes : Bool) : Reader (List Char) := fun cs =>
  let cs := (dropLineBreak? cs).getD cs
  readLinesFrom quote escapes (cs.length + 1) cs

/-- A string of any kind. -/
def readString : Reader String := fun cs => do
  let (text, cs) ← match cs with
    | '"' :: '"' :: '"' :: cs => readLines '"' true cs
    | '\'' :: '\'' :: '\'' :: cs => readLines '\'' false cs
    | '"' :: cs => readBasicFrom (cs.length + 1) cs
    | '\'' :: cs => readLiteral cs
    | _ => none
  return (String.ofList text, cs)

/-- Whether a key may hold a character without quotes. -/
def isBare (c : Char) : Bool := isAsciiLetter c || isAsciiDigit c || c == '-' || c == '_'

/-- A key without dots. -/
def readSimpleKey : Reader String
  | '"' :: cs => do
    let (text, cs) ← readBasicFrom (cs.length + 1) cs
    return (String.ofList text, cs)
  | '\'' :: cs => do
    let (text, cs) ← readLiteral cs
    return (String.ofList text, cs)
  | cs =>
    let bare := cs.takeWhile isBare
    if bare.isEmpty then none else some (String.ofList bare, cs.dropWhile isBare)

/-- How many parts a key may have, and how deep lists and inline tables may be
nested. -/
def maxDepth : Nat := 79

/-- A key with dots between its parts and blanks around them.  The fuel bounds
the number of parts. -/
def readKeyFrom : Nat → Reader (List String)
  | 0, _ => none
  | fuel + 1, cs => do
    let (first, cs) ← readSimpleKey (skipSpace cs)
    match skipSpace cs with
    | '.' :: cs =>
      let (rest, cs) ← readKeyFrom fuel cs
      return (first :: rest, cs)
    | cs => return ([first], cs)

/-- A key. -/
def readKey : Reader (List String) := readKeyFrom maxDepth

end Toml
end EntitySdl

import EntitySdl.Json.Number

/-! # Reading JSON

The reader works on what is left of the text.  A text that stops before the
document is complete is told apart from one that is no JSON.  Lists and records
may be nested 127 deep.
-/
namespace EntitySdl
namespace Json

open Text

/-- What stands between the tokens. -/
def isSpace (c : Char) : Bool := c == ' ' || c == '\n' || c == '\t' || c == '\r'

/-- A text without the white space it begins with. -/
def skipSpace (cs : List Char) : List Char := cs.dropWhile isSpace

/-- The rest of a word, after its first letter. -/
def readWord {α : Type} (value : α) : List Char → Reader α
  | [], cs => .ok (value, cs)
  | _ :: _, [] => .error .ended
  | k :: ks, c :: cs => if k = c then readWord value ks cs else .error .ungrammatical

/-- Four hexadecimal digits.  A text of less than four bytes is one that ends
too early. -/
def readHex : Reader Nat
  | a :: b :: c :: d :: cs =>
    if [a, b, c, d].all isAsciiHexDigit then .ok (digitsValue 16 [a, b, c, d], cs)
    else .error .ungrammatical
  | cs =>
    if (String.ofList cs).utf8ByteSize < 4 then .error .ended else .error .ungrammatical

/-- The lower half of a character that is written as two escapes. -/
def readLowHalf (high : Nat) : Reader Char
  | [] => .error .ended
  | '\\' :: [] => .error .ended
  | '\\' :: 'u' :: cs => do
    let (low, cs) ← readHex cs
    if 0xDC00 ≤ low ∧ low ≤ 0xDFFF then
      return (Char.ofNat (0x10000 + (high - 0xD800) * 0x400 + (low - 0xDC00)), cs)
    else throw .ungrammatical
  | _ => .error .ungrammatical

/-- An escape, after its backslash. -/
def readEscape : Reader Char
  | [] => .error .ended
  | '"' :: cs => .ok ('"', cs)
  | '\\' :: cs => .ok ('\\', cs)
  | '/' :: cs => .ok ('/', cs)
  | 'b' :: cs => .ok ('\x08', cs)
  | 'f' :: cs => .ok ('\x0C', cs)
  | 'n' :: cs => .ok ('\n', cs)
  | 'r' :: cs => .ok ('\r', cs)
  | 't' :: cs => .ok ('\t', cs)
  | 'u' :: cs => do
    let (code, cs) ← readHex cs
    if 0xDC00 ≤ code ∧ code ≤ 0xDFFF then throw .ungrammatical
    else if 0xD800 ≤ code ∧ code ≤ 0xDBFF then readLowHalf code cs
    else return (Char.ofNat code, cs)
  | _ => .error .ungrammatical

/-- The characters of a string up to its closing quote.  The fuel is the length
of the text. -/
def readStringFrom : Nat → Reader (List Char)
  | 0, _ => .error .ended
  | _ + 1, [] => .error .ended
  | fuel + 1, c :: cs =>
    if c = '"' then .ok ([], cs)
    else if c = '\\' then do
      let (c, cs) ← readEscape cs
      let (rest, cs) ← readStringFrom fuel cs
      return (c :: rest, cs)
    else if c.toNat < 0x20 then .error .ungrammatical
    else do
      let (rest, cs) ← readStringFrom fuel cs
      return (c :: rest, cs)

/-- A string, after its opening quote. -/
def readString : Reader String := fun cs => do
  let (text, cs) ← readStringFrom cs.length cs
  return (String.ofList text, cs)

/-- The members of a list or a record up to its closing bracket, taken into an
accumulator one by one.  The fuel is the length of the text. -/
def readMembersFrom {σ : Type} (close : Char) (member : σ → Reader σ) :
    Nat → Bool → σ → Reader σ
  | 0, _, _, _ => .error .ended
  | fuel + 1, first, acc, cs =>
    match skipSpace cs with
    | [] => .error .ended
    | c :: rest =>
      if c = close then .ok (acc, rest)
      else if first then do
        let (acc, rest) ← member acc (c :: rest)
        readMembersFrom close member fuel false acc rest
      else if c = ',' then
        match skipSpace rest with
        | [] => .error .ended
        | d :: rest =>
          if d = close then .error .ungrammatical
          else do
            let (acc, rest) ← member acc (d :: rest)
            readMembersFrom close member fuel false acc rest
      else .error .ungrammatical

/-- The members of a list or a record, after its opening bracket. -/
def readMembers {σ : Type} (close : Char) (member : σ → Reader σ) (initial : σ) : Reader σ :=
  fun cs => readMembersFrom close member (cs.length + 1) true initial cs

/-- The key of an entry. -/
def readKey : Reader String
  | '"' :: cs => readString cs
  | _ => .error .ungrammatical

/-- The colon behind the key of an entry, up to where the value begins. -/
def readColon : Reader Unit := fun cs =>
  match skipSpace cs with
  | [] => .error .ended
  | ':' :: cs => .ok ((), skipSpace cs)
  | _ => .error .ungrammatical

/-- A value that is no list and no record. -/
def readScalar : Reader Datum
  | [] => .error .ended
  | 'n' :: cs => readWord .null ['u', 'l', 'l'] cs
  | 't' :: cs => readWord (.boolean true) ['r', 'u', 'e'] cs
  | 'f' :: cs => readWord (.boolean false) ['a', 'l', 's', 'e'] cs
  | '"' :: cs => do
    let (text, cs) ← readString cs
    return (.text text, cs)
  | '-' :: cs => readNumber true cs
  | c :: cs => if isAsciiDigit c then readNumber false (c :: cs) else .error .ungrammatical

/-- A value, with lists and records nested up to a depth. -/
def readValue : Nat → Reader Datum
  | depth, cs =>
    match depth, skipSpace cs with
    | depth + 1, '[' :: cs => do
      let (items, cs) ← readMembers ']'
        (fun items cs => do
          let (item, cs) ← readValue depth cs
          return (items ++ [item], cs)) [] cs
      return (.list items, cs)
    | depth + 1, '\x7b' :: cs => do
      let (entries, cs) ← readMembers '\x7d'
        (fun entries cs => do
          let (key, cs) ← readKey cs
          let ((), cs) ← readColon cs
          let (value, cs) ← readValue depth cs
          return (entries ++ [(key, value)], cs)) [] cs
      return (.record entries, cs)
    | _, cs => readScalar cs

/-- How deep lists and records may be nested. -/
def maxDepth : Nat := 127

/-- The end of a document: nothing but white space may follow. -/
def readEnd {α : Type} (value : α) (cs : List Char) : Except Malformed α :=
  if (skipSpace cs).isEmpty then .ok value else .error .ungrammatical

/-- A document of one value. -/
def parse (text : String) : Except Malformed Datum := do
  let (value, rest) ← readValue maxDepth text.toList
  readEnd value rest

end Json
end EntitySdl

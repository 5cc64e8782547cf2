import EntitySdl.Text.Letters
import EntitySdl.Text.CaseMap
import EntitySdl.Text.Blank

/-! # Camel case and Pascal case

A name falls into words at the characters that are neither letters nor digits
and at changes of case: before a capital that follows a small letter, and before
the last capital of a row of capitals when a small letter follows it.
-/
namespace EntitySdl
namespace Name

open Text

/-- The case that the characters of a word have shown so far. -/
inductive CaseMode where
  /-- No cased character since the word began. -/
  | boundary
  /-- The last cased character was small. -/
  | lowercase
  /-- The last cased character was a capital. -/
  | uppercase
  deriving DecidableEq

/-- The mode after a further character. -/
def CaseMode.after (mode : CaseMode) (c : Char) : CaseMode :=
  if isLowercase c then .lowercase else if isUppercase c then .uppercase else mode

/-- The words of a piece of letters and digits.  The word under way is given
reversed, with the mode that its characters have left. -/
def wordsOfPiece (mode : CaseMode) (word : List Char) : List Char → List (List Char)
  | [] => []
  | [c] => [(c :: word).reverse]
  | c :: d :: cs =>
    if mode.after c = .lowercase ∧ isUppercase d then
      (c :: word).reverse :: wordsOfPiece .boundary [] (d :: cs)
    else if mode = .uppercase ∧ isUppercase c ∧ isLowercase d then
      word.reverse :: wordsOfPiece .boundary [c] (d :: cs)
    else wordsOfPiece (mode.after c) (c :: word) (d :: cs)

/-- The words of a name. -/
def wordsOf (name : List Char) : List (List Char) :=
  (splitAt (!isAlphanumeric ·) name).flatMap (wordsOfPiece .boundary [])

/-- A word in small letters; a capital sigma at its end becomes the final one. -/
def lowerWord : List Char → List Char
  | [] => []
  | [c] => if c = capitalSigma then [finalSigma] else lower c
  | c :: d :: cs => lower c ++ lowerWord (d :: cs)

/-- A word with a capital at its start and small letters after it. -/
def capitalize : List Char → List Char
  | [] => []
  | c :: cs => upper c ++ lowerWord cs

/-- A name with all its words capitalized. -/
def pascal (name : String) : String :=
  String.ofList ((wordsOf name.toList).flatMap capitalize)

/-- A name with its first word in small letters and the others capitalized. -/
def camel (name : String) : String :=
  String.ofList (match wordsOf name.toList with
    | [] => []
    | word :: words => lowerWord word ++ words.flatMap capitalize)

end Name
end EntitySdl

import EntitySdl.Name.InflectionRules
import EntitySdl.Text.CaseMap
import EntitySdl.Text.Letters
import EntitySdl.Text.Blank

/-! # Plural and singular

A word is inflected by the first of these that applies: it already has the
wanted form as an irregular word; it is an irregular word of the other number;
it has no plural; a rule finds its pattern in it.  The result takes over the
case of the word where the word is written in one case throughout.
-/
namespace EntitySdl
namespace Name

open Text

/-- A text in the case of a word: changed to small letters or to capitals if the
word is written so throughout, kept if the word is that text or only begins with
a capital, and in small letters otherwise. -/
def restoreCase (word text : String) : String :=
  if word = text then text
  else if word = lowerText word then lowerText text
  else if word = upperText word then upperText text
  else if word.toList.head?.any isUppercase then text
  else lowerText text

/-- Every occurrence of a text, from left to right, replaced by another, once
the given number of characters is passed over.  The empty text does not occur. -/
def replaceAfter (old new : List Char) : Nat → List Char → List Char
  | _, [] => []
  | skipped + 1, _ :: cs => replaceAfter old new skipped cs
  | 0, c :: cs =>
    if !old.isEmpty && old.isPrefixOf (c :: cs) then
      new ++ replaceAfter old new (old.length - 1) cs
    else c :: replaceAfter old new 0 cs

/-- Every occurrence of a text, from left to right, replaced by another. -/
def replaceAll (old new text : List Char) : List Char := replaceAfter old new 0 text

/-- A text without the references to groups that took no part: each dollar sign
goes, together with the character behind it unless that is a line feed. -/
def dropReferences : List Char → List Char
  | '$' :: c :: cs =>
    if c = '\n' then '$' :: c :: dropReferences cs else dropReferences cs
  | c :: cs => c :: dropReferences cs
  | [] => []

/-- The text that takes the place of a match. -/
def Rule.replacementFor (rule : Rule) (word : String) (m : Pattern.Match) : List Char :=
  let fill := fun (out : List Char × Nat) (group : List Char) =>
    let reference := '$' :: Nat.toDigits 10 out.2
    (replaceAll reference (restoreCase word (String.ofList group)).toList out.1, out.2 + 1)
  ((m.text :: m.groups).foldl fill ((restoreCase word rule.replacement).toList, 0)).1

/-- The word after a rule, if its pattern is found. -/
def Rule.inflect? (rule : Rule) (word : String) : Option String :=
  (rule.pattern.find? word.toList).map fun m =>
    String.ofList (dropReferences (m.before ++ rule.replacementFor word m ++ m.after))

/-- The last entry of a list of pairs under a key. -/
def lastUnder (pairs : List (String × String)) (key : String) : Option String :=
  (pairs.reverse.find? (·.1 == key)).map (·.2)

/-- A word inflected by the irregular pairs from the other number to the wanted
one, and by the rules for the wanted one. -/
def inflect (pairs : List (String × String)) (rules : List Rule) (word : String) : String :=
  let token := lowerText word
  if (lastUnder (pairs.map Prod.swap) token).isSome then restoreCase word token
  else match lastUnder pairs token with
    | some replacement => restoreCase word replacement
    | none =>
      if token.isEmpty ∨ uncountableWords.contains token then word
      else ((rules ++ uncountableRules).reverse.findSome? (·.inflect? word)).getD word

/-- The English plural of a word. -/
def plural (word : String) : String := inflect irregularPairs pluralRules word

/-- The English singular of a word. -/
def singular (word : String) : String :=
  inflect (irregularPairs.map Prod.swap) singularRules word

end Name
end EntitySdl

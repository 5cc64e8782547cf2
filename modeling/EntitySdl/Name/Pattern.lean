import EntitySdl.Text.WordCharacter

/-! # Patterns of letters

The rules of inflection recognise the end of a word by a pattern.  A pattern is
matched without regard to case; of several ways to match, the one that takes
the earliest choices counts.
-/
namespace EntitySdl
namespace Name

open Text

/-- The representative of a character among those that differ from it in case
alone.  Beside the ASCII letters this concerns the long s, the kelvin sign and
the accented e. -/
def fold (c : Char) : Char :=
  if c = 'ſ' then 's'
  else if c.toNat = 0x212A then 'k'
  else if c = 'É' then 'é'
  else c.toLower

/-- A pattern over texts. -/
inductive Pattern where
  /-- The empty text. -/
  | empty
  /-- One character, given by its representative. -/
  | letter (c : Char)
  /-- One character whose representative passes a test. -/
  | letterWhere (accepts : Char → Bool)
  /-- The start of the text. -/
  | start
  /-- The end of the text. -/
  | finish
  /-- A place between a word character and something else. -/
  | wordEdge
  /-- One pattern after another. -/
  | seq (first second : Pattern)
  /-- The first pattern or else the second. -/
  | either (first second : Pattern)
  /-- A pattern whose matched text is kept. -/
  | group (inner : Pattern)

/-- A place in a text during a match. -/
structure Place where
  /-- The characters before it, the nearest first. -/
  before : List Char
  /-- The characters after it. -/
  after : List Char
  /-- The texts of the groups passed on the way, the latest first. -/
  groups : List (List Char) := []

namespace Place

/-- The place behind the next character, if that passes a test. -/
def step? (place : Place) (accepts : Char → Bool) : List Place :=
  match place.after with
  | [] => []
  | c :: cs => if accepts c then [⟨c :: place.before, cs, place.groups⟩] else []

/-- Whether word characters stand on exactly one side. -/
def atWordEdge (place : Place) : Bool :=
  (place.before.head?.any isWordCharacter) != (place.after.head?.any isWordCharacter)

/-- The text between an earlier place and this one. -/
def textSince (place earlier : Place) : List Char :=
  earlier.after.take (earlier.after.length - place.after.length)

end Place

namespace Pattern

/-- All places that a match from a place can reach, in order of preference. -/
def reach : Pattern → Place → List Place
  | .empty, place => [place]
  | .letter l, place => place.step? (fold · == l)
  | .letterWhere accepts, place => place.step? fun c => accepts (fold c)
  | .start, place => if place.before.isEmpty then [place] else []
  | .finish, place => if place.after.isEmpty then [place] else []
  | .wordEdge, place => if place.atWordEdge then [place] else []
  | .seq p q, place => (p.reach place).flatMap q.reach
  | .either p q, place => p.reach place ++ q.reach place
  | .group p, place =>
    (p.reach place).map fun last => { last with groups := last.textSince place :: last.groups }

/-- A match found in a text. -/
structure Match where
  /-- What stands before it. -/
  before : List Char
  /-- The matched text. -/
  text : List Char
  /-- The texts of the groups that took part, in order. -/
  groups : List (List Char)
  /-- What stands after it. -/
  after : List Char

/-- The first match that begins at one of the places of a text, from left to
right. -/
def findFrom (p : Pattern) : List Char → List Char → Option Match
  | before, after =>
    match p.reach ⟨before, after, []⟩ with
    | last :: _ => some {
        before := before.reverse
        text := last.textSince ⟨before, after, []⟩
        groups := last.groups.reverse
        after := last.after }
    | [] => match after with
      | [] => none
      | c :: cs => findFrom p (c :: before) cs
termination_by _ after => after.length

/-- The first match in a text. -/
def find? (p : Pattern) (text : List Char) : Option Match := p.findFrom [] text

/-- A fixed text. -/
def text (s : String) : Pattern := s.toList.foldr (fun c p => .seq (.letter c) p) .empty

/-- One of several fixed texts, the earlier preferred. -/
def oneOf : List String → Pattern
  | [] => .letterWhere fun _ => false
  | [s] => text s
  | s :: ss => .either (text s) (oneOf ss)

/-- One letter of a list. -/
def among (letters : String) : Pattern := .letterWhere letters.toList.contains

/-- One character outside a list of letters. -/
def except (letters : String) : Pattern := .letterWhere fun c => !letters.toList.contains c

/-- A pattern, or nothing if it does not match. -/
def optional (p : Pattern) : Pattern := .either p .empty

/-- Patterns are appended by matching one behind the other. -/
instance : Append Pattern where
  append := .seq

end Pattern

end Name
end EntitySdl

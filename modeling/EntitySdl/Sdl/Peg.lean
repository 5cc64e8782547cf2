import EntitySdl.Text.Blank

/-! # Parsing expressions

A grammar gives each of its rules an expression of ordered choice, greedy
repetition and negative lookahead, and a mode.  In spaced mode blanks and
comments are passed over between the parts of a sequence and between
repetitions; in the other modes they are not.  A rule that matches becomes a node
of the tree, unless it is used inside a rule in token mode, which is a leaf.

Matching is bounded by fuel; running out of it is told apart from failing, so
that more fuel never changes a result.
-/
namespace EntitySdl
namespace Sdl

/-- How the parts of an expression may stand apart, and what becomes of the
rules in it. -/
inductive Mode where
  /-- Blanks and comments may stand between parts. -/
  | spaced
  /-- Nothing may stand between parts. -/
  | tight
  /-- Nothing may stand between parts, and rules leave no nodes. -/
  | token
  deriving DecidableEq

/-- A parsing expression over the rules of a grammar. -/
inductive Peg (ρ : Type) where
  /-- A fixed text. -/
  | text (chars : List Char)
  /-- One character that passes a test. -/
  | charWhere (accepts : Char → Bool)
  /-- The end of the input. -/
  | finish
  /-- A rule. -/
  | rule (name : ρ)
  /-- One expression after another. -/
  | seq (first second : Peg ρ)
  /-- The first expression, or else the second. -/
  | choice (first second : Peg ρ)
  /-- The expression, or nothing if it fails. -/
  | optional (inner : Peg ρ)
  /-- The expression as often as it matches. -/
  | many (inner : Peg ρ)
  /-- Nothing, provided that the expression fails. -/
  | never (inner : Peg ρ)

namespace Peg

variable {ρ : Type}

/-- A sequence of expressions. -/
def seqOf : List (Peg ρ) → Peg ρ
  | [] => .text []
  | [e] => e
  | e :: es => .seq e (seqOf es)

/-- The first of several expressions that matches. -/
def firstOf : List (Peg ρ) → Peg ρ
  | [] => .charWhere fun _ => false
  | [e] => e
  | e :: es => .choice e (firstOf es)

/-- The expression once, and then as often as it matches. -/
def oneOrMore (e : Peg ρ) : Peg ρ := .seq e (.many e)

/-- A fixed text. -/
def word (s : String) : Peg ρ := .text s.toList

end Peg

/-- What a grammar says about one of its rules. -/
structure RuleBody (ρ : Type) where
  /-- The mode of its parts; without one, that of the place where it is used. -/
  mode : Option Mode
  /-- Whether the mode also holds for the rule as a whole, and not only for its
  parts. -/
  wholeInMode : Bool := false
  /-- Its expression. -/
  body : Peg ρ

/-- The rules of a grammar. -/
abbrev Grammar (ρ : Type) := ρ → RuleBody ρ

/-- A place in the input. -/
structure Cursor where
  /-- The number of characters before it. -/
  offset : Nat
  /-- The characters after it. -/
  rest : List Char
  deriving DecidableEq

/-- A matched rule. -/
inductive Tree (ρ : Type) where
  /-- The rule, the number of characters before its match, the match, and the
  nodes inside it. -/
  | node (rule : ρ) (start : Nat) (text : List Char) (children : List (Tree ρ))

/-- How matching ends. -/
inductive Outcome (ρ : Type) where
  /-- The place behind the match, and the nodes in it. -/
  | matched (cursor : Cursor) (trees : List (Tree ρ))
  /-- There is no match. -/
  | failed
  /-- The fuel did not suffice. -/
  | exhausted

/-- A blank that may stand between tokens.  A byte order mark counts as one. -/
def isSeparator (c : Char) : Bool :=
  c == ' ' || c == ',' || c == '\t' || c == '\n' || c == '\r' || c.toNat == 0xFEFF

/-- Whether a character ends a line. -/
def isLineEnd (c : Char) : Bool := c == '\n' || c == '\r'

namespace Cursor

/-- The place behind the blanks and comments at the front of a text that stands
at an offset; the flag tells whether the text begins inside a comment. -/
def behindIgnored : Bool → Nat → List Char → Cursor
  | _, offset, [] => ⟨offset, []⟩
  | true, offset, c :: cs => behindIgnored (!isLineEnd c) (offset + 1) cs
  | false, offset, c :: cs =>
    if isSeparator c then behindIgnored false (offset + 1) cs
    else if c == '#' then behindIgnored true (offset + 1) cs
    else ⟨offset, c :: cs⟩

/-- The place behind the blanks and comments, in the mode that passes over
them. -/
def skip (cursor : Cursor) : Mode → Cursor
  | .spaced => behindIgnored false cursor.offset cursor.rest
  | _ => cursor

/-- The characters between a place and a later one. -/
def textTo (cursor later : Cursor) : List Char :=
  cursor.rest.take (later.offset - cursor.offset)

end Cursor

namespace RuleBody

variable {ρ : Type}

/-- The mode of the parts of a rule that is used in a mode. -/
def modeIn (r : RuleBody ρ) (outer : Mode) : Mode := r.mode.getD outer

/-- The mode that decides whether a rule used in a mode leaves a node. -/
def ownMode (r : RuleBody ρ) (outer : Mode) : Mode :=
  if r.wholeInMode then r.modeIn outer else outer

/-- The node of a match, unless the rule is used inside a token. -/
def node (r : RuleBody ρ) (name : ρ) (outer : Mode) (start : Cursor) (finish : Cursor)
    (children : List (Tree ρ)) : List (Tree ρ) :=
  if r.ownMode outer = .token then []
  else [.node name start.offset (start.textTo finish) children]

end RuleBody

namespace Grammar

variable {ρ : Type}

mutual

/-- The match of an expression at a place. -/
def run (g : Grammar ρ) : Nat → Mode → Peg ρ → Cursor → Outcome ρ
  | 0, _, _, _ => .exhausted
  | fuel + 1, mode, e, cursor =>
    match e with
    | .text chars => match Text.dropStart? chars cursor.rest with
      | some rest => .matched ⟨cursor.offset + chars.length, rest⟩ []
      | none => .failed
    | .charWhere accepts => match cursor.rest with
      | c :: rest => if accepts c then .matched ⟨cursor.offset + 1, rest⟩ [] else .failed
      | [] => .failed
    | .finish => if cursor.rest.isEmpty then .matched cursor [] else .failed
    | .rule name =>
      let r := g name
      match g.run fuel (r.modeIn mode) r.body cursor with
      | .matched finish trees => .matched finish (r.node name mode cursor finish trees)
      | outcome => outcome
    | .seq first second => match g.run fuel mode first cursor with
      | .matched middle trees => match g.run fuel mode second (middle.skip mode) with
        | .matched finish more => .matched finish (trees ++ more)
        | outcome => outcome
      | outcome => outcome
    | .choice first second => match g.run fuel mode first cursor with
      | .failed => g.run fuel mode second cursor
      | outcome => outcome
    | .optional inner => match g.run fuel mode inner cursor with
      | .failed => .matched cursor []
      | outcome => outcome
    | .many inner => match g.run fuel mode inner cursor with
      | .matched middle trees => repeatFrom g fuel mode inner middle trees
      | .failed => .matched cursor []
      | .exhausted => .exhausted
    | .never inner => match g.run fuel mode inner cursor with
      | .matched _ _ => .failed
      | .failed => .matched cursor []
      | .exhausted => .exhausted
/-- Further repetitions behind a match, each after the blanks before it. -/
def repeatFrom (g : Grammar ρ) : Nat → Mode → Peg ρ → Cursor → List (Tree ρ) → Outcome ρ
  | 0, _, _, _, _ => .exhausted
  | fuel + 1, mode, inner, cursor, trees =>
    match g.run fuel mode inner (cursor.skip mode) with
    | .matched next more => repeatFrom g fuel mode inner next (trees ++ more)
    | .failed => .matched cursor trees
    | .exhausted => .exhausted

end

end Grammar
end Sdl
end EntitySdl

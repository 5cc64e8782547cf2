import EntitySdl.Sdl.Peg

/-! # The furthest failure

When a text does not match, the report names the furthest place at which a rule
was tried and failed, and the rules that were expected there.  A rule stands for
the rules inside it that failed at the same place, unless exactly one of them
did.  Rules inside a negative lookahead count as unexpected where they match;
rules inside a token do not count.

The rules tried are found by going over the match a second time: each part is
traced, and the match itself tells which parts were reached.
-/
namespace EntitySdl
namespace Sdl

/-- The rules tried at the furthest place so far. -/
structure Attempts (ρ : Type) where
  /-- The number of characters before the place. -/
  offset : Nat := 0
  /-- The rules that failed there. -/
  expected : List ρ := []
  /-- The rules that matched there and should not have. -/
  unexpected : List ρ := []

namespace Attempts

variable {ρ : Type}

/-- The number of rules noted at a place. -/
def countAt (attempts : Attempts ρ) (offset : Nat) : Nat :=
  if attempts.offset = offset then attempts.expected.length + attempts.unexpected.length else 0

/-- The attempts after a rule at a place is to be noted, given those from before
the rule was tried. -/
def note (before after : Attempts ρ) (offset : Nat) (negative : Bool) (rule : ρ) : Attempts ρ :=
  if after.countAt offset = before.countAt offset + 1 then after
  else if after.offset < offset then
    if negative then ⟨offset, [], [rule]⟩ else ⟨offset, [rule], []⟩
  else if after.offset = offset then
    let kept := fun (rules earlier : List ρ) =>
      if before.offset = offset then rules.take earlier.length else []
    let expected := kept after.expected before.expected
    let unexpected := kept after.unexpected before.unexpected
    if negative then ⟨offset, expected, unexpected ++ [rule]⟩
    else ⟨offset, expected ++ [rule], unexpected⟩
  else after

end Attempts

namespace Grammar

variable {ρ : Type}

mutual

/-- The attempts after an expression is tried at a place. -/
def trace (g : Grammar ρ) :
    Nat → Mode → Bool → Peg ρ → Cursor → Attempts ρ → Attempts ρ
  | 0, _, _, _, _, attempts => attempts
  | fuel + 1, mode, negative, e, cursor, attempts =>
    match e with
    | .text _ | .charWhere _ | .finish => attempts
    | .rule name =>
      let r := g name
      let after := g.trace fuel (r.modeIn mode) negative r.body cursor attempts
      if r.ownMode mode = .token then after
      else
        let isMatch := match g.run fuel (r.modeIn mode) r.body cursor with
          | .matched _ _ => true
          | _ => false
        if isMatch = negative then attempts.note after cursor.offset negative name else after
    | .seq first second =>
      let after := g.trace fuel mode negative first cursor attempts
      match g.run fuel mode first cursor with
      | .matched middle _ => g.trace fuel mode negative second (middle.skip mode) after
      | _ => after
    | .choice first second =>
      let after := g.trace fuel mode negative first cursor attempts
      match g.run fuel mode first cursor with
      | .failed => g.trace fuel mode negative second cursor after
      | _ => after
    | .optional inner => g.trace fuel mode negative inner cursor attempts
    | .many inner =>
      let after := g.trace fuel mode negative inner cursor attempts
      match g.run fuel mode inner cursor with
      | .matched middle _ => traceRepeat g fuel mode negative inner middle after
      | _ => after
    | .never inner => g.trace fuel mode (!negative) inner cursor attempts

/-- The attempts after further repetitions behind a match. -/
def traceRepeat (g : Grammar ρ) :
    Nat → Mode → Bool → Peg ρ → Cursor → Attempts ρ → Attempts ρ
  | 0, _, _, _, _, attempts => attempts
  | fuel + 1, mode, negative, inner, cursor, attempts =>
    let place := cursor.skip mode
    let after := g.trace fuel mode negative inner place attempts
    match g.run fuel mode inner place with
    | .matched next _ => traceRepeat g fuel mode negative inner next after
    | _ => after

end

end Grammar
end Sdl
end EntitySdl

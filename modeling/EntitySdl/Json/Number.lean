import EntitySdl.Number.Nearest
import EntitySdl.Datum.Malformed
import EntitySdl.Text.CharSet

/-! # JSON numbers

A number without fraction and exponent is an integer if it fits into 64 bits.
Any other is a float, computed from the digits that fit into 64 bits and a
power of ten in floating point; digits beyond those are dropped.
-/
namespace EntitySdl
namespace Json

open Text

/-- A reader takes a value off the front of a text. -/
abbrev Reader (α : Type) := List Char → Except Malformed (α × List Char)

/-- The largest integer of 64 bits without sign. -/
def maxSignificand : Nat := 0xFFFFFFFFFFFFFFFF

/-- The digits taken into a significand of 64 bits, after which the next digit
would no longer fit: the significand, how many digits were taken, and the
rest. -/
def takeDigits (significand taken : Nat) : List Char → Nat × Nat × List Char
  | [] => (significand, taken, [])
  | c :: cs =>
    let next := significand * 10 + digitValue c
    if isAsciiDigit c && decide (next ≤ maxSignificand) then takeDigits next (taken + 1) cs
    else (significand, taken, c :: cs)

/-- A significand of 64 bits times a power of ten, in floating point: the power
is applied in one step if it is a double, and otherwise downwards in steps of
308. -/
def scaleFrom : Nat → Float → Int → Except Malformed Float
  | 0, _, _ => .ok 0.0
  | fuel + 1, x, exponent =>
    if exponent.natAbs ≤ 308 then
      let power := Number.nearest (Number.tenTo exponent.natAbs) 1
      if 0 ≤ exponent then
        if (x * power).isInf then .error .ungrammatical else .ok (x * power)
      else .ok (x / power)
    else if x == 0.0 then .ok x
    else if 0 ≤ exponent then .error .ungrammatical
    else scaleFrom fuel (x / Number.nearest (Number.tenTo 308) 1) (exponent + 308)

/-- A float with its sign. -/
def scale (negative : Bool) (significand : Nat) (exponent : Int) : Except Malformed Float := do
  let x ← scaleFrom 16 (UInt64.ofNat significand).toFloat exponent
  return if negative then Number.negate x else x

/-- The exponent after its letter, added to the one the digits have already. -/
def readExponent (negative : Bool) (significand : Nat) (exponent : Int) : Reader Float :=
  fun cs => do
    let (down, cs) := match cs with
      | '+' :: cs => (false, cs)
      | '-' :: cs => (true, cs)
      | cs => (false, cs)
    match cs with
    | [] => throw .ended
    | c :: _ =>
      if !isAsciiDigit c then throw .ungrammatical
      else
        let size := digitsValue 10 (cs.takeWhile isAsciiDigit)
        let rest := cs.dropWhile isAsciiDigit
        if size < 0x80000000 then
          return (← scale negative significand (if down then exponent - size else exponent + size),
            rest)
        else if significand ≠ 0 ∧ !down then throw .ungrammatical
        else return (if negative then -0.0 else 0.0, rest)

/-- The end of a float: an exponent or nothing. -/
def readFloatEnd (negative : Bool) (significand : Nat) (exponent : Int) : Reader Float :=
  fun cs => do
    match cs with
    | 'e' :: rest | 'E' :: rest => readExponent negative significand exponent rest
    | _ => return (← scale negative significand exponent, cs)

/-- The fraction after its point. -/
def readFraction (negative : Bool) (significand : Nat) (exponent : Int) : Reader Float :=
  fun cs => do
    match cs with
    | [] => throw .ended
    | c :: _ =>
      if !isAsciiDigit c then throw .ungrammatical
      else
        let (significand, taken, rest) := takeDigits significand 0 cs
        readFloatEnd negative significand (exponent - taken) (rest.dropWhile isAsciiDigit)

/-- A number after its sign. -/
def readNumber (negative : Bool) : Reader Datum := fun cs => do
  match cs with
  | [] => throw .ended
  | c :: after =>
    if !isAsciiDigit c then throw .ungrammatical
    else if c = '0' ∧ after.head?.any isAsciiDigit then throw .ungrammatical
    else
      let (significand, _, rest) := takeDigits 0 0 cs
      let dropped := rest.takeWhile isAsciiDigit
      let exponent : Int := dropped.length
      match rest.dropWhile isAsciiDigit with
      | '.' :: rest =>
        let (x, rest) ← readFraction negative significand exponent rest
        return (.float x, rest)
      | rest =>
        let isFloat := match rest with
          | 'e' :: _ | 'E' :: _ => true
          | _ => !dropped.isEmpty
        if isFloat then
          let (x, rest) ← readFloatEnd negative significand exponent rest
          return (.float x, rest)
        else if !negative then return (.integer significand, rest)
        else if 0 < significand ∧ significand ≤ 0x8000000000000000 then return (.integer (-significand), rest)
        else return (.float (Number.negate (UInt64.ofNat significand).toFloat), rest)

end Json
end EntitySdl

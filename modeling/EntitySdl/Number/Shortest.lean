import EntitySdl.Number.Nearest

/-! # The shortest decimal digits of a double

Of the decimals that read back as a given double, the one with the fewest
digits is written, and of several such the nearest.  Two layouts of these digits
are in use: one is always positional, the other turns to an exponent for very
large and very small values.
-/
namespace EntitySdl
namespace Number

/-- A decimal `0.d₁d₂… * 10 ^ point`. -/
structure Digits where
  /-- The digits, the first of them not zero. -/
  digits : List Char
  /-- The place of the decimal point, counted from the first digit. -/
  point : Int

/-- The reals that round to a double, multiplied by a common denominator. -/
structure Interval where
  /-- The lower end. -/
  low : Nat
  /-- The value of the double. -/
  value : Nat
  /-- The upper end. -/
  high : Nat
  /-- Whether the ends belong to it. -/
  closed : Bool
  /-- The common denominator. -/
  den : Nat

/-- The interval of a double: half a unit to both sides, and a quarter below
where the units get finer. -/
def Interval.ofDyadic (d : Dyadic) : Interval :=
  let below := if d.m = twoTo 52 ∧ -1074 < d.q then 1 else 2
  let scale := if d.q < 0 then 1 else twoTo d.q.natAbs
  { low := (4 * d.m - below) * scale
    value := 4 * d.m * scale
    high := (4 * d.m + 2) * scale
    closed := d.m % 2 = 0
    den := if d.q < 0 then 4 * twoTo d.q.natAbs else 4 }

namespace Interval

/-- Whether a multiple of a unit lies in the interval; both are fractions over
the same denominator. -/
def holds (i : Interval) (x : Nat) : Bool :=
  if i.closed then decide (i.low ≤ x ∧ x ≤ i.high) else decide (i.low < x ∧ x < i.high)

/-- The multiple of `10 ^ place` that is nearest to the value among those in the
interval; one of the two neighbours of the value, if there is any. -/
def onGrid? (i : Interval) (place : Int) : Option Nat :=
  let factor := if place < 0 then tenTo place.natAbs else 1
  let unit := i.den * if place < 0 then 1 else tenTo place.natAbs
  let scaled : Interval :=
    { i with low := i.low * factor, value := i.value * factor, high := i.high * factor }
  let floor := scaled.value / unit
  let rest := scaled.value % unit
  match scaled.holds (floor * unit), scaled.holds ((floor + 1) * unit) with
  | true, true =>
    if 2 * rest < unit ∨ (2 * rest = unit ∧ floor % 2 = 0) then some floor else some (floor + 1)
  | true, false => some floor
  | false, true => some (floor + 1)
  | false, false => none

/-- The shortest digits in the interval, tried on finer and finer grids. -/
def shortestFrom (i : Interval) (place : Int) : Nat → Nat × Int
  | 0 => (i.value / i.den, 0)
  | fuel + 1 =>
    match i.onGrid? place with
    | some n => if n = 0 then i.shortestFrom (place - 1) fuel else (n, place)
    | none => i.shortestFrom (place - 1) fuel

end Interval

/-- The digits without the zeros at their end. -/
def dropZeros (digits : List Char) : List Char := (digits.reverse.dropWhile (· == '0')).reverse

/-- The shortest digits of a finite double that is not zero. -/
def shortest (x : Float) : Digits :=
  let i := Interval.ofDyadic (Dyadic.ofFloat x)
  let size : Int := (Nat.toDigits 10 (i.value / i.den)).length
  let top : Int := if i.value < i.den then
      2 - (Nat.toDigits 10 (i.den / i.value)).length
    else size
  let (n, place) := i.shortestFrom top 700
  let digits := Nat.toDigits 10 n
  ⟨dropZeros digits, digits.length + place⟩

/-- The digits in positional writing, with at least one digit on each side of
the point. -/
def Digits.positional (d : Digits) : List Char :=
  let n := d.digits.length
  if d.point ≤ 0 then '0' :: '.' :: (List.replicate d.point.natAbs '0' ++ d.digits)
  else if d.point.toNat < n then
    d.digits.take d.point.toNat ++ '.' :: d.digits.drop d.point.toNat
  else d.digits ++ List.replicate (d.point.toNat - n) '0' ++ ['.', '0']

/-- The digits with one digit before the point, and an exponent of at least two
digits with its sign. -/
def Digits.scientific (d : Digits) : List Char :=
  let exponent := d.point - 1
  let mantissa := match d.digits with
    | [] => []
    | [c] => [c]
    | c :: cs => c :: '.' :: cs
  let size := Nat.toDigits 10 exponent.natAbs
  mantissa ++ 'e' :: (if exponent < 0 then '-' else '+') ::
    (List.replicate (2 - size.length) '0' ++ size)

/-- A layout for the digits of a finite double, with its sign. -/
def layout (write : Digits → List Char) (x : Float) : String :=
  let body := if (Dyadic.ofFloat x).m = 0 then ['0', '.', '0'] else write (shortest x)
  String.ofList (if isNegative x then '-' :: body else body)

/-- Positional writing for every double; those that are not finite have names. -/
def positionalText (x : Float) : String :=
  if x.isNaN then "NaN"
  else if x.isInf then if isNegative x then "-inf" else "inf"
  else layout Digits.positional x

/-- Positional writing while the first digit stands between the fifth place
behind the point and the sixteenth before it, and an exponent elsewhere. -/
def compactText (x : Float) : String :=
  layout (fun d => if -5 < d.point ∧ d.point ≤ 16 then d.positional else d.scientific) x

end Number
end EntitySdl

/-! # The double nearest to a fraction

A double is read off its bit pattern as `m * 2 ^ q`, and the double nearest to
a fraction of natural numbers is found in exact arithmetic; of two equally near
doubles the one with the even last bit is taken.
-/
namespace EntitySdl
namespace Number

/-- A power of two. -/
def twoTo (n : Nat) : Nat := Nat.pow 2 n

/-- A power of ten. -/
def tenTo (n : Nat) : Nat := Nat.pow 10 n

/-- A fraction rounded to the nearest natural number, a half to the even one. -/
def roundHalfEven (num den : Nat) : Nat :=
  let floor := num / den
  let rest := 2 * (num % den)
  if rest < den ∨ (rest = den ∧ floor % 2 = 0) then floor else floor + 1

/-- The bits of infinity. -/
def infinityBits : Nat := 0x7FF0000000000000

/-- The bits of the double nearest to a fraction; infinity beyond the largest
double. -/
def nearestBits (num den : Nat) : Nat :=
  if num = 0 then 0
  else
    let scaled := fun (q : Int) =>
      if q < 0 then (num * twoTo q.natAbs, den) else (num, den * twoTo q.natAbs)
    let guess : Int := (num.log2 : Int) - den.log2 - 52
    let q := if (scaled guess).1 / (scaled guess).2 < twoTo 52 then guess - 1 else guess
    let q := max q (-1074)
    let m := roundHalfEven (scaled q).1 (scaled q).2
    min infinityBits ((q + 1074).toNat * twoTo 52 + m)

/-- The double nearest to a fraction. -/
def nearest (num den : Nat) : Float := Float.ofBits (UInt64.ofNat (nearestBits num den))

/-- The double nearest to `digits * 10 ^ exponent`.  Far exponents are settled
without the power. -/
def nearestDecimal (digits : Nat) (exponent : Int) : Float :=
  let size : Int := (Nat.toDigits 10 digits).length
  if digits = 0 ∨ size + exponent < -400 then 0.0
  else if 400 < size + exponent then Float.ofBits (UInt64.ofNat infinityBits)
  else if exponent < 0 then nearest digits (tenTo exponent.natAbs)
  else nearest (digits * tenTo exponent.natAbs) 1

/-- A finite double that is not negative, as `m * 2 ^ q`. -/
structure Dyadic where
  /-- The whole multiple. -/
  m : Nat
  /-- The power of two. -/
  q : Int

/-- The value of a finite double without its sign. -/
def Dyadic.ofFloat (x : Float) : Dyadic :=
  let bits := x.toBits.toNat % twoTo 63
  if bits < twoTo 52 then ⟨bits, -1074⟩
  else ⟨twoTo 52 + bits % twoTo 52, ((bits / twoTo 52 : Nat) : Int) - 1075⟩

/-- Whether the sign bit of a double is set. -/
def isNegative (x : Float) : Bool := decide (twoTo 63 ≤ x.toBits.toNat)

/-- A double with its sign bit turned. -/
def negate (x : Float) : Float := Float.ofBits (UInt64.ofNat ((x.toBits.toNat + twoTo 63) % twoTo 64))

end Number
end EntitySdl

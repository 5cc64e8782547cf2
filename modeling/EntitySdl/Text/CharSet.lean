/-! # Sets of characters

A set of characters is a list of closed ranges of code points, of which some
hold every second code point only.  The tables of the neighbouring modules are
such sets, each named for the property it lists.
-/
namespace EntitySdl
namespace Text

/-- A set of characters, as closed ranges of code points. -/
structure CharSet where
  /-- First and last code point of each range. -/
  ranges : List (Nat × Nat)
  /-- First and last code point of the ranges that hold every second one. -/
  alternating : List (Nat × Nat) := []

namespace CharSet

/-- Whether a character lies in one of the ranges. -/
def contains (s : CharSet) (c : Char) : Bool :=
  (s.ranges.any fun r => decide (r.1 ≤ c.toNat) && decide (c.toNat ≤ r.2)) ||
    s.alternating.any fun r =>
      decide (r.1 ≤ c.toNat) && decide (c.toNat ≤ r.2) && (c.toNat - r.1) % 2 == 0

theorem contains_iff (s : CharSet) (c : Char) :
    s.contains c = true ↔
      (∃ r ∈ s.ranges, r.1 ≤ c.toNat ∧ c.toNat ≤ r.2) ∨
      (∃ r ∈ s.alternating, (r.1 ≤ c.toNat ∧ c.toNat ≤ r.2) ∧ (c.toNat - r.1) % 2 = 0) := by
  simp [contains]

end CharSet

/-- Whether a character is an ASCII letter. -/
def isAsciiLetter (c : Char) : Bool :=
  decide ('a' ≤ c ∧ c ≤ 'z') || decide ('A' ≤ c ∧ c ≤ 'Z')

/-- Whether a character is an ASCII digit. -/
def isAsciiDigit (c : Char) : Bool := decide ('0' ≤ c ∧ c ≤ '9')

/-- Whether a character is an ASCII hexadecimal digit. -/
def isAsciiHexDigit (c : Char) : Bool :=
  isAsciiDigit c || decide ('a' ≤ c ∧ c ≤ 'f') || decide ('A' ≤ c ∧ c ≤ 'F')

/-- The value of a digit of a base up to sixteen. -/
def digitValue (c : Char) : Nat :=
  if '0' ≤ c ∧ c ≤ '9' then c.toNat - '0'.toNat
  else if 'a' ≤ c ∧ c ≤ 'f' then c.toNat - 'a'.toNat + 10
  else c.toNat - 'A'.toNat + 10

/-- The number that a sequence of digits of a base denotes. -/
def digitsValue (base : Nat) (digits : List Char) : Nat :=
  digits.foldl (fun n c => n * base + digitValue c) 0

/-- The lower-case hexadecimal digits of a number. -/
def hexDigits (n : Nat) : List Char := Nat.toDigits 16 n

/-- What is said of all characters of a text is decided one character at a time. -/
instance decidableForallMem (p : Char → Prop) [DecidablePred p] (cs : List Char) :
    Decidable (∀ c ∈ cs, p c) := List.decidableBAll p cs

/-- So is what is said of the character that there may be. -/
instance decidableForallSome (p : Char → Prop) [DecidablePred p] (found : Option Char) :
    Decidable (∀ c, found = some c → p c) := Option.decidableForallMem found

end Text
end EntitySdl

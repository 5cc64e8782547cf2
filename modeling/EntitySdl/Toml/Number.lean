import EntitySdl.Toml.Text
import EntitySdl.Number.Nearest
import EntitySdl.Datum.Basic

/-! # TOML numbers and times

Digits may be separated by single underscores.  An integer has 64 bits with sign
and may be written to base 2, 8 or 16; a float is the double nearest to what is
written, or infinity or no number by name.  A date, a time or both together are
a record of one entry with their text.
-/
namespace EntitySdl
namespace Toml

open Text

/-- Further digits behind the first one, with single underscores between
them. -/
def readMoreDigits (isDigit : Char → Bool) : List Char → List Char × List Char
  | '_' :: c :: cs =>
    if isDigit c then
      let (rest, cs) := readMoreDigits isDigit cs
      (c :: rest, cs)
    else ([], '_' :: c :: cs)
  | c :: cs =>
    if isDigit c then
      let (rest, cs) := readMoreDigits isDigit cs
      (c :: rest, cs)
    else ([], c :: cs)
  | [] => ([], [])

/-- One or more digits. -/
def readDigits (isDigit : Char → Bool) : Reader (List Char)
  | c :: cs =>
    if isDigit c then
      let (rest, cs) := readMoreDigits isDigit cs
      some (c :: rest, cs)
    else none
  | [] => none

/-- The digits of a decimal integer: one zero, or digits that do not begin with
zero. -/
def readDecimalDigits : Reader (List Char)
  | '0' :: cs => some (['0'], cs)
  | cs => readDigits isAsciiDigit cs

/-- A sign, if there is one: whether it is a minus. -/
def readSign : List Char → Bool × List Char
  | '-' :: cs => (true, cs)
  | '+' :: cs => (false, cs)
  | cs => (false, cs)

/-- An integer in the range of 64 bits. -/
def inRange (negative : Bool) (digits : Nat) : Option Datum :=
  if negative then if digits ≤ 0x8000000000000000 then some (.integer (-digits)) else none
  else if digits < 0x8000000000000000 then some (.integer digits) else none

/-- An integer. -/
def readInteger : Reader Datum := fun cs => do
  let based := fun (base : Nat) (isDigit : Char → Bool) (cs : List Char) => do
    let (digits, cs) ← readDigits isDigit cs
    return (← inRange false (digitsValue base digits), cs)
  match cs with
  | '0' :: 'x' :: cs => based 16 isAsciiHexDigit cs
  | '0' :: 'o' :: cs => based 8 (fun c => isAsciiDigit c && c < '8') cs
  | '0' :: 'b' :: cs => based 2 (fun c => c == '0' || c == '1') cs
  | cs =>
    let (negative, cs) := readSign cs
    let (digits, cs) ← readDecimalDigits cs
    return (← inRange negative (digitsValue 10 digits), cs)

/-- An exponent, if the text begins with its letter. -/
def readExponent? : List Char → Option (Option (Int × List Char))
  | c :: cs =>
    if c = 'e' ∨ c = 'E' then do
      let (negative, cs) := readSign cs
      let (digits, cs) ← readDigits isAsciiDigit cs
      let size : Int := digitsValue 10 digits
      return some (if negative then -size else size, cs)
    else some none
  | [] => some none

/-- A float with its sign. -/
def signed (negative : Bool) (x : Float) : Float := if negative then Number.negate x else x

/-- A float by name, after its sign. -/
def readNamedFloat (negative : Bool) : Reader Datum
  | 'i' :: 'n' :: 'f' :: cs =>
    some (.float (signed negative (Float.ofBits (UInt64.ofNat Number.infinityBits))), cs)
  | 'n' :: 'a' :: 'n' :: cs => some (.float (signed negative (0.0 / 0.0)), cs)
  | _ => none

/-- A float: an integer with a fraction, an exponent or both, or a name.  One
that is too large fails unless it is negative. -/
def readFloat : Reader Datum := fun cs =>
  let (negative, cs) := readSign cs
  match readDecimalDigits cs with
  | none => readNamedFloat negative cs
  | some (whole, cs) => do
    let (fraction, cs) ← match cs with
      | '.' :: cs => readDigits isAsciiDigit cs
      | cs => some ([], cs)
    let exponent ← readExponent? cs
    if fraction.isEmpty && exponent.isNone then none
    else
      let (size, cs) := exponent.getD (0, cs)
      let x := Number.nearestDecimal (digitsValue 10 (whole ++ fraction)) (size - fraction.length)
      if x.isInf && !negative then none else return (.float (signed negative x), cs)

/-- A fixed number of decimal digits whose value lies in a range. -/
def readField (count low high : Nat) : Reader Nat := fun cs =>
  let digits := cs.take count
  let value := digitsValue 10 digits
  if digits.length = count && digits.all isAsciiDigit && decide (low ≤ value ∧ value ≤ high) then
    some (value, cs.drop count)
  else none

/-- A character that must come next. -/
def expect (c : Char) : List Char → Option (List Char)
  | d :: cs => if c = d then some cs else none
  | [] => none

/-- The number of days of a month. -/
def daysIn (year month : Nat) : Nat :=
  if month = 2 then
    if year % 4 = 0 ∧ (year % 100 ≠ 0 ∨ year % 400 = 0) then 29 else 28
  else if [4, 6, 9, 11].contains month then 30
  else 31

/-- A number written with a number of digits. -/
def padded (count value : Nat) : String :=
  let digits := Nat.toDigits 10 value
  String.ofList (List.replicate (count - digits.length) '0' ++ digits)

/-- A date. -/
def readDate : Reader String := fun cs => do
  let (year, cs) ← readField 4 0 9999 cs
  let (month, cs) ← readField 2 1 12 (← expect '-' cs)
  let (day, cs) ← readField 2 1 31 (← expect '-' cs)
  if day ≤ daysIn year month then
    return (padded 4 year ++ "-" ++ padded 2 month ++ "-" ++ padded 2 day, cs)
  else none

/-- The fraction of a second, to nine places and without zeros at its end. -/
def readSubsecond : Reader String
  | '.' :: cs =>
    let digits := cs.takeWhile isAsciiDigit
    let kept := ((digits.take 9).reverse.dropWhile (· == '0')).reverse
    if digits.isEmpty then some ("", '.' :: cs)
    else some (if kept.isEmpty then "" else "." ++ String.ofList kept, cs.drop digits.length)
  | cs => some ("", cs)

/-- A time of day. -/
def readTime : Reader String := fun cs => do
  let (hour, cs) ← readField 2 0 23 cs
  let (minute, cs) ← readField 2 0 59 (← expect ':' cs)
  let (second, cs) ← readField 2 0 60 (← expect ':' cs)
  let (fraction, cs) ← readSubsecond cs
  return (padded 2 hour ++ ":" ++ padded 2 minute ++ ":" ++ padded 2 second ++ fraction, cs)

/-- A distance to universal time, if there is one. -/
def readZone (cs : List Char) : String × List Char :=
  let distance := fun (sign : String) (cs : List Char) => do
    let (hour, cs) ← readField 2 0 23 cs
    let (minute, cs) ← readField 2 0 59 (← expect ':' cs)
    return (sign ++ padded 2 hour ++ ":" ++ padded 2 minute, cs)
  let zone? : Option (String × List Char) := match cs with
    | 'Z' :: cs | 'z' :: cs => some ("Z", cs)
    | '+' :: cs => distance "+" cs
    | '-' :: cs => distance "-" cs
    | _ => none
  zone?.getD ("", cs)

/-- The time behind a date, if there is one. -/
def readTimeBehind (cs : List Char) : String × List Char :=
  let time? : Option (String × List Char) := match cs with
    | c :: cs =>
      if c = 'T' ∨ c = 't' ∨ c = ' ' then do
        let (time, cs) ← readTime cs
        let (zone, cs) := readZone cs
        return ("T" ++ time ++ zone, cs)
      else none
    | [] => none
  time?.getD ("", cs)

/-- A date, a time, or both. -/
def readMoment : Reader Datum := fun cs => do
  let (text, cs) ← match readDate cs with
    | some (date, cs) =>
      let (time, cs) := readTimeBehind cs
      some (date ++ time, cs)
    | none => readTime cs
  return (.record [("$__toml_private_datetime", .text text)], cs)

/-- A number or a time: the first of a time, a float and an integer that the text
begins with. -/
def readNumber : Reader Datum := fun cs =>
  (readMoment cs).or ((readFloat cs).or (readInteger cs))

end Toml
end EntitySdl

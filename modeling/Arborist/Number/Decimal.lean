import Arborist.Number.Basic

/-!
Decimal numerals. A numeral stands for `digits * 10 ^ exponent`; it is read off text, rounded to a
number, and chosen for a number as the shortest numeral that rounds back to it.
-/

namespace Arborist

structure Decimal where
  digits : Nat
  exponent : Int
  deriving DecidableEq, Repr

inductive Tie where
  | toEven
  | away
  deriving DecidableEq, Repr

namespace Decimal

def digitValue (c : Char) : Nat := c.toNat - '0'.toNat

def natOfDigits (cs : List Char) : Nat :=
  cs.foldl (fun n c => 10 * n + digitValue c) 0

def digitText (n : Nat) : String := String.ofList (Nat.toDigits 10 n)

def digitCount (n : Nat) : Nat := (Nat.toDigits 10 n).length

/-- A count: decimal digits behind an optional plus, in the range of a 64-bit word. -/
def readCount? (cs : List Char) : Option Nat :=
  let digits :=
    match cs with
    | '+' :: rest => rest
    | _ => cs
  if digits.isEmpty || !digits.all Char.isDigit then none
  else
    let n := natOfDigits digits
    if n < wordSize then some n else none

def scanExponent (cs : List Char) : Option (Int × List Char) :=
  match cs with
  | mark :: rest =>
    if mark == 'e' || mark == 'E' then
      let (negative, body) :=
        match rest with
        | '-' :: more => (true, more)
        | '+' :: more => (false, more)
        | more => (false, more)
      let digits := body.takeWhile Char.isDigit
      if digits.isEmpty then none
      else
        let size : Int := natOfDigits digits
        some (if negative then -size else size, body.dropWhile Char.isDigit)
    else none
  | [] => none

/-- The longest numeral that `cs` starts with: digits with an optional fraction, or a fraction with
at least one digit, each with an optional exponent. -/
def scan (cs : List Char) : Option (Decimal × List Char) :=
  let whole := cs.takeWhile Char.isDigit
  let afterWhole := cs.dropWhile Char.isDigit
  let (fraction, afterFraction) :=
    match afterWhole with
    | '.' :: rest => (rest.takeWhile Char.isDigit, rest.dropWhile Char.isDigit)
    | rest => ([], rest)
  if whole.isEmpty && fraction.isEmpty then none
  else
    let (power, rest) := (scanExponent afterFraction).getD (0, afterFraction)
    some (⟨natOfDigits (whole ++ fraction), power - fraction.length⟩, rest)

def ofText? (cs : List Char) : Option Decimal :=
  match scan cs with
  | some (numeral, []) => some numeral
  | _ => none

/-- The nearest number. Beyond 10^310 nothing is finite, and below 10^-330 all rounds to zero. -/
def toNumber (negative : Bool) (d : Decimal) : Number :=
  let scale := d.exponent + digitCount d.digits
  if d.digits = 0 then .zero negative
  else if 310 < scale then .infinity negative
  else if scale < -330 then .zero negative
  else if 0 ≤ d.exponent then .ofRatio negative (d.digits * tenTo d.exponent.toNat) 1
  else .ofRatio negative d.digits (tenTo (-d.exponent).toNat)

def stripZeros : Nat → Decimal → Decimal
  | 0, d => d
  | fuel + 1, d =>
    if d.digits ≠ 0 ∧ d.digits % 10 = 0 then stripZeros fuel ⟨d.digits / 10, d.exponent + 1⟩
    else d

def normal (d : Decimal) : Decimal := stripZeros (digitCount d.digits) d

def leadingPower (num den : Nat) : Int :=
  if den ≤ num then (digitCount (num / den) : Int) - 1
  else
    let count := digitCount (den / num)
    if den ≤ num * tenTo (count - 1) then 1 - (count : Int) else -(count : Int)

def scaleTen (num den : Nat) (power : Int) : Nat × Nat :=
  if 0 ≤ power then (num, den * tenTo power.toNat) else (num * tenTo (-power).toNat, den)

def nearestOnGrid (tie : Tie) (reads : Decimal → Bool) (num den : Nat) (power : Int) :
    Option Decimal :=
  let scaled := scaleTen num den power
  let below : Decimal := ⟨scaled.1 / scaled.2, power⟩
  let above : Decimal := ⟨scaled.1 / scaled.2 + 1, power⟩
  let remainder := scaled.1 % scaled.2
  match reads below, reads above with
  | true, true =>
    if 2 * remainder < scaled.2 then some below
    else if scaled.2 < 2 * remainder then some above
    else if tie = .toEven ∧ below.digits % 2 = 0 then some below
    else some above
  | true, false => some below
  | false, true => some above
  | false, false => none

/-- The shortest numeral that rounds to the positive `mantissa * 2 ^ exponent`, the nearest of that
length. Seventeen digits always suffice. -/
def shortest (tie : Tie) (mantissa : Nat) (exponent : Int) : Decimal :=
  let exact := scaleDown mantissa 1 (-exponent)
  let number := Number.pack false mantissa exponent
  let reads := fun d => decide (d.digits ≠ 0 ∧ d.toNumber false = number)
  let leading := leadingPower exact.1 exact.2
  let found := (List.range 17).findSome? fun (extra : Nat) =>
    nearestOnGrid tie reads exact.1 exact.2 (leading - extra)
  (found.getD ⟨exact.1 / exact.2, 0⟩).normal

end Decimal

end Arborist

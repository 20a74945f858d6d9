/-!
Binary64 numbers as exact data. A finite number is a sign, a mantissa and a power of two in the one
normal form of its value, so that two finite numbers are equal as data exactly when their bits are.
Rounding is stated once, for a quotient of natural numbers, and every operation goes through it.
-/

namespace Arborist

def twoTo (n : Nat) : Nat := Nat.pow 2 n

def tenTo (n : Nat) : Nat := Nat.pow 10 n

def wordSize : Nat := twoTo 64

/-- The normal form of a magnitude: 53 bits, all of them used unless the exponent is the least. -/
def Canonical (mantissa : Nat) (exponent : Int) : Prop :=
  mantissa < twoTo 53 ∧ -1074 ≤ exponent ∧ exponent ≤ 971 ∧
    (twoTo 52 ≤ mantissa ∨ exponent = -1074)

instance (mantissa : Nat) (exponent : Int) : Decidable (Canonical mantissa exponent) :=
  inferInstanceAs (Decidable (_ ∧ _))

/-- A finite number is `mantissa * 2 ^ exponent`, negated when `negative` is set. -/
inductive Number where
  | nan
  | infinity (negative : Bool)
  | finite (negative : Bool) (mantissa : Nat) (exponent : Int)
      (canonical : Canonical mantissa exponent)
  deriving DecidableEq, Repr

def roundDiv (num den : Nat) : Nat :=
  let quotient := num / den
  let remainder := num % den
  if 2 * remainder < den then quotient
  else if den < 2 * remainder then quotient + 1
  else quotient + quotient % 2

def scaleDown (num den : Nat) (exponent : Int) : Nat × Nat :=
  if 0 ≤ exponent then (num, den * twoTo exponent.toNat)
  else (num * twoTo (-exponent).toNat, den)

/-- The least exponent from -1074 on for which `num / den` is below `2 ^ (53 + exponent)`. -/
def gridExponent (num den : Nat) : Int :=
  let magnitude : Int := (num.log2 : Int) - (den.log2 : Int)
  let scaled := scaleDown num den magnitude
  let least := if scaled.1 < scaled.2 then magnitude - 53 else magnitude - 52
  if num = 0 then -1074 else max least (-1074)

namespace Number

theorem canonical_zero : Canonical 0 (-1074) := by decide

def zero (negative : Bool) : Number := .finite negative 0 (-1074) canonical_zero

def pack (negative : Bool) (mantissa : Nat) (exponent : Int) : Number :=
  if h : Canonical mantissa exponent then .finite negative mantissa exponent h
  else .infinity negative

/-- The number nearest to `num / den`, ties to the even mantissa. -/
def ofRatio (negative : Bool) (num den : Nat) : Number :=
  let exponent := gridExponent num den
  let scaled := scaleDown num den exponent
  let mantissa := roundDiv scaled.1 scaled.2
  if mantissa = twoTo 53 then pack negative (twoTo 52) (exponent + 1)
  else pack negative mantissa exponent

def ofNat (n : Nat) : Number := ofRatio false n 1

def ofBits (bits : UInt64) : Number :=
  let word : Nat := bits.toNat
  let negative : Bool := word / twoTo 63 == 1
  let biased : Nat := word / twoTo 52 % twoTo 11
  let fraction : Nat := word % twoTo 52
  if biased = 2047 then (if fraction = 0 then .infinity negative else .nan)
  else if biased = 0 then pack negative fraction (-1074)
  else pack negative (twoTo 52 + fraction) (Int.ofNat biased - 1075)

def isFinite : Number → Bool
  | .finite .. => true
  | _ => false

/-- The value of a finite number counted in steps of `2 ^ -1074`, which every one of them is. -/
def units? : Number → Option Int
  | .finite negative mantissa exponent _ =>
      let size : Int := Int.ofNat (mantissa * twoTo (exponent + 1074).toNat)
      some (if negative then -size else size)
  | _ => none

/-- Numeric equality: the zeros agree, and `nan` agrees with nothing. -/
def agrees (a b : Number) : Bool :=
  match a, b with
  | .infinity s, .infinity t => s == t
  | a, b =>
    match a.units?, b.units? with
    | some x, some y => x == y
    | _, _ => false

def less : Number → Number → Bool
  | .nan, _ => false
  | _, .nan => false
  | .infinity s, .infinity t => s && !t
  | .infinity s, _ => s
  | _, .infinity t => !t
  | a, b =>
    match a.units?, b.units? with
    | some x, some y => x < y
    | _, _ => false

/-- The exact sum, rounded. A sum of zero is negative only when both terms are. -/
def add (a b : Number) : Number :=
  match a, b with
  | .nan, _ => .nan
  | _, .nan => .nan
  | .infinity s, .infinity t => if s = t then .infinity s else .nan
  | .infinity s, _ => .infinity s
  | _, .infinity t => .infinity t
  | .finite s m e h, .finite t n f k =>
    match (Number.finite s m e h).units?, (Number.finite t n f k).units? with
    | some x, some y =>
      if x + y = 0 then zero (s && t) else ofRatio (x + y < 0) (x + y).natAbs (twoTo 1074)
    | _, _ => .nan

def one : Number := ofNat 1

def minusOne : Number := ofRatio true 1 1

end Number

end Arborist

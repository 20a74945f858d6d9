import Arborist.Number.Decimal

/-!
Number text. A layout holds the decisions of a written form: where plain notation ends, how a whole
number looks, and which way a tie between digits goes.
-/

namespace Arborist

/-- Numbers whose leading digit has a power of ten from `plainFrom` up to but not including
`plainTo` are written plainly, all others with an exponent. -/
structure Layout where
  plainFrom : Int
  plainTo : Int
  tie : Tie
  /-- Whole numbers in plain notation show every digit of their exact value. -/
  exactWhole : Bool
  /-- Whole numbers in plain notation end in `.0`. -/
  wholePoint : Bool
  /-- A negative zero keeps its sign. -/
  signedZero : Bool
  deriving DecidableEq, Repr

namespace Layout

def zeros (n : Nat) : String := String.ofList (List.replicate n '0')

def plain (layout : Layout) (d : Decimal) : String :=
  let text := Nat.toDigits 10 d.digits
  let power := d.exponent + text.length - 1
  let digits := String.ofList text
  if 0 ≤ d.exponent then
    digits ++ zeros d.exponent.toNat ++ (if layout.wholePoint then ".0" else "")
  else if 0 ≤ power then
    String.ofList (text.take (power.toNat + 1)) ++ "." ++
      String.ofList (text.drop (power.toNat + 1))
  else "0." ++ zeros (-power - 1).toNat ++ digits

def scientific (d : Decimal) : String :=
  let text := Nat.toDigits 10 d.digits
  let power := d.exponent + text.length - 1
  let fraction := text.drop 1
  String.ofList (text.take 1) ++
    (if fraction.isEmpty then "" else "." ++ String.ofList fraction) ++
    "e" ++ (if power < 0 then "-" else "+") ++ Decimal.digitText power.natAbs

def magnitude (layout : Layout) (mantissa : Nat) (exponent : Int) : String :=
  let d := Decimal.shortest layout.tie mantissa exponent
  let power := d.exponent + Decimal.digitCount d.digits - 1
  let exact := scaleDown mantissa 1 (-exponent)
  if power < layout.plainFrom ∨ layout.plainTo ≤ power then scientific d
  else if layout.exactWhole ∧ exact.1 % exact.2 = 0 then
    layout.plain ⟨exact.1 / exact.2, 0⟩
  else layout.plain d

def finite (layout : Layout) (negative : Bool) (mantissa : Nat) (exponent : Int) : String :=
  if mantissa = 0 then
    (if negative ∧ layout.signedZero then "-" else "") ++ layout.plain ⟨0, 0⟩
  else (if negative then "-" else "") ++ layout.magnitude mantissa exponent

end Layout

namespace Number

/-- Displays are plain from 10^-6 up to 10^21, and whole numbers there are exact. -/
def displayLayout : Layout where
  plainFrom := -6
  plainTo := 21
  tie := .away
  exactWhole := true
  wholePoint := false
  signedZero := false

def display : Number → String
  | .nan => "NaN"
  | .infinity negative => if negative then "-Infinity" else "Infinity"
  | .finite negative mantissa exponent _ => displayLayout.finite negative mantissa exponent

end Number

end Arborist

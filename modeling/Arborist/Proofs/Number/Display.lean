import Mathlib
import Arborist.Proofs.Number.Numeral
import Arborist.Proofs.Number.Shortest
import Arborist.Widget.Input

/-!
Displayed numbers read back. Every layout without a point behind whole numbers writes a magnitude as
a numeral of the same value or of the shortest one, so a finite number is read from its display as
itself, the sign of a zero aside. The readers are that of a source and that of an input.
-/

namespace Arborist

open Decimal

namespace Layout

def plainNumeral (d : Decimal) : Numeral :=
  let text := Nat.toDigits 10 d.digits
  let power := d.exponent + text.length - 1
  if 0 ≤ d.exponent then ⟨text ++ List.replicate d.exponent.toNat '0', none, none⟩
  else if 0 ≤ power then ⟨text.take (power.toNat + 1), some (text.drop (power.toNat + 1)), none⟩
  else ⟨['0'], some (List.replicate (-power - 1).toNat '0' ++ text), none⟩

def scientificNumeral (d : Decimal) : Numeral :=
  let text := Nat.toDigits 10 d.digits
  let power := d.exponent + text.length - 1
  ⟨text.take 1, if (text.drop 1).isEmpty then none else some (text.drop 1),
    some ⟨'e', [if power < 0 then '-' else '+'], Nat.toDigits 10 power.natAbs⟩⟩

theorem toDigits_isDigit (n : Nat) : (Nat.toDigits 10 n).all Char.isDigit = true :=
  List.all_eq_true.2 fun _ member => Nat.isDigit_of_mem_toDigits (by decide) (by decide) member

theorem plain_toList {layout : Layout} (noPoint : layout.wholePoint = false) (d : Decimal) :
    (layout.plain d).toList = (plainNumeral d).text := by
  simp only [plain, plainNumeral, Numeral.text]
  split
  · simp [noPoint, zeros, Numeral.pointText, Numeral.powerText]
  · split
    · simp [Numeral.pointText, Numeral.powerText]
    · simp [zeros, Numeral.pointText, Numeral.powerText]

theorem plainNumeral_valid (d : Decimal) : (plainNumeral d).Valid := by
  have digits := List.all_eq_true.1 (toDigits_isDigit d.digits)
  have some : Nat.toDigits 10 d.digits ≠ [] := Nat.toDigits_ne_nil
  have zeros : ∀ k, ∀ c ∈ List.replicate k '0', c.isDigit = true := by
    intro k c member
    rw [List.eq_of_mem_replicate member]
    decide
  simp only [plainNumeral]
  split
  · refine ⟨?_, by simp, .inl (by simp [some]), by simp⟩
    rw [List.all_append, List.all_eq_true.2 (zeros _), List.all_eq_true.2 digits]
    rfl
  · split
    · refine ⟨?_, ?_, .inl (by simp [some]), by simp⟩
      · exact List.all_eq_true.2 fun c member => digits c (List.mem_of_mem_take member)
      · exact List.all_eq_true.2 fun c member => digits c (List.mem_of_mem_drop member)
    · refine ⟨rfl, ?_, .inl (by simp), by simp⟩
      rw [Option.getD_some, List.all_append, List.all_eq_true.2 (zeros _), List.all_eq_true.2 digits]
      rfl

theorem plainNumeral_value (d : Decimal) : (plainNumeral d).value.value = d.value := by
  simp only [plainNumeral]
  split
  · rename_i nonneg
    have digits : natOfDigits (Nat.toDigits 10 d.digits ++ List.replicate d.exponent.toNat '0') =
        10 ^ d.exponent.toNat * d.digits := by
      rw [natOfDigits_eq, Nat.ofDigitChars_append, Nat.ofDigitChars_ten_toDigits,
        Nat.ofDigitChars_replicate_zero]
    simp only [Numeral.value, Option.getD_none, List.append_nil, digits, Decimal.value,
      Option.map_none, List.length_nil, Nat.cast_zero, sub_self, zpow_zero, mul_one]
    rw [Nat.cast_mul, Nat.cast_pow, Nat.cast_ofNat, zpow_toNat nonneg, mul_comm]
  · rename_i negative
    have length := digitCount_pos d.digits
    simp only [digitCount] at length
    split
    · rename_i inside
      have exponent : (0 : Int) - ((Nat.toDigits 10 d.digits).drop
          ((d.exponent + (Nat.toDigits 10 d.digits).length - 1).toNat + 1)).length = d.exponent := by
        rw [List.length_drop]
        omega
      simp only [Numeral.value, Option.getD_some, List.take_append_drop, natOfDigits_toDigits,
        Option.map_none, Option.getD_none, exponent]
    · rename_i outside
      have digits : natOfDigits (['0'] ++ (List.replicate
          (-(d.exponent + (Nat.toDigits 10 d.digits).length - 1) - 1).toNat '0' ++
            Nat.toDigits 10 d.digits)) = d.digits := by
        have zero : Nat.ofDigitChars 10 ['0'] 0 = 0 := rfl
        rw [natOfDigits_eq, Nat.ofDigitChars_append, Nat.ofDigitChars_append, zero,
          Nat.ofDigitChars_replicate_zero, Nat.mul_zero, Nat.ofDigitChars_ten_toDigits]
      have exponent : (0 : Int) - (List.replicate
          (-(d.exponent + (Nat.toDigits 10 d.digits).length - 1) - 1).toNat '0' ++
            Nat.toDigits 10 d.digits).length = d.exponent := by
        rw [List.length_append, List.length_replicate]
        omega
      simp only [Numeral.value, Option.getD_some, digits, Option.map_none, Option.getD_none, exponent]

theorem scientific_toList (d : Decimal) : (scientific d).toList = (scientificNumeral d).text := by
  simp only [scientific, scientificNumeral, Numeral.text, Numeral.powerText, Power.text, digitText]
  split <;> split <;> simp [Numeral.pointText]

theorem scientificNumeral_valid (d : Decimal) : (scientificNumeral d).Valid := by
  have digits := List.all_eq_true.1 (toDigits_isDigit d.digits)
  simp only [scientificNumeral]
  refine ⟨?_, ?_, .inl (by simp), ?_⟩
  · exact List.all_eq_true.2 fun c member => digits c (List.mem_of_mem_take member)
  · split
    · rfl
    · exact List.all_eq_true.2 fun c member => digits c (List.mem_of_mem_drop member)
  · rintro p ⟨⟩
    refine ⟨.inl rfl, ?_, toDigits_isDigit _, Nat.toDigits_ne_nil⟩
    split <;> simp

theorem signedPower_value (power : Int) :
    (⟨'e', [if power < 0 then '-' else '+'], Nat.toDigits 10 power.natAbs⟩ : Power).value = power := by
  simp only [Power.value, natOfDigits_toDigits]
  by_cases below : power < 0
  · rw [if_pos below, if_pos rfl]
    omega
  · rw [if_neg below, if_neg (by decide)]
    omega

theorem scientificNumeral_value (d : Decimal) : (scientificNumeral d).value = d := by
  have length := digitCount_pos d.digits
  simp only [digitCount] at length
  have fraction : (if ((Nat.toDigits 10 d.digits).drop 1).isEmpty then none
      else some ((Nat.toDigits 10 d.digits).drop 1)).getD [] = (Nat.toDigits 10 d.digits).drop 1 := by
    split
    · rename_i empty
      rw [Option.getD_none, List.isEmpty_iff.1 empty]
    · rfl
  simp only [scientificNumeral, Numeral.value, fraction, List.take_append_drop, natOfDigits_toDigits,
    Option.map_some, Option.getD_some, signedPower_value, List.length_drop]
  congr 1
  omega

theorem magnitude_text (layout : Layout) (noPoint : layout.wholePoint = false) {m : Nat} {e : Int}
    (canonical : Canonical m e) (positive : 0 < m) :
    ∃ n : Numeral, n.Valid ∧ (layout.magnitude m e).toList = n.text ∧
      ∀ negative, n.value.toNumber negative = .finite negative m e canonical := by
  have short := toNumber_sign positive (shortest_toNumber layout.tie canonical positive)
  simp only [magnitude]
  split
  · refine ⟨scientificNumeral _, scientificNumeral_valid _, scientific_toList _, fun negative => ?_⟩
    rw [scientificNumeral_value, short]
  · split
    · rename_i whole
      refine ⟨plainNumeral _, plainNumeral_valid _, plain_toList noPoint _, fun negative => ?_⟩
      apply toNumber_of_near negative canonical positive
      have exact : ((scaleDown m 1 (-e)).1 / (scaleDown m 1 (-e)).2 : Nat) =
          ((m : ℚ) * 2 ^ e) := by
        rw [Nat.cast_div (Nat.dvd_of_mod_eq_zero whole.2), scaleDown_ratio, zpow_neg]
        · simp
        · exact_mod_cast (scaleDown_pos m (-e) (by decide : 0 < 1)).ne'
      rw [plainNumeral_value, Decimal.value, zpow_zero, mul_one, exact]
      exact Near.self m e
    · refine ⟨plainNumeral _, plainNumeral_valid _, plain_toList noPoint _, fun negative => ?_⟩
      rw [toNumber_congr negative (plainNumeral_value _), short]

end Layout

namespace Number

/-- The display of a finite number is a numeral of its magnitude, after a sign if it is negative and
no zero. -/
theorem display_text (negative : Bool) {m : Nat} {e : Int} (canonical : Canonical m e) :
    ∃ n : Numeral, n.Valid ∧
      (display (.finite negative m e canonical)).toList =
        (if negative ∧ m ≠ 0 then ['-'] else []) ++ n.text ∧
      ∀ sign, n.value.toNumber sign = .finite sign m e canonical := by
  by_cases zero : m = 0
  · subst zero
    have least : e = -1074 := canonical.2.2.2.resolve_left (by decide)
    subst least
    refine ⟨⟨['0'], none, none⟩, ⟨by decide, by decide, .inl (by simp), by simp⟩, ?_, fun sign => rfl⟩
    simp [display, Layout.finite, displayLayout, Layout.plain, Layout.zeros, Numeral.text,
      Numeral.pointText, Numeral.powerText]
  · obtain ⟨n, valid, text, reads⟩ := Layout.magnitude_text displayLayout rfl canonical
      (Nat.pos_of_ne_zero zero)
    refine ⟨n, valid, ?_, reads⟩
    simp only [display, Layout.finite, zero, if_false]
    cases negative <;> simp [text, zero]

end Number

namespace Numeral

theorem isNumberChar_of_mem {n : Numeral} (valid : n.Valid) :
    ∀ c ∈ n.text, Input.isNumberChar c = true := by
  have digit : ∀ cs : List Char, cs.all Char.isDigit = true →
      ∀ c ∈ cs, Input.isNumberChar c = true := by
    intro cs digits c member
    simp [Input.isNumberChar, List.all_eq_true.1 digits c member]
  intro c member
  simp only [text, List.mem_append] at member
  obtain whole | point | power := member
  · exact digit _ valid.whole c whole
  · cases fraction : n.fraction with
    | none => simp [fraction, pointText] at point
    | some digits =>
      have inside := valid.fraction
      rw [fraction] at inside point
      obtain rfl | behind := List.mem_cons.1 point
      · decide
      · exact digit _ inside c behind
  · cases exponent : n.power with
    | none => simp [exponent, powerText] at power
    | some p =>
      obtain ⟨marked, signed, digits, -⟩ := valid.power p exponent
      rw [exponent] at power
      simp only [powerText, Power.text, List.mem_cons, List.mem_append] at power
      obtain rfl | sign | behind := power
      · rcases marked with mark | mark <;> rw [mark] <;> decide
      · rcases signed with none | plus | minus
        · simp [none] at sign
        · simp only [plus, List.mem_singleton] at sign
          subst sign
          decide
        · simp only [minus, List.mem_singleton] at sign
          subst sign
          decide
      · exact digit _ digits c behind

theorem head_text {n : Numeral} (valid : n.Valid) : ∀ c ∈ n.text.head?, c.isDigit = true ∨ c = '.' := by
  intro c member
  cases whole : n.whole with
  | cons d rest =>
    have digits := valid.whole
    rw [whole, List.all_cons, Bool.and_eq_true] at digits
    simp only [text, whole, List.cons_append, List.head?_cons, Option.mem_some_iff] at member
    exact .inl (member ▸ digits.1)
  | nil =>
    cases point : n.fraction with
    | none => exact absurd valid.some (by simp [whole, point])
    | some digits =>
      simp only [text, whole, point, pointText, List.nil_append, List.cons_append, List.head?_cons,
        Option.mem_some_iff] at member
      exact .inr member.symm

theorem closed_nil (n : Numeral) : n.Closed [] := by
  intro c member
  simp at member

theorem scan_text_nil {n : Numeral} (valid : n.Valid) : Decimal.scan n.text = some (n.value, []) := by
  have scanned := scan_text valid n.closed_nil
  rwa [List.append_nil] at scanned

theorem ofText?_text {n : Numeral} (valid : n.Valid) : Decimal.ofText? n.text = some n.value := by
  rw [ofText?, scan_text_nil valid]

/-- A source reads a numeral as its number: it is not taken for hexadecimal digits. -/
theorem scanNumber_text {n : Numeral} (valid : n.Valid) :
    Token.scanNumber n.text = some (n.value.toNumber false, n.text.length) := by
  have decimal : Token.hexDigits n.text = [] := by
    unfold Token.hexDigits
    split
    · rename_i rest shape
      exact absurd (isNumberChar_of_mem valid 'x' (by simp [shape])) (by decide)
    · rename_i rest shape
      exact absurd (isNumberChar_of_mem valid 'X' (by simp [shape])) (by decide)
    · rfl
  simp [Token.scanNumber, decimal, scan_text_nil valid]

end Numeral

namespace Text

theorem trimChars_of_solid {cs : List Char} (solid : ∀ c ∈ cs, isBlank c = false) :
    trimChars cs = cs := by
  have kept : ∀ ds : List Char, (∀ c ∈ ds, isBlank c = false) → dropBlank ds = ds := by
    intro ds inside
    cases ds with
    | nil => rfl
    | cons d rest => simp [dropBlank, inside d (by simp)]
  rw [trimChars, kept cs solid, kept _ (by simpa using solid), List.reverse_reverse]

theorem isBlank_of_isNumberChar {c : Char} (number : Input.isNumberChar c = true) :
    isBlank c = false := by
  simp only [Input.isNumberChar, Bool.or_eq_true, beq_iff_eq] at number
  obtain ((((digit | rfl) | rfl) | rfl) | rfl) | rfl := number
  · simp only [Char.isDigit, ge_iff_le, Bool.and_eq_true, decide_eq_true_eq] at digit
    have low : 48 ≤ c.toNat := digit.1
    have high : c.toNat ≤ 57 := digit.2
    simp only [isBlank, inRanges, blankRanges, List.any_cons, List.any_nil, Bool.or_false,
      Bool.or_eq_false_iff, Bool.and_eq_false_iff, decide_eq_false_iff_not]
    omega
  all_goals decide

end Text

namespace Number

theorem agrees_unsigned (negative : Bool) {m : Nat} {e : Int} (canonical : Canonical m e) :
    (finite negative m e canonical).agrees (finite (negative && m != 0) m e canonical) = true := by
  by_cases zero : m = 0
  · cases negative <;> simp [agrees, units?, zero]
  · have kept : (negative && m != 0) = negative := by simp [zero]
    simp [agrees, units?, kept]

end Number

namespace Input

theorem bufferNumber?_display (negative : Bool) {m : Nat} {e : Int} (canonical : Canonical m e) :
    bufferNumber? (Number.display (.finite negative m e canonical)) =
      some (.finite (negative && m != 0) m e canonical) := by
  obtain ⟨n, valid, shown, reads⟩ := Number.display_text negative canonical
  have chars := Numeral.isNumberChar_of_mem valid
  have solid : ∀ c ∈ (Number.display (.finite negative m e canonical)).toList,
      Text.isBlank c = false := by
    rw [shown]
    intro c member
    obtain sign | inside := List.mem_append.1 member
    · have minus : c = '-' := by
        split at sign
        · exact List.mem_singleton.1 sign
        · exact absurd sign List.not_mem_nil
      subst minus
      decide
    · exact Text.isBlank_of_isNumberChar (chars c inside)
  rw [bufferNumber?, Text.trimChars_of_solid solid, shown]
  by_cases signed : negative = true ∧ m ≠ 0
  · simp [signedNumber?, signed.1, signed.2, Numeral.ofText?_text valid, reads, Number.isFinite]
  · have positive : (negative && m != 0) = false := by simpa using signed
    obtain ⟨c, cs, shape⟩ := List.exists_cons_of_ne_nil (Numeral.text_ne_nil valid)
    have head := Numeral.head_text valid c (by simp [shape])
    have notMinus : c ≠ '-' := by rintro rfl; exact absurd head (by decide)
    have notPlus : c ≠ '+' := by rintro rfl; exact absurd head (by decide)
    have read := Numeral.ofText?_text valid
    rw [shape] at read
    rw [if_neg signed, List.nil_append, shape]
    simp [signedNumber?, notMinus, notPlus, read, reads, Number.isFinite, positive]

end Input

end Arborist

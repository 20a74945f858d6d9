import Mathlib
import Arborist.Source.Token

/-!
The shape of numerals. A numeral is its whole digits, an optional fraction and an optional exponent;
its text is what `Decimal.scan` takes off the head of a source, and its value is what the scan
answers. Both directions are proved, so that a text that was read once is read the same again
wherever nothing behind it can be taken into it.
-/

namespace Arborist

open Decimal

structure Power where
  mark : Char
  sign : List Char
  digits : List Char

namespace Power

def text (p : Power) : List Char := p.mark :: (p.sign ++ p.digits)

def value (p : Power) : Int :=
  if p.sign = ['-'] then -(natOfDigits p.digits : Int) else natOfDigits p.digits

structure Valid (p : Power) : Prop where
  mark : p.mark = 'e' ∨ p.mark = 'E'
  sign : p.sign = [] ∨ p.sign = ['+'] ∨ p.sign = ['-']
  digits : p.digits.all Char.isDigit = true
  some : p.digits ≠ []

end Power

/-- A numeral as it is spelled. The fraction, where there is one, stands without its point. -/
structure Numeral where
  whole : List Char
  fraction : Option (List Char)
  power : Option Power

namespace Numeral

def pointText : Option (List Char) → List Char
  | none => []
  | some digits => '.' :: digits

def powerText : Option Power → List Char
  | none => []
  | some p => p.text

def text (n : Numeral) : List Char := n.whole ++ (pointText n.fraction ++ powerText n.power)

def value (n : Numeral) : Decimal :=
  ⟨natOfDigits (n.whole ++ n.fraction.getD []),
    (n.power.map Power.value).getD 0 - (n.fraction.getD []).length⟩

structure Valid (n : Numeral) : Prop where
  whole : n.whole.all Char.isDigit = true
  fraction : (n.fraction.getD []).all Char.isDigit = true
  some : n.whole ≠ [] ∨ n.fraction.getD [] ≠ []
  power : ∀ p ∈ n.power, p.Valid

/-- Nothing at the head of `after` could be taken into the numeral. -/
def Closed (n : Numeral) (after : List Char) : Prop :=
  ∀ c ∈ after.head?, c.isDigit = false ∧ (n.power = none → c ≠ 'e' ∧ c ≠ 'E') ∧
    (n.fraction = none → n.power = none → c ≠ '.')

end Numeral

theorem takeWhile_append_stop {α : Type} {p : α → Bool} {front after : List α}
    (inside : front.all p = true) (stop : ∀ c ∈ after.head?, p c = false) :
    (front ++ after).takeWhile p = front ∧ (front ++ after).dropWhile p = after := by
  have members : ∀ c ∈ front, p c = true := List.all_eq_true.mp inside
  rw [List.takeWhile_append_of_pos members, List.dropWhile_append_of_pos members]
  cases after with
  | nil => simp
  | cons c rest =>
    have outside : p c = false := stop c (by simp)
    simp [outside]

theorem head_dropWhile {α : Type} (p : α → Bool) (cs : List α) :
    ∀ c ∈ (cs.dropWhile p).head?, p c = false := by
  intro c member
  induction cs with
  | nil => simp at member
  | cons d rest ih =>
    rw [List.dropWhile_cons] at member
    split at member
    · exact ih member
    · rename_i outside
      simp only [List.head?_cons, Option.mem_some_iff] at member
      subst member
      simpa using outside

namespace Power

theorem text_ne_digit {p : Power} (valid : p.Valid) :
    ∀ c ∈ p.text.head?, c.isDigit = false ∧ c ≠ '.' := by
  intro c member
  simp only [text, List.head?_cons, Option.mem_some_iff] at member
  subst member
  rcases valid.mark with mark | mark <;> rw [mark] <;> decide

theorem scanExponent_text {p : Power} (valid : p.Valid) {after : List Char}
    (stop : ∀ c ∈ after.head?, c.isDigit = false) :
    scanExponent (p.text ++ after) = some (p.value, after) := by
  obtain ⟨mark, sign, digits⟩ := p
  obtain ⟨marked, signed, isDigits, nonempty⟩ := valid
  simp only at marked signed isDigits nonempty
  obtain ⟨taken, dropped⟩ := takeWhile_append_stop isDigits stop
  have isMark : (mark == 'e' || mark == 'E') = true := by
    rcases marked with rfl | rfl <;> decide
  have notEmpty : digits.isEmpty = false := by simpa using nonempty
  rcases signed with rfl | rfl | rfl
  · obtain ⟨first, rest, rfl⟩ := List.exists_cons_of_ne_nil nonempty
    have firstDigit : first.isDigit = true := by
      simp only [List.all_cons, Bool.and_eq_true] at isDigits
      exact isDigits.1
    have notMinus : first ≠ '-' := by rintro rfl; exact absurd firstDigit (by decide)
    have notPlus : first ≠ '+' := by rintro rfl; exact absurd firstDigit (by decide)
    simp only [List.cons_append] at taken dropped
    simp [text, value, scanExponent, isMark, notMinus, notPlus, taken, dropped]
  · simp only [text, value, scanExponent, List.cons_append, List.nil_append, isMark, if_true,
      taken, dropped, notEmpty]
    simp
  · simp only [text, value, scanExponent, List.cons_append, List.nil_append, isMark, if_true,
      taken, dropped, notEmpty]
    simp

theorem exists_of_digits {mark : Char} {more rest : List Char} {k : Int} (sign : List Char)
    (negative : Bool) (marked : mark = 'e' ∨ mark = 'E') (signed : sign = [] ∨ sign = ['+'] ∨ sign = ['-'])
    (same : negative = true ↔ sign = ['-'])
    (h : (if (more.takeWhile Char.isDigit).isEmpty then none
      else some (if negative then -(natOfDigits (more.takeWhile Char.isDigit) : Int)
        else natOfDigits (more.takeWhile Char.isDigit), more.dropWhile Char.isDigit)) =
      some (k, rest)) :
    ∃ p : Power, p.Valid ∧ mark :: (sign ++ more) = p.text ++ rest ∧ k = p.value ∧
      ∀ c ∈ rest.head?, c.isDigit = false := by
  split at h
  · exact absurd h (by simp)
  · rename_i nonempty
    simp only [Option.some.injEq, Prod.mk.injEq] at h
    obtain ⟨rfl, rfl⟩ := h
    refine ⟨⟨mark, sign, more.takeWhile Char.isDigit⟩, ⟨marked, signed, ?_, ?_⟩, ?_, ?_,
      head_dropWhile _ _⟩
    · exact List.all_takeWhile
    · intro empty
      exact nonempty (by simpa using empty)
    · simp [text]
    · simp only [value, same]

theorem exists_of_scanExponent {cs rest : List Char} {k : Int}
    (h : scanExponent cs = some (k, rest)) :
    ∃ p : Power, p.Valid ∧ cs = p.text ++ rest ∧ k = p.value ∧
      ∀ c ∈ rest.head?, c.isDigit = false := by
  cases cs with
  | nil => simp [scanExponent] at h
  | cons mark body =>
    simp only [scanExponent] at h
    split at h
    · rename_i isMark
      have marked : mark = 'e' ∨ mark = 'E' := by simpa using isMark
      split at h
      · exact exists_of_digits ['-'] true marked (by simp) (by simp) h
      · exact exists_of_digits ['+'] false marked (by simp) (by simp) h
      · exact exists_of_digits [] false marked (by simp) (by simp) h
    · exact absurd h (by simp)

end Power

namespace Numeral

theorem powerText_head {power : Option Power} (valid : ∀ p ∈ power, p.Valid) {after : List Char}
    (stop : ∀ c ∈ after.head?, c.isDigit = false)
    (noPoint : power = none → ∀ c ∈ after.head?, c ≠ '.') :
    ∀ c ∈ (powerText power ++ after).head?, c.isDigit = false ∧ c ≠ '.' := by
  cases power with
  | none =>
    intro c member
    exact ⟨stop c member, noPoint rfl c member⟩
  | some p =>
    intro c member
    exact Power.text_ne_digit (valid p rfl) c (by simpa [powerText, Power.text] using member)

theorem scanExponent_powerText {power : Option Power} (valid : ∀ p ∈ power, p.Valid)
    {after : List Char} (stop : ∀ c ∈ after.head?, c.isDigit = false)
    (noMark : power = none → ∀ c ∈ after.head?, c ≠ 'e' ∧ c ≠ 'E') :
    (scanExponent (powerText power ++ after)).getD (0, powerText power ++ after) =
      ((power.map Power.value).getD 0, after) := by
  cases power with
  | none =>
    cases after with
    | nil => simp [powerText, scanExponent]
    | cons c rest =>
      have other := noMark rfl c (by simp)
      simp [powerText, scanExponent, other.1, other.2]
  | some p => simp [powerText, Power.scanExponent_text (valid p rfl) stop]

/-- A valid numeral is read off in front of anything that cannot be taken into it. -/
theorem scan_text {n : Numeral} (valid : n.Valid) {after : List Char} (closed : n.Closed after) :
    Decimal.scan (n.text ++ after) = some (n.value, after) := by
  obtain ⟨whole, fraction, power⟩ := n
  obtain ⟨wholeDigits, fractionDigits, nonempty, validPower⟩ := valid
  simp only at wholeDigits fractionDigits nonempty validPower
  have stop : ∀ c ∈ after.head?, c.isDigit = false := fun c member => (closed c member).1
  have exponent := scanExponent_powerText validPower stop
    fun none c member => (closed c member).2.1 none
  cases fraction with
  | none =>
    have head := powerText_head validPower stop
      fun none c member => (closed c member).2.2 rfl none
    obtain ⟨taken, dropped⟩ := takeWhile_append_stop wholeDigits fun c member => (head c member).1
    have wholeText : whole ++ (pointText none ++ powerText power) ++ after =
        whole ++ (powerText power ++ after) := by simp [pointText]
    have notEmpty : whole.isEmpty = false := by simpa using nonempty
    simp only [text, wholeText, Decimal.scan, taken, dropped]
    split
    · rename_i point
      exact absurd rfl ((head '.' (by rw [point]; rfl)).2)
    · simp only [exponent, value, notEmpty]
      simp
  | some digits =>
    have point : ∀ c ∈ ('.' :: (digits ++ (powerText power ++ after))).head?, c.isDigit = false := by
      simp
    obtain ⟨wholeTaken, wholeDropped⟩ := takeWhile_append_stop wholeDigits point
    have head : ∀ c ∈ (powerText power ++ after).head?, c.isDigit = false := by
      cases power with
      | none => exact stop
      | some p =>
        intro c member
        exact (Power.text_ne_digit (validPower p rfl) c
          (by simpa [powerText, Power.text] using member)).1
    obtain ⟨taken, dropped⟩ := takeWhile_append_stop fractionDigits head
    have wholeText : whole ++ (pointText (some digits) ++ powerText power) ++ after =
        whole ++ '.' :: (digits ++ (powerText power ++ after)) := by simp [pointText]
    simp only [Option.getD_some] at taken dropped nonempty
    have notEmpty : (whole.isEmpty && digits.isEmpty) = false := by
      rcases nonempty with some | some
      · simp [some]
      · simp [some]
    simp only [text, wholeText, Decimal.scan, wholeTaken, wholeDropped, taken, dropped, notEmpty,
      exponent, value]
    simp

theorem exists_of_scan {cs rest : List Char} {d : Decimal} (h : Decimal.scan cs = some (d, rest)) :
    ∃ n : Numeral, n.Valid ∧ cs = n.text ++ rest ∧ d = n.value := by
  have wholeText : cs = cs.takeWhile Char.isDigit ++ cs.dropWhile Char.isDigit := by simp
  have wholeDigits : (cs.takeWhile Char.isDigit).all Char.isDigit = true := List.all_takeWhile
  simp only [Decimal.scan] at h
  generalize cs.takeWhile Char.isDigit = whole at h wholeText wholeDigits
  generalize cs.dropWhile Char.isDigit = afterWhole at h wholeText
  subst wholeText
  obtain ⟨fraction, afterFraction, textEq, digits, read⟩ : ∃ fraction afterFraction,
      afterWhole = pointText fraction ++ afterFraction ∧
      (fraction.getD []).all Char.isDigit = true ∧
      (if whole.isEmpty && (fraction.getD []).isEmpty then none
        else some ((⟨natOfDigits (whole ++ fraction.getD []),
          ((scanExponent afterFraction).getD (0, afterFraction)).1 -
            (fraction.getD []).length⟩ : Decimal),
          ((scanExponent afterFraction).getD (0, afterFraction)).2)) = some (d, rest) := by
    split at h
    · rename_i more
      exact ⟨some (more.takeWhile Char.isDigit), more.dropWhile Char.isDigit, by simp [pointText],
        List.all_takeWhile, h⟩
    · exact ⟨none, afterWhole, by simp [pointText], rfl, h⟩
  clear h
  subst textEq
  split at read
  · exact absurd read (by simp)
  · rename_i nonempty
    have digit : whole ≠ [] ∨ fraction.getD [] ≠ [] := by
      by_contra neither
      simp only [ne_eq, not_or, not_not] at neither
      exact nonempty (by simp [neither.1, neither.2])
    simp only [Option.some.injEq, Prod.mk.injEq] at read
    obtain ⟨rfl, rfl⟩ := read
    cases exponent : scanExponent afterFraction with
    | none =>
      exact ⟨⟨whole, fraction, none⟩, ⟨wholeDigits, digits, digit, by simp⟩,
        by simp [text, powerText], by simp [value]⟩
    | some result =>
      obtain ⟨k, after⟩ := result
      obtain ⟨p, valid, rfl, rfl, -⟩ := Power.exists_of_scanExponent exponent
      exact ⟨⟨whole, fraction, some p⟩, ⟨wholeDigits, digits, digit, by simpa using valid⟩,
        by simp [text, powerText], by simp [value]⟩

theorem text_ne_nil {n : Numeral} (valid : n.Valid) : n.text ≠ [] := by
  rcases valid.some with whole | fraction
  · simp [text, whole]
  · cases point : n.fraction with
    | none => simp [point] at fraction
    | some digits => simp [text, point, pointText]

theorem closed_of_not_wordPart {n : Numeral} {after : List Char}
    (stop : ∀ c ∈ after.head?, Token.isWordPart c = false ∧
      (c = '.' → n.text.all Char.isDigit = false)) (valid : n.Valid) : n.Closed after := by
  intro c member
  obtain ⟨notPart, point⟩ := stop c member
  refine ⟨?_, fun _ => ⟨?_, ?_⟩, ?_⟩
  · simp only [Token.isWordPart, Char.isAlphanum, Bool.or_eq_false_iff] at notPart
    exact notPart.1.1.2
  · rintro rfl
    exact absurd notPart (by decide)
  · rintro rfl
    exact absurd notPart (by decide)
  · intro noFraction noPower isPoint
    have digits : n.text.all Char.isDigit = true := by
      simpa [text, noFraction, noPower, pointText, powerText] using valid.whole
    rw [point isPoint] at digits
    exact absurd digits (by decide)

end Numeral

end Arborist

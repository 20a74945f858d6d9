import Mathlib
import Arborist.Proofs.Number.Digits
import Arborist.Proofs.Number.Display

/-!
The forms of displayed numbers. A display is plain from `1e-6` up to `1e21` and has an exponent
elsewhere, without a zero that says nothing in either form. Its digits are the shortest ones that
are read as the number, but whole numbers in plain notation show all of their digits. Below 2^53
that is the same.
-/

namespace Arborist

open Decimal

namespace Numeral

def Leads (digits : List Char) : Prop :=
  digits = ['0'] ∨ ∃ c, digits.head? = some c ∧ c ≠ '0'

structure Trim (n : Numeral) : Prop where
  whole : Leads n.whole
  fraction : ∀ digits ∈ n.fraction, ∃ c, digits.getLast? = some c ∧ c ≠ '0'

def Plain (x : ℚ) (text : List Char) : Prop :=
  ∃ n : Numeral, n.Valid ∧ n.Trim ∧ n.power = none ∧ n.value.value = x ∧ text = n.text

def Scientific (x : ℚ) (text : List Char) : Prop :=
  ∃ (n : Numeral) (p : Power), n.Valid ∧ n.Trim ∧ n.power = some p ∧ n.value.value = x ∧
    text = n.text ∧ n.whole.length = 1 ∧ n.whole ≠ ['0'] ∧
    p.mark = 'e' ∧ p.sign = [if p.value < 0 then '-' else '+'] ∧ Leads p.digits

theorem Plain.unique {x y : ℚ} {text : List Char} (first : Plain x text) (second : Plain y text) :
    x = y := by
  obtain ⟨n, valid, -, -, rfl, rfl⟩ := first
  obtain ⟨k, other, -, -, rfl, same⟩ := second
  have read := scan_text_nil valid
  rw [same, scan_text_nil other] at read
  simp only [Option.some.injEq, Prod.mk.injEq, and_true] at read
  rw [read]

end Numeral

section Digits

theorem head_toDigits {n : Nat} (positive : 0 < n) :
    ∃ c, (Nat.toDigits 10 n).head? = some c ∧ c ≠ '0' := by
  induction n using Nat.strongRecOn with
  | ind n ih =>
    rw [Nat.toDigits_eq_if (by decide)]
    split
    · exact ⟨_, rfl, by rw [ne_eq, Nat.digitChar_eq_zero]; omega⟩
    · obtain ⟨c, head, some⟩ := ih (n / 10) (by omega) (by omega)
      exact ⟨c, by rw [List.head?_append, head, Option.some_or], some⟩

theorem getLast_toDigits {n : Nat} (normal : n % 10 ≠ 0) :
    ∃ c, (Nat.toDigits 10 n).getLast? = some c ∧ c ≠ '0' := by
  refine ⟨(n % 10).digitChar, ?_, by rwa [ne_eq, Nat.digitChar_eq_zero]⟩
  rw [Nat.toDigits_eq_if (by decide)]
  split
  · rename_i small
    rw [Nat.mod_eq_of_lt small]
    rfl
  · rw [List.getLast?_append]
    rfl

theorem leads_toDigits (n : Nat) : Numeral.Leads (Nat.toDigits 10 n) := by
  rcases Nat.eq_zero_or_pos n with rfl | positive
  · exact .inl rfl
  · exact .inr (head_toDigits positive)

end Digits

namespace Layout

theorem plain_plainNumeral {d : Decimal} (nonzero : d.digits ≠ 0)
    (normal : 0 ≤ d.exponent ∨ d.digits % 10 ≠ 0) :
    Numeral.Plain d.value (plainNumeral d).text := by
  have head := head_toDigits (Nat.pos_of_ne_zero nonzero)
  have some : Nat.toDigits 10 d.digits ≠ [] := Nat.toDigits_ne_nil
  refine ⟨_, plainNumeral_valid d, ?_, ?_, plainNumeral_value d, rfl⟩
  · simp only [plainNumeral]
    split
    · refine ⟨.inr ?_, by simp⟩
      obtain ⟨c, first, notZero⟩ := head
      exact ⟨c, by rw [List.head?_append, first, Option.some_or], notZero⟩
    · rename_i negative
      obtain ⟨last, ends, notZero⟩ := getLast_toDigits (normal.resolve_left negative)
      split
      · rename_i inside
        refine ⟨.inr ?_, ?_⟩
        · obtain ⟨c, first, notZero⟩ := head
          exact ⟨c, by rw [List.head?_take, if_neg (by omega), first], notZero⟩
        · rintro digits ⟨⟩
          exact ⟨last, by rw [List.getLast?_drop, if_neg (by omega), ends], notZero⟩
      · refine ⟨.inl rfl, ?_⟩
        rintro digits ⟨⟩
        exact ⟨last, by rw [List.getLast?_append, ends, Option.some_or], notZero⟩
  · simp only [plainNumeral]
    split
    · rfl
    · split <;> rfl

theorem scientific_scientificNumeral {d : Decimal} (normal : d.digits % 10 ≠ 0) :
    Numeral.Scientific d.value (scientificNumeral d).text := by
  obtain ⟨c, first, notZero⟩ := head_toDigits (show 0 < d.digits by omega)
  obtain ⟨last, ends, notLast⟩ := getLast_toDigits normal
  have value : (scientificNumeral d).value.value = d.value := by rw [scientificNumeral_value]
  obtain ⟨rest, digits⟩ : ∃ rest, Nat.toDigits 10 d.digits = c :: rest := by
    cases shape : Nat.toDigits 10 d.digits with
    | nil => simp [shape] at first
    | cons head rest =>
      rw [shape, List.head?_cons, Option.some.injEq] at first
      exact ⟨rest, by rw [first]⟩
  refine ⟨scientificNumeral d, _, scientificNumeral_valid d, ⟨?_, ?_⟩, rfl, value, rfl, ?_, ?_, rfl,
    ?_, leads_toDigits _⟩
  · exact .inr ⟨c, by simp [scientificNumeral, digits], notZero⟩
  · intro fraction member
    rw [digits] at ends
    simp only [scientificNumeral, digits, List.drop_one, List.tail_cons] at member
    split at member
    · simp at member
    · rename_i some
      obtain rfl : rest = fraction := by simpa using member
      refine ⟨last, ?_, notLast⟩
      rwa [List.getLast?_cons_of_ne_nil (by simpa using some)] at ends
  · simp [scientificNumeral, digits]
  · simpa [scientificNumeral, digits] using notZero
  · rw [signedPower_value]

end Layout

section Window

variable {m k : Nat} {e f : Int} {other : Canonical k f}

/-- A number lies below a power of ten as a number exactly when its shortest digits lie below that
power, provided that these are the shortest digits of that number. -/
theorem scale_le_iff {tie : Tie} (positive : 0 < m) (canonical : Canonical m e) {power : Int}
    (boundary : Rounds (10 ^ power) (.finite false k f other))
    (own : shortest tie k f = ⟨1, power⟩) :
    (shortest tie m e).scale ≤ power ↔ (m : ℚ) * 2 ^ e < k * 2 ^ f := by
  have reads := (shortest_spec positive tie canonical).reads
  obtain ⟨low, high⟩ := value_bounds (digits_ne_zero positive reads)
  have value : (⟨1, power⟩ : Decimal).value = 10 ^ power := by rw [Decimal.value, Nat.cast_one, one_mul]
  constructor
  · intro le
    have below : (shortest tie m e).value < 10 ^ power :=
      high.trans_le (zpow_le_zpow_right₀ (by norm_num) le)
    refine lt_of_le_of_ne (reads.mono below.le boundary) fun same => ?_
    obtain ⟨rfl, rfl⟩ := canonical.inj other same
    rw [own, value] at below
    exact lt_irrefl _ below
  · intro less
    by_contra more
    have above : (10 : ℚ) ^ power ≤ (shortest tie m e).value :=
      (zpow_le_zpow_right₀ (by norm_num) (by omega)).trans low
    exact absurd (boundary.mono above reads) (not_le.2 less)

/-- Not below the number that `1e-6` is read as, and below `1e21`, which is a number itself. -/
def InWindow (x : ℚ) : Prop :=
  (∀ k f, ∀ least : Canonical k f, Rounds (10 ^ (-6 : Int)) (.finite false k f least) →
    (k : ℚ) * 2 ^ f ≤ x) ∧ x < 10 ^ 21

theorem canonical_lower : Canonical 4722366482869645 (-72) := by decide

theorem canonical_upper : Canonical 7629394531250000 17 := by decide

theorem rounds_lower : Rounds (10 ^ (-6 : Int)) (.finite false 4722366482869645 (-72) canonical_lower) := by
  have read : (⟨1, -6⟩ : Decimal).toNumber false =
      .finite false 4722366482869645 (-72) canonical_lower := by decide +kernel
  have rounds := (⟨1, -6⟩ : Decimal).toNumber_rounds
  rwa [read, Decimal.value, Nat.cast_one, one_mul] at rounds

theorem upper_value : ((7629394531250000 : Nat) : ℚ) * 2 ^ (17 : Int) = 10 ^ (21 : Int) := by norm_num

theorem inWindow_iff (positive : 0 < m) (canonical : Canonical m e) :
    InWindow (m * 2 ^ e) ↔
      ¬((shortest .away m e).scale ≤ -6 ∨ ¬(shortest .away m e).scale ≤ 21) := by
  have least : shortest .away 4722366482869645 (-72) = ⟨1, -6⟩ := by decide +kernel
  have most : shortest .away 7629394531250000 17 = ⟨1, 21⟩ := by decide +kernel
  have lower := scale_le_iff positive canonical rounds_lower least
  have upper := scale_le_iff positive canonical (upper_value ▸ Rounds.self canonical_upper) most
  have top : (10 : ℚ) ^ (21 : Int) = 10 ^ 21 := by norm_cast
  rw [lower, upper, upper_value, top, InWindow, not_or, not_lt, not_not]
  refine and_congr_left' ⟨fun above => above _ _ _ rounds_lower, fun above k f least rounds => ?_⟩
  exact (rounds.mono le_rfl rounds_lower).trans above

end Window

section Whole

variable {m : Nat} {e : Int} {canonical : Canonical m e}

theorem whole_pos (positive : 0 < m) {z : Nat} (whole : (z : ℚ) = m * 2 ^ e) : 0 < z := by
  have magnitude := magnitude_pos positive e
  rw [← whole] at magnitude
  exact_mod_cast magnitude

theorem eq_of_rounds_nat {w : Nat} (rounds : Rounds w (.finite false m e canonical))
    (small : (m : ℚ) * 2 ^ e < 2 ^ 53) : (m : ℚ) * 2 ^ e = w := by
  have exact {k : Nat} {f : Int} (other : Canonical k f) (value : (k : ℚ) * 2 ^ f = w) :
      (m : ℚ) * 2 ^ e = w := by
    have self := value ▸ Rounds.self other
    rw [← value]
    exact le_antisymm (rounds.mono le_rfl self) (self.mono le_rfl rounds)
  have inside : w < twoTo 53 := by
    by_contra large
    have full : Canonical (twoTo 52) 1 := by decide
    have value : ((twoTo 52 : Nat) : ℚ) * 2 ^ (1 : Int) = (twoTo 53 : Nat) := by
      rw [cast_twoTo, cast_twoTo]
      norm_num
    have le : ((twoTo 52 : Nat) : ℚ) * 2 ^ (1 : Int) ≤ w := by
      rw [value]
      exact_mod_cast not_lt.1 large
    have more := (Rounds.self full).mono le rounds
    rw [value, cast_twoTo] at more
    linarith
  rcases eq_or_ne w 0 with rfl | some
  · exact exact Number.canonical_zero (by simp)
  · obtain ⟨spare, -, other⟩ := Canonical.exists_of_lt some inside
    exact exact other (shifted_value w spare)

theorem Decimal.Shortest.value_of_whole {d : Decimal} (short : d.Shortest canonical)
    (positive : 0 < m) {z : Nat} (whole : (z : ℚ) = m * 2 ^ e) (small : z < 2 ^ 53) :
    d.value = z := by
  have small : (m : ℚ) * 2 ^ e < 2 ^ 53 := by
    rw [← whole]
    exact_mod_cast small
  rcases le_or_gt 0 d.exponent with nonneg | negative
  · have value : d.value = (d.digits * 10 ^ d.exponent.toNat : Nat) := by
      rw [Decimal.value, Nat.cast_mul, Nat.cast_pow, Nat.cast_ofNat, zpow_toNat nonneg]
    have same := eq_of_rounds_nat (value ▸ short.reads) small
    rw [value, whole, same]
  · -- With a fraction the digits would lie below the power of ten of the leading digit.
    have count := short.least ⟨z, 0⟩ (by
      rw [Decimal.value, zpow_zero, mul_one, whole]
      exact .self canonical)
    have size := digitCount_pos z
    have power : ((10 ^ (digitCount z - 1) : Nat) : ℚ) = 10 ^ ((digitCount z - 1 : Nat) : Int) := by
      rw [Nat.cast_pow, Nat.cast_ofNat, zpow_natCast]
    have above : d.value ≤ (10 ^ (digitCount z - 1) : Nat) := by
      rw [power]
      refine (value_bounds (digits_ne_zero positive short.reads)).2.le.trans
        (zpow_le_zpow_right₀ (by norm_num) ?_)
      rw [scale]
      simp only at count
      omega
    have below : ((10 ^ (digitCount z - 1) : Nat) : ℚ) ≤ m * 2 ^ e := by
      rw [← whole]
      exact_mod_cast pow_digitCount_le (whole_pos positive whole)
    have reads := short.reads.between (.self canonical) above below
    have same := eq_of_rounds_nat reads small
    have single : (⟨1, (digitCount z - 1 : Nat)⟩ : Decimal).value = m * 2 ^ e := by
      rw [Decimal.value, Nat.cast_one, one_mul, same, power]
    have self : Rounds (⟨1, (digitCount z - 1 : Nat)⟩ : Decimal).value (.finite false m e canonical) :=
      single ▸ Rounds.self canonical
    have one : digitCount 1 = 1 := rfl
    have few := short.least _ self
    have some := digitCount_pos d.digits
    have near := short.nearest _ self (by simp only at few ⊢; omega)
    rw [single, sub_self, abs_zero] at near
    rw [whole]
    linarith [abs_nonpos_iff.1 near]

theorem exact_mod_iff (positive : 0 < m) :
    (scaleDown m 1 (-e)).1 % (scaleDown m 1 (-e)).2 = 0 ↔ ∃ z : Nat, (z : ℚ) = m * 2 ^ e := by
  obtain ⟨-, pos⟩ := exact_pos positive e
  have bottom : ((scaleDown m 1 (-e)).2 : ℚ) ≠ 0 := by exact_mod_cast pos.ne'
  rw [← exact_ratio, ← Nat.dvd_iff_mod_eq_zero]
  constructor
  · intro divides
    exact ⟨_, Nat.cast_div divides bottom⟩
  · rintro ⟨z, quotient⟩
    rw [eq_div_iff bottom] at quotient
    exact ⟨z, by rw [Nat.mul_comm]; exact_mod_cast quotient.symm⟩

end Whole

def LaidOut (d : Decimal) (x : ℚ) (text : List Char) : Prop :=
  (InWindow x → Numeral.Plain d.value text) ∧ (¬InWindow x → Numeral.Scientific d.value text)

/-- The text of a magnitude lays out its shortest digits, unless it is a whole number in the window:
then the text is plain and shows all of its digits. -/
theorem magnitude_laidOut {m : Nat} {e : Int} (canonical : Canonical m e) (positive : 0 < m) :
    let text := (Number.displayLayout.magnitude m e).toList
    (InWindow (m * 2 ^ e) → ∀ z : Nat, (z : ℚ) = m * 2 ^ e → Numeral.Plain z text) ∧
      ((InWindow (m * 2 ^ e) → ∀ z : Nat, (z : ℚ) ≠ m * 2 ^ e) →
        LaidOut (shortest .away m e) (m * 2 ^ e) text) := by
  have short := shortest_spec positive .away canonical
  have nonzero := digits_ne_zero positive short.reads
  have window := inWindow_iff positive canonical
  have whole := exact_mod_iff (e := e) positive
  simp only [Layout.magnitude, Number.displayLayout]
  split
  · rename_i outside
    have outside : ¬InWindow (m * 2 ^ e) := by
      rw [window, scale]
      omega
    refine ⟨fun inside => absurd inside outside, fun _ => ⟨fun inside => absurd inside outside, ?_⟩⟩
    intro _
    rw [Layout.scientific_toList]
    exact Layout.scientific_scientificNumeral short.normal
  · rename_i inside
    have inside : InWindow (m * 2 ^ e) := by
      rw [window, scale]
      omega
    split
    · rename_i divides
      obtain ⟨z, value⟩ := whole.1 divides.2
      refine ⟨fun _ y same => ?_, fun broken => absurd value (broken inside z)⟩
      obtain rfl : z = y := by exact_mod_cast value.trans same.symm
      have quotient : (scaleDown m 1 (-e)).1 / (scaleDown m 1 (-e)).2 = z := by
        have bottom : ((scaleDown m 1 (-e)).2 : ℚ) ≠ 0 := by
          exact_mod_cast (exact_pos positive e).2.ne'
        have ratio := (exact_ratio m e).trans value.symm
        rw [← Nat.cast_div (Nat.dvd_of_mod_eq_zero divides.2) bottom] at ratio
        exact_mod_cast ratio
      have plain := Layout.plain_plainNumeral (d := ⟨z, 0⟩) (whole_pos positive value).ne'
        (.inl le_rfl)
      rw [Layout.plain_toList rfl, quotient]
      rwa [Decimal.value, zpow_zero, mul_one] at plain
    · rename_i broken
      have broken : ∀ z : Nat, (z : ℚ) ≠ m * 2 ^ e := fun z value =>
        broken ⟨trivial, whole.2 ⟨z, value⟩⟩
      refine ⟨fun _ z value => absurd value (broken z), fun _ => ⟨fun _ => ?_, fun no => absurd inside no⟩⟩
      rw [Layout.plain_toList rfl]
      exact Layout.plain_plainNumeral nonzero (.inr short.normal)

/-- The display of a number is its sign and its shortest digits, plain in the window and with an
exponent elsewhere. Whole numbers in the window are the exception: they show all of their digits,
which are the shortest ones below 2^53 but not always above. -/
theorem display_shortest_iff (negative : Bool) {m : Nat} {e : Int} (canonical : Canonical m e)
    (positive : 0 < m) :
    ∃ (d : Decimal) (text : List Char), d.Shortest canonical ∧
      (Number.display (.finite negative m e canonical)).toList =
        (if negative then ['-'] else []) ++ text ∧
      (LaidOut d (m * 2 ^ e) text ↔
        ∀ z : Nat, (z : ℚ) = m * 2 ^ e → InWindow (m * 2 ^ e) → d.value = z) ∧
      ∀ z : Nat, (z : ℚ) = m * 2 ^ e →
        (InWindow (m * 2 ^ e) → Numeral.Plain z text) ∧ (z < 2 ^ 53 → d.value = z) := by
  have short := shortest_spec positive .away canonical
  obtain ⟨full, laid⟩ := magnitude_laidOut canonical positive
  refine ⟨_, (Number.displayLayout.magnitude m e).toList, short, ?_,
    ⟨fun shown z whole inside => ?_, fun exact => ?_⟩, fun z whole => ?_⟩
  · simp only [Number.display, Layout.finite, positive.ne', if_false]
    cases negative <;> simp
  · exact (shown.1 inside).unique (full inside z whole)
  · by_cases whole : InWindow (m * 2 ^ e) ∧ ∃ z : Nat, (z : ℚ) = m * 2 ^ e
    · obtain ⟨inside, z, value⟩ := whole
      refine ⟨fun _ => ?_, fun outside => absurd inside outside⟩
      rw [exact z value inside]
      exact full inside z value
    · exact laid fun inside z value => whole ⟨inside, z, value⟩
  · exact ⟨fun inside => full inside z whole, short.value_of_whole positive whole⟩

theorem canonical_tenth : Canonical 7205759403792794 (-56) := by decide

theorem display_shortest_tenth :
    0 < 7205759403792794 ∧ ∃ d : Decimal, d.Shortest canonical_tenth ∧
      LaidOut d ((7205759403792794 : Nat) * 2 ^ (-56 : Int)) "0.1".toList := by
  have positive : 0 < 7205759403792794 := by decide
  obtain ⟨d, text, short, shown, laid, -⟩ := display_shortest_iff false canonical_tenth positive
  have read : Number.display (.finite false 7205759403792794 (-56) canonical_tenth) = "0.1" := by
    decide +kernel
  rw [read] at shown
  refine ⟨positive, d, short, ?_⟩
  rw [show "0.1".toList = text from shown]
  refine laid.2 fun z whole _ => ?_
  have below : (z : ℚ) < 1 := by
    rw [whole]
    norm_num
  have small : z < 1 := by exact_mod_cast below
  have some := whole_pos positive whole
  omega

theorem canonical_sixty : Canonical (twoTo 52) 8 := by decide

/-- Three of the digits of 2^60 say nothing, and they are shown. -/
theorem display_sixty_bits :
    Number.display (.finite false (twoTo 52) 8 canonical_sixty) = "1152921504606846976" ∧
    (⟨1152921504606847, 3⟩ : Decimal).Shortest canonical_sixty ∧
    LaidOut ⟨1152921504606847, 3⟩ ((twoTo 52 : Nat) * 2 ^ (8 : Int)) "1152921504606847000".toList ∧
    ∀ d : Decimal, d.Shortest canonical_sixty →
      ¬LaidOut d ((twoTo 52 : Nat) * 2 ^ (8 : Int)) "1152921504606846976".toList := by
  have positive : 0 < twoTo 52 := by decide
  have digits : shortest .away (twoTo 52) 8 = ⟨1152921504606847, 3⟩ := by decide +kernel
  have short : (⟨1152921504606847, 3⟩ : Decimal).Shortest canonical_sixty :=
    digits ▸ shortest_spec positive .away canonical_sixty
  have inside : InWindow ((twoTo 52 : Nat) * 2 ^ (8 : Int)) := by
    rw [inWindow_iff positive canonical_sixty, digits]
    decide
  have whole : ((2 ^ 60 : Nat) : ℚ) = (twoTo 52 : Nat) * 2 ^ (8 : Int) := by
    rw [cast_twoTo]
    norm_num
  have full := (magnitude_laidOut canonical_sixty positive).1 inside (2 ^ 60) whole
  have text : (Number.displayLayout.magnitude (twoTo 52) 8).toList = "1152921504606846976".toList := by
    decide +kernel
  refine ⟨by decide +kernel, short, ⟨fun _ => ?_, fun no => absurd inside no⟩, ?_⟩
  · exact Layout.plain_plainNumeral (d := ⟨1152921504606847, 3⟩) (by decide) (.inl (by decide))
  · intro d other laid
    have value : d.value = (⟨2 ^ 60, 0⟩ : Decimal).value := by
      rw [(laid.1 inside).unique (text ▸ full), Decimal.value, zpow_zero, mul_one]
    have long := digitCount_mono (digits_le_of_normal (by decide) value.symm)
    have few := other.least _ short.reads
    exact absurd (long.trans few) (by decide +kernel)

end Arborist

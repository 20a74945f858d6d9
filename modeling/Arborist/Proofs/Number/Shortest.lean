import Mathlib
import Arborist.Proofs.Number.Nearest

/-!
The shortest numeral reads back. A numeral is read as the number nearest to its value
(`toNumber_rounds`), so its number depends on the value alone, and a value closer to a canonical
number than half of the gap around it reads as that number. Seventeen digits put one of the two
neighbours on the grid that close, so the search for a numeral that reads back never fails.
-/

namespace Arborist

namespace Decimal

def value (d : Decimal) : ℚ := d.digits * 10 ^ d.exponent

theorem natOfDigits_eq (cs : List Char) : natOfDigits cs = Nat.ofDigitChars 10 cs 0 := by
  rw [Nat.ofDigitChars_eq_foldl]
  rfl

@[simp] theorem natOfDigits_toDigits (n : Nat) : natOfDigits (Nat.toDigits 10 n) = n := by
  rw [natOfDigits_eq, Nat.ofDigitChars_ten_toDigits]

theorem digitCount_pos (n : Nat) : 0 < digitCount n := Nat.length_toDigits_pos

theorem lt_pow_digitCount (n : Nat) : n < 10 ^ digitCount n :=
  (Nat.length_toDigits_le_iff (by decide) (digitCount_pos n)).1 le_rfl

theorem pow_digitCount_le {n : Nat} (pos : 0 < n) : 10 ^ (digitCount n - 1) ≤ n := by
  by_contra less
  rcases Nat.eq_zero_or_pos (digitCount n - 1) with one | more
  · rw [one, Nat.pow_zero] at less
    omega
  · have := (Nat.length_toDigits_le_iff (by decide) more).2 (not_le.1 less)
    have := digitCount_pos n
    simp only [digitCount] at *
    omega

def scale (d : Decimal) : Int := d.exponent + digitCount d.digits

theorem value_bounds {d : Decimal} (nonzero : d.digits ≠ 0) :
    (10 : ℚ) ^ (d.scale - 1) ≤ d.value ∧ d.value < 10 ^ d.scale := by
  have unit : (0 : ℚ) < 10 ^ d.exponent := zpow_pos (by norm_num) _
  have ten : (10 : ℚ) ≠ 0 := by norm_num
  have low : ((10 : ℚ) ^ (digitCount d.digits - 1)) ≤ d.digits := by
    exact_mod_cast pow_digitCount_le (Nat.pos_of_ne_zero nonzero)
  have high : (d.digits : ℚ) < 10 ^ digitCount d.digits := by
    exact_mod_cast lt_pow_digitCount d.digits
  have count := digitCount_pos d.digits
  constructor
  · have split : d.scale - 1 = ((digitCount d.digits - 1 : Nat) : Int) + d.exponent := by
      rw [scale]
      omega
    rw [split, zpow_add₀ ten, zpow_natCast, value]
    exact mul_le_mul_of_nonneg_right low unit.le
  · have split : d.scale = (digitCount d.digits : Int) + d.exponent := by
      rw [scale]
      omega
    rw [split, zpow_add₀ ten, zpow_natCast, value]
    exact mul_lt_mul_of_pos_right high unit

theorem decade_unique {x : ℚ} {k l : Int} (lowK : (10 : ℚ) ^ (k - 1) ≤ x) (highK : x < 10 ^ k)
    (lowL : (10 : ℚ) ^ (l - 1) ≤ x) (highL : x < 10 ^ l) : k = l := by
  have kl : k - 1 < l := (zpow_lt_zpow_iff_right₀ (by norm_num)).1 (lt_of_le_of_lt lowK highL)
  have lk : l - 1 < k := (zpow_lt_zpow_iff_right₀ (by norm_num)).1 (lt_of_le_of_lt lowL highK)
  omega

theorem scale_eq_of_value_eq {d d' : Decimal} (nonzero : d.digits ≠ 0) (nonzero' : d'.digits ≠ 0)
    (same : d.value = d'.value) : d.scale = d'.scale := by
  obtain ⟨low, high⟩ := value_bounds nonzero
  obtain ⟨low', high'⟩ := value_bounds nonzero'
  rw [← same] at low' high'
  exact decade_unique low high low' high'

theorem value_eq_zero_iff {d : Decimal} : d.value = 0 ↔ d.digits = 0 := by
  have unit : (10 : ℚ) ^ d.exponent ≠ 0 := zpow_ne_zero _ (by norm_num)
  simp [value, unit]

theorem toNumber_eq (d : Decimal) : ∃ num den : Nat, 0 < den ∧ (num : ℚ) / den = d.value ∧
    ∀ negative, d.toNumber negative =
      if d.digits = 0 then .zero negative
      else if 310 < d.scale then .infinity negative
      else if d.scale < -330 then .zero negative
      else .ofRatio negative num den := by
  by_cases nonneg : 0 ≤ d.exponent
  · refine ⟨d.digits * tenTo d.exponent.toNat, 1, by decide, ?_, fun negative => ?_⟩
    · rw [Nat.cast_mul, cast_tenTo, zpow_toNat nonneg, Nat.cast_one, div_one, value]
    · simp only [toNumber, nonneg, if_true, scale]
      rfl
  · refine ⟨d.digits, tenTo (-d.exponent).toNat, tenTo_pos _, ?_, fun negative => ?_⟩
    · rw [cast_tenTo, zpow_toNat (by omega), zpow_neg, div_inv_eq_mul, value]
    · simp only [toNumber, nonneg, if_false, scale]
      rfl

theorem toNumber_congr (negative : Bool) {d d' : Decimal} (same : d.value = d'.value) :
    d.toNumber negative = d'.toNumber negative := by
  obtain ⟨num, den, pos, ratio, number⟩ := d.toNumber_eq
  obtain ⟨num', den', pos', ratio', number'⟩ := d'.toNumber_eq
  have zero : d.digits = 0 ↔ d'.digits = 0 := by
    rw [← value_eq_zero_iff, ← value_eq_zero_iff, same]
  rw [number, number']
  by_cases nothing : d.digits = 0
  · simp [nothing, zero.1 nothing]
  · have scales : d.scale = d'.scale := scale_eq_of_value_eq nothing (mt zero.2 nothing) same
    have cross : num * den' = num' * den := by
      rw [same, ← ratio', div_eq_div_iff (by exact_mod_cast pos.ne') (by exact_mod_cast pos'.ne')]
        at ratio
      exact_mod_cast ratio
    simp only [nothing, mt zero.2 nothing, scales, Number.ofRatio_congr negative pos pos' cross]

theorem two_pow_lt_ten_pow : (2 : ℚ) ^ (1024 : Int) < 10 ^ (309 : Int) := by
  have : (2 : Nat) ^ 1024 < 10 ^ 309 := by decide +kernel
  exact_mod_cast this

theorem ten_pow_lt_two_pow : (10 : ℚ) ^ (-330 : Int) < 2 ^ (-1075 : Int) := by
  rw [zpow_neg, zpow_neg]
  apply inv_strictAnti₀ (by positivity)
  have : (2 : Nat) ^ 1075 < 10 ^ 330 := by decide +kernel
  exact_mod_cast this

/-- A numeral is read as the number nearest to its value. -/
theorem toNumber_rounds (d : Decimal) : Rounds d.value (d.toNumber false) := by
  obtain ⟨num, den, pos, ratio, number⟩ := d.toNumber_eq
  rw [number]
  by_cases nothing : d.digits = 0
  · rw [if_pos nothing, value_eq_zero_iff.2 nothing]
    exact Number.zero_rounds le_rfl (zpow_pos (by norm_num) _)
  · obtain ⟨low, high⟩ := value_bounds nothing
    rw [if_neg nothing]
    split
    · rename_i huge
      have reached : (10 : ℚ) ^ (309 : Int) ≤ 10 ^ (d.scale - 1) :=
        zpow_le_zpow_right₀ (by norm_num) (by omega)
      have limit : overflowAt ≤ 2 ^ (1024 : Int) := by
        have : (2 : ℚ) ^ (1024 : Int) = 2 ^ (53 : Int) * 2 ^ (971 : Int) := by
          rw [← zpow_add₀ (by norm_num)]
          norm_num
        rw [overflowAt, this]
        exact mul_le_mul_of_nonneg_right (by norm_num) (zpow_nonneg (by norm_num) _)
      exact .infinite (limit.trans (two_pow_lt_ten_pow.le.trans (reached.trans low)))
    · split
      · rename_i tiny
        have small : (10 : ℚ) ^ d.scale ≤ 10 ^ (-330 : Int) :=
          zpow_le_zpow_right₀ (by norm_num) (by omega)
        have nonneg : 0 ≤ d.value := le_trans (zpow_nonneg (by norm_num) _) low
        exact Number.zero_rounds nonneg (high.trans_le (small.trans ten_pow_lt_two_pow.le))
      · rw [← ratio]
        exact Number.ofRatio_rounds num pos

theorem toNumber_sign {d : Decimal} {m : Nat} {e : Int} {canonical : Canonical m e}
    (positive : 0 < m) (read : d.toNumber false = .finite false m e canonical) (negative : Bool) :
    d.toNumber negative = .finite negative m e canonical := by
  obtain ⟨num, den, pos, ratio, number⟩ := d.toNumber_eq
  rw [number] at read ⊢
  have notZero : Number.zero false ≠ .finite false m e canonical := by
    simp only [Number.zero, ne_eq, Number.finite.injEq, true_and, not_and]
    omega
  by_cases nonzero : d.digits = 0
  · exact absurd (by simpa [nonzero] using read) notZero
  by_cases huge : 310 < d.scale
  · simp [nonzero, huge] at read
  by_cases tiny : d.scale < -330
  · exact absurd (by simpa [nonzero, huge, tiny] using read) notZero
  simp only [nonzero, huge, tiny, if_false] at read ⊢
  exact Number.ofRatio_sign read negative

theorem toNumber_of_near (negative : Bool) {d : Decimal} {m : Nat} {e : Int}
    (canonical : Canonical m e) (positive : 0 < m) (near : Near d.value m e) :
    d.toNumber negative = .finite negative m e canonical :=
  toNumber_sign positive (d.toNumber_rounds.unique (near.rounds canonical)) negative

theorem stripZeros_value (fuel : Nat) (d : Decimal) : (stripZeros fuel d).value = d.value := by
  induction fuel generalizing d with
  | zero => rfl
  | succ fuel ih =>
    rw [stripZeros]
    split
    · rename_i ends
      rw [ih]
      have digits : d.digits = 10 * (d.digits / 10) := by omega
      simp only [value]
      rw [digits, Nat.mul_div_cancel_left _ (by decide), zpow_add_one₀ (by norm_num)]
      push_cast
      ring
    · rfl

theorem normal_value (d : Decimal) : d.normal.value = d.value := stripZeros_value _ d

theorem leadingPower_bounds {num den : Nat} (numPos : 0 < num) (denPos : 0 < den) :
    (10 : ℚ) ^ leadingPower num den ≤ (num : ℚ) / den := by
  have denQ : (0 : ℚ) < den := by exact_mod_cast denPos
  rw [leadingPower]
  split
  · rename_i large
    have quotient : 0 < num / den := Nat.div_pos large denPos
    have low := pow_digitCount_le quotient
    have exponent : (digitCount (num / den) : Int) - 1 = ((digitCount (num / den) - 1 : Nat) : Int) := by
      have := digitCount_pos (num / den)
      omega
    rw [exponent, zpow_natCast, le_div_iff₀ denQ]
    exact_mod_cast (Nat.mul_le_mul_right den low).trans (Nat.div_mul_le_self num den)
  · rename_i small
    have high := lt_pow_digitCount (den / num)
    have count := digitCount_pos (den / num)
    dsimp only
    split
    · rename_i exact
      have exponent : 1 - (digitCount (den / num) : Int) = -((digitCount (den / num) - 1 : Nat) : Int) := by
        omega
      rw [exponent, zpow_neg, zpow_natCast, le_div_iff₀ denQ, inv_mul_le_iff₀ (by positivity)]
      rw [Nat.mul_comm] at exact
      have exactQ : (den : ℚ) ≤ (tenTo (digitCount (den / num) - 1) * num : Nat) := by
        exact_mod_cast exact
      rwa [Nat.cast_mul, cast_tenTo] at exactQ
    · rw [zpow_neg, zpow_natCast, le_div_iff₀ denQ, inv_mul_le_iff₀ (by positivity)]
      have : den < 10 ^ digitCount (den / num) * num := by
        exact (Nat.div_lt_iff_lt_mul numPos).1 high
      exact_mod_cast this.le

theorem scaleTen_pos (num : Nat) {den : Nat} (power : Int) (pos : 0 < den) :
    0 < (scaleTen num den power).2 := by
  rw [scaleTen]
  split
  · exact Nat.mul_pos pos (tenTo_pos _)
  · exact pos

theorem scaleTen_ratio (num den : Nat) (power : Int) :
    ((scaleTen num den power).1 : ℚ) / (scaleTen num den power).2 = (num : ℚ) / den / 10 ^ power := by
  rw [scaleTen]
  split
  · rename_i nonneg
    rw [Nat.cast_mul, cast_tenTo, zpow_toNat nonneg, div_div]
  · rename_i negative
    rw [Nat.cast_mul, cast_tenTo, zpow_toNat (by omega), zpow_neg]
    ring

theorem reads_of_nearestOnGrid {tie : Tie} {reads : Decimal → Bool} {num den : Nat} {power : Int}
    {d : Decimal} (picked : nearestOnGrid tie reads num den power = some d) : reads d = true := by
  simp only [nearestOnGrid] at picked
  split at picked
  · split at picked
    · simp_all
    · split at picked
      · simp_all
      · split at picked <;> simp_all
  · simp_all
  · simp_all
  · simp at picked

def floorOn (num den : Nat) (power : Int) : Nat := (scaleTen num den power).1 / (scaleTen num den power).2

theorem floorOn_bounds (num : Nat) {den : Nat} (pos : 0 < den) (power : Int) :
    floorOn num den power * 10 ^ power ≤ (num : ℚ) / den ∧
      (num : ℚ) / den < (floorOn num den power + 1 : Nat) * 10 ^ power := by
  have unit : (0 : ℚ) < 10 ^ power := zpow_pos (by norm_num) _
  have positive := scaleTen_pos num power pos
  have bottom : (0 : ℚ) < (scaleTen num den power).2 := by exact_mod_cast positive
  have ratio := scaleTen_ratio num den power
  rw [← le_div_iff₀ unit, ← div_lt_iff₀ unit, ← ratio, div_lt_iff₀ bottom]
  refine ⟨Nat.cast_div_le, ?_⟩
  have : (scaleTen num den power).1 < (floorOn num den power + 1) * (scaleTen num den power).2 := by
    rw [Nat.mul_comm]
    exact Nat.lt_mul_div_succ _ positive
  exact_mod_cast this

/-- If nothing is picked, no numeral within half a grid step reads back: one of the two neighbours is
that close. -/
theorem exists_near_of_nearestOnGrid_none {tie : Tie} {reads : Decimal → Bool} {num den : Nat}
    {power : Int} (pos : 0 < den) (none : nearestOnGrid tie reads num den power = none) :
    ∃ d : Decimal, |d.value - (num : ℚ) / den| ≤ 10 ^ power / 2 ∧ reads d = false := by
  obtain ⟨below, above⟩ : reads ⟨floorOn num den power, power⟩ = false ∧
      reads ⟨floorOn num den power + 1, power⟩ = false := by
    simp only [nearestOnGrid] at none
    split at none
    · split at none
      · simp at none
      · split at none
        · simp at none
        · split at none <;> simp at none
    · simp at none
    · simp at none
    · exact ⟨by assumption, by assumption⟩
  obtain ⟨low, high⟩ := floorOn_bounds num pos power
  rw [Nat.cast_add, Nat.cast_one, add_mul, one_mul] at high
  rcases le_or_gt ((num : ℚ) / den) (floorOn num den power * 10 ^ power + 10 ^ power / 2) with
    lower | upper
  · refine ⟨_, ?_, below⟩
    rw [value, abs_le]
    constructor <;> linarith
  · refine ⟨_, ?_, above⟩
    rw [value, Nat.cast_add, Nat.cast_one, add_mul, one_mul, abs_le]
    constructor <;> linarith

/-- Seventeen digits separate neighbouring numbers. -/
theorem near_of_seventeen {x : ℚ} {m : Nat} {e power : Int} (canonical : Canonical m e)
    (leading : (10 : ℚ) ^ power ≤ m * 2 ^ e)
    (close : |x - m * 2 ^ e| ≤ 10 ^ (power - 16) / 2) : Near x m e := by
  have unit : (0 : ℚ) < 2 ^ e := zpow_pos (by norm_num) _
  have step : (10 : ℚ) ^ (power - 16) ≤ m * 2 ^ e / 10 ^ 16 := by
    rw [zpow_sub₀ (by norm_num)]
    exact_mod_cast div_le_div_of_nonneg_right leading (by positivity)
  have bits : (m : ℚ) < 10 ^ 16 := by
    have : m < 10 ^ 16 := lt_trans canonical.1 (by decide)
    exact_mod_cast this
  refine ⟨lt_of_le_of_lt close ?_, fun half _ => ?_⟩
  · have : (m : ℚ) * 2 ^ e / 10 ^ 16 < 2 ^ e := by
      rw [div_lt_iff₀ (by norm_num)]
      nlinarith
    linarith
  · have value : (m : ℚ) = 2 ^ 52 := by rw [half, cast_twoTo]
    have := (abs_le.1 close).1
    rw [value] at step ⊢
    rw [value] at this
    have : (2 : ℚ) ^ 52 * 2 ^ e / 10 ^ 16 < 2 ^ e / 2 := by
      rw [div_lt_div_iff₀ (by norm_num) (by norm_num)]
      nlinarith
    linarith

theorem findSome?_range {α : Type} {f : Nat → Option α} {n : Nat} {a : α}
    (found : (List.range n).findSome? f = some a) : ∃ i < n, f i = some a ∧ ∀ j < i, f j = none := by
  induction n with
  | zero => simp at found
  | succ n ih =>
    rw [List.range_succ, List.findSome?_append] at found
    cases before : (List.range n).findSome? f with
    | some b =>
      rw [before, Option.some_or] at found
      obtain ⟨i, less, here, none⟩ := ih (before.trans found)
      exact ⟨i, by omega, here, none⟩
    | none =>
      rw [before, Option.none_or] at found
      refine ⟨n, by omega, ?_, fun j less => ?_⟩
      · simpa using found
      · exact List.findSome?_eq_none_iff.1 before j (List.mem_range.2 less)

theorem exact_ratio (m : Nat) (e : Int) :
    ((scaleDown m 1 (-e)).1 : ℚ) / (scaleDown m 1 (-e)).2 = m * 2 ^ e := by
  rw [scaleDown_ratio, zpow_neg]
  simp

theorem magnitude_pos {m : Nat} (positive : 0 < m) (e : Int) : (0 : ℚ) < m * 2 ^ e :=
  mul_pos (by exact_mod_cast positive) (zpow_pos (by norm_num) _)

theorem exact_pos {m : Nat} (positive : 0 < m) (e : Int) :
    0 < (scaleDown m 1 (-e)).1 ∧ 0 < (scaleDown m 1 (-e)).2 := by
  refine ⟨?_, scaleDown_pos m (-e) (by decide)⟩
  rw [Nat.pos_iff_ne_zero]
  intro zero
  have ratio := exact_ratio m e
  rw [zero, Nat.cast_zero, zero_div] at ratio
  exact (magnitude_pos positive e).ne ratio

def readsAs {m : Nat} {e : Int} (canonical : Canonical m e) (d : Decimal) : Bool :=
  decide (d.digits ≠ 0 ∧ d.toNumber false = .finite false m e canonical)

def pick (tie : Tie) {m : Nat} {e : Int} (canonical : Canonical m e) (extra : Nat) : Option Decimal :=
  let exact := scaleDown m 1 (-e)
  nearestOnGrid tie (readsAs canonical) exact.1 exact.2 (leadingPower exact.1 exact.2 - extra)

/-- The shortest numeral is the first one that is picked, and that is within seventeen digits. -/
theorem exists_pick (tie : Tie) {m : Nat} {e : Int} (canonical : Canonical m e) (positive : 0 < m) :
    ∃ extra < 17, ∃ d, pick tie canonical extra = some d ∧
      (∀ less < extra, pick tie canonical less = none) ∧ shortest tie m e = d.normal := by
  have search : shortest tie m e = (((List.range 17).findSome? (pick tie canonical)).getD
      ⟨(scaleDown m 1 (-e)).1 / (scaleDown m 1 (-e)).2, 0⟩).normal := by
    simp only [shortest, Number.pack_of_canonical false canonical]
    rfl
  cases found : (List.range 17).findSome? (pick tie canonical) with
  | some d =>
    obtain ⟨extra, inside, picked, before⟩ := findSome?_range found
    exact ⟨extra, inside, d, picked, before, by rw [search, found, Option.getD_some]⟩
  | none =>
    -- The grid of seventeen digits holds a numeral that reads back.
    exfalso
    obtain ⟨numPos, denPos⟩ := exact_pos positive e
    have leading := leadingPower_bounds numPos denPos
    have missed := List.findSome?_eq_none_iff.1 found 16 (by decide)
    obtain ⟨d, close, fails⟩ := exists_near_of_nearestOnGrid_none denPos missed
    rw [exact_ratio] at leading close
    have read := toNumber_of_near false canonical positive (near_of_seventeen canonical leading close)
    have nonzero : d.digits ≠ 0 := by
      intro zero
      have nothing : d.toNumber false = .zero false := by simp [toNumber, zero]
      rw [nothing, Number.zero, Number.finite.injEq] at read
      omega
    exact of_decide_eq_false fails ⟨nonzero, read⟩

theorem shortest_toNumber (tie : Tie) {m : Nat} {e : Int} (canonical : Canonical m e)
    (positive : 0 < m) :
    (shortest tie m e).toNumber false = .finite false m e canonical := by
  obtain ⟨extra, -, d, picked, -, short⟩ := exists_pick tie canonical positive
  rw [short, toNumber_congr false (normal_value d)]
  exact (of_decide_eq_true (reads_of_nearestOnGrid picked)).2

end Decimal

end Arborist

import Mathlib
import Arborist.Proofs.Number.Shortest

/-!
The shortest digits of a number. What is read as a number is an interval around it, so if a numeral
of some length is read as the number, then so is one of the number's two neighbours on the grid of
that length, and that one is as near. The search takes the first grid on which a neighbour is read
back: no numeral that is read back has fewer digits, and none with as many is nearer.
-/

namespace Arborist

namespace Decimal

/-- No numeral with fewer digits is read as the number, and none with as many is nearer. -/
structure Shortest (d : Decimal) {m : Nat} {e : Int} (canonical : Canonical m e) : Prop where
  reads : Rounds d.value (.finite false m e canonical)
  normal : d.digits % 10 ≠ 0
  least : ∀ other : Decimal, Rounds other.value (.finite false m e canonical) →
    digitCount d.digits ≤ digitCount other.digits
  nearest : ∀ other : Decimal, Rounds other.value (.finite false m e canonical) →
    digitCount other.digits = digitCount d.digits →
    |(m : ℚ) * 2 ^ e - d.value| ≤ |(m : ℚ) * 2 ^ e - other.value|

section Normal

theorem digitCount_le_iff {n k : Nat} (pos : 0 < k) : digitCount n ≤ k ↔ n < 10 ^ k :=
  Nat.length_toDigits_le_iff (by decide) pos

theorem digitCount_mono {n k : Nat} (le : n ≤ k) : digitCount n ≤ digitCount k :=
  (digitCount_le_iff (digitCount_pos k)).2 (le.trans_lt (lt_pow_digitCount k))

theorem stripZeros_normal {fuel : Nat} {d : Decimal} (nonzero : d.digits ≠ 0)
    (enough : d.digits < 10 ^ fuel) : (stripZeros fuel d).digits % 10 ≠ 0 := by
  induction fuel generalizing d with
  | zero => omega
  | succ fuel ih =>
    rw [stripZeros]
    split
    · rw [Nat.pow_succ] at enough
      exact ih (show d.digits / 10 ≠ 0 by omega) (show d.digits / 10 < 10 ^ fuel by omega)
    · rename_i ends
      exact fun zero => ends ⟨nonzero, zero⟩

theorem normal_normal {d : Decimal} (nonzero : d.digits ≠ 0) : d.normal.digits % 10 ≠ 0 :=
  stripZeros_normal nonzero (lt_pow_digitCount d.digits)

theorem digits_le_of_normal {d other : Decimal} (normal : d.digits % 10 ≠ 0)
    (same : d.value = other.value) : d.digits ≤ other.digits := by
  have ten : (10 : ℚ) ≠ 0 := by norm_num
  simp only [value] at same
  rcases le_or_gt other.exponent d.exponent with finer | coarser
  · obtain ⟨k, shift⟩ : ∃ k : Nat, d.exponent = k + other.exponent :=
      ⟨(d.exponent - other.exponent).toNat, by omega⟩
    rw [shift, zpow_add₀ ten, ← mul_assoc, zpow_natCast] at same
    have digits : d.digits * 10 ^ k = other.digits := by
      exact_mod_cast mul_right_cancel₀ (zpow_ne_zero _ ten) same
    rw [← digits]
    exact Nat.le_mul_of_pos_right _ (by positivity)
  · exfalso
    obtain ⟨k, shift⟩ : ∃ k : Nat, other.exponent = (k + 1 : Nat) + d.exponent :=
      ⟨(other.exponent - d.exponent - 1).toNat, by omega⟩
    rw [shift, zpow_add₀ ten, ← mul_assoc, zpow_natCast] at same
    have digits : d.digits = other.digits * 10 ^ (k + 1) := by
      exact_mod_cast mul_right_cancel₀ (zpow_ne_zero _ ten) same
    rw [digits, Nat.pow_succ, ← Nat.mul_assoc, Nat.mul_mod_left] at normal
    exact normal rfl

end Normal

theorem lt_pow_leadingPower {num den : Nat} (numPos : 0 < num) (denPos : 0 < den) :
    (num : ℚ) / den < 10 ^ (leadingPower num den + 1) := by
  have denQ : (0 : ℚ) < den := by exact_mod_cast denPos
  rw [leadingPower]
  split
  · rename_i large
    rw [sub_add_cancel, zpow_natCast, div_lt_iff₀ denQ]
    have := (Nat.div_lt_iff_lt_mul denPos).1 (lt_pow_digitCount (num / den))
    exact_mod_cast this
  · rename_i small
    have count := digitCount_pos (den / num)
    have low : num * 10 ^ (digitCount (den / num) - 1) ≤ den := by
      have quotient : 0 < den / num := Nat.div_pos (by omega) numPos
      rw [Nat.mul_comm]
      exact (Nat.le_div_iff_mul_le numPos).1 (pow_digitCount_le quotient)
    have power : (10 : ℚ) ^ (1 - (digitCount (den / num) : Int)) =
        (10 ^ (digitCount (den / num) - 1))⁻¹ := by
      rw [← zpow_natCast, ← zpow_neg]
      congr 1
      omega
    dsimp only
    split
    · have bound : (num : ℚ) / den ≤ 10 ^ (1 - (digitCount (den / num) : Int)) := by
        rw [power, div_le_iff₀ denQ, ← div_eq_inv_mul, le_div_iff₀ (by positivity)]
        exact_mod_cast low
      exact bound.trans_lt (zpow_lt_zpow_right₀ (by norm_num) (by omega))
    · rename_i more
      rw [neg_add_eq_sub, power, div_lt_iff₀ denQ, ← div_eq_inv_mul, lt_div_iff₀ (by positivity)]
      exact_mod_cast not_le.1 more

section Grid

variable {tie : Tie} {reads : Decimal → Bool} {num den : Nat} {power : Int}

theorem middle_of_remainder (num : Nat) (pos : 0 < den) (power : Int) :
    (2 * ((scaleTen num den power).1 % (scaleTen num den power).2) ≤ (scaleTen num den power).2 →
      2 * ((num : ℚ) / den) ≤
        (floorOn num den power + 1 : Nat) * 10 ^ power + floorOn num den power * 10 ^ power) ∧
    ((scaleTen num den power).2 ≤ 2 * ((scaleTen num den power).1 % (scaleTen num den power).2) →
      (floorOn num den power + 1 : Nat) * 10 ^ power + floorOn num den power * 10 ^ power ≤
        2 * ((num : ℚ) / den)) := by
  have unit : (0 : ℚ) < 10 ^ power := zpow_pos (by norm_num) _
  have bottom : (0 : ℚ) < (scaleTen num den power).2 := by exact_mod_cast scaleTen_pos num power pos
  have scaled : (num : ℚ) / den =
      (scaleTen num den power).1 / (scaleTen num den power).2 * 10 ^ power := by
    rw [scaleTen_ratio, div_mul_cancel₀ _ unit.ne']
  have split : ((scaleTen num den power).1 : ℚ) / (scaleTen num den power).2 =
      floorOn num den power + ((scaleTen num den power).1 % (scaleTen num den power).2 : Nat) /
        (scaleTen num den power).2 := by
    rw [div_eq_iff bottom.ne', add_mul, div_mul_cancel₀ _ bottom.ne']
    exact_mod_cast (Nat.div_add_mod' _ _).symm
  rw [scaled, split, ← add_mul, ← mul_assoc]
  push_cast
  constructor
  · intro low
    have half : (((scaleTen num den power).1 % (scaleTen num den power).2 : Nat) : ℚ) /
        (scaleTen num den power).2 ≤ 1 / 2 := by
      rw [div_le_div_iff₀ bottom (by norm_num), mul_comm, one_mul]
      exact_mod_cast low
    exact mul_le_mul_of_nonneg_right (by linarith) unit.le
  · intro high
    have half : 1 / 2 ≤ (((scaleTen num den power).1 % (scaleTen num den power).2 : Nat) : ℚ) /
        (scaleTen num den power).2 := by
      rw [div_le_div_iff₀ (by norm_num) bottom, one_mul, mul_comm]
      exact_mod_cast high
    exact mul_le_mul_of_nonneg_right (by linarith) unit.le

theorem eq_of_nearestOnGrid {d : Decimal} (picked : nearestOnGrid tie reads num den power = some d) :
    d = ⟨floorOn num den power, power⟩ ∨ d = ⟨floorOn num den power + 1, power⟩ := by
  simp only [nearestOnGrid] at picked
  repeat' split at picked
  all_goals first
    | exact .inl (Option.some.inj picked).symm
    | exact .inr (Option.some.inj picked).symm
    | exact absurd picked (by simp)

theorem near_of_nearestOnGrid (pos : 0 < den) {k : Nat}
    (neighbour : k = floorOn num den power ∨ k = floorOn num den power + 1)
    (read : reads ⟨k, power⟩ = true) :
    ∃ d, nearestOnGrid tie reads num den power = some d ∧
      |(num : ℚ) / den - d.value| ≤ |(num : ℚ) / den - k * 10 ^ power| := by
  obtain ⟨low, high⟩ := middle_of_remainder num pos power
  have less : (floorOn num den power : ℚ) * 10 ^ power < (floorOn num den power + 1 : Nat) * 10 ^ power :=
    mul_lt_mul_of_pos_right (by exact_mod_cast Nat.lt_succ_self _) (zpow_pos (by norm_num) _)
  have below (half : 2 * ((scaleTen num den power).1 % (scaleTen num den power).2) ≤
      (scaleTen num den power).2) :
      |(num : ℚ) / den - (⟨floorOn num den power, power⟩ : Decimal).value| ≤
        |(num : ℚ) / den - k * 10 ^ power| := by
    rcases neighbour with rfl | rfl
    · exact le_rfl
    · exact near_of_le_mid less (low half)
  have above (half : (scaleTen num den power).2 ≤
      2 * ((scaleTen num den power).1 % (scaleTen num den power).2)) :
      |(num : ℚ) / den - (⟨floorOn num den power + 1, power⟩ : Decimal).value| ≤
        |(num : ℚ) / den - k * 10 ^ power| := by
    rcases neighbour with rfl | rfl
    · exact near_of_mid_le less (high half)
    · exact le_rfl
  have only {j : Nat} (alone : reads ⟨j, power⟩ = false) : k ≠ j := by
    rintro rfl
    rw [read] at alone
    exact absurd alone (by decide)
  simp only [nearestOnGrid]
  split
  · split
    · exact ⟨_, rfl, below (by omega)⟩
    · split
      · exact ⟨_, rfl, above (by omega)⟩
      · split
        · exact ⟨_, rfl, below (by omega)⟩
        · exact ⟨_, rfl, above (by omega)⟩
  · rename_i alone
    rw [neighbour.resolve_right (only alone)]
    exact ⟨_, rfl, le_rfl⟩
  · rename_i alone _
    rw [neighbour.resolve_left (only alone)]
    exact ⟨_, rfl, le_rfl⟩
  · rename_i first second
    exact (neighbour.elim (only first) (only second)).elim

end Grid

section Neighbours

variable {x : ℚ} {leading : Int} (low : (10 : ℚ) ^ leading ≤ x) (high : x < 10 ^ (leading + 1))

include low high

/-- Between a numeral and a value with some leading digit lies a point of the grid that has the count
of the numeral's digits for such values. -/
theorem exists_between {d : Decimal} (nonzero : d.digits ≠ 0) {extra : Nat}
    (fits : digitCount d.digits ≤ extra + 1) :
    ∃ j : Nat, d.value ≤ j * 10 ^ (leading - extra) ∧ j * 10 ^ (leading - extra) ≤ x ∨
      x < j * 10 ^ (leading - extra) ∧ j * 10 ^ (leading - extra) ≤ d.value := by
  have ten : (10 : ℚ) ≠ 0 := by norm_num
  obtain ⟨least, most⟩ := value_bounds nonzero
  have power (k : Nat) : ((10 ^ k : Nat) : ℚ) * 10 ^ (leading - extra) = 10 ^ (leading - extra + k) := by
    rw [zpow_add₀ ten, zpow_natCast, mul_comm]
    push_cast
    rfl
  rcases lt_trichotomy d.scale (leading + 1) with less | same | more
  · refine ⟨10 ^ extra, .inl ?_⟩
    rw [power, sub_add_cancel]
    exact ⟨most.le.trans (zpow_le_zpow_right₀ (by norm_num) (by omega)), low⟩
  · have finer : leading - extra ≤ d.exponent := by
      rw [scale] at same
      omega
    have grid : d.value = (d.digits * 10 ^ (d.exponent - (leading - extra)).toNat : Nat) *
        10 ^ (leading - extra) := by
      rw [Nat.cast_mul, mul_assoc, power, value]
      congr 2
      omega
    rcases le_or_gt d.value x with below | above
    · exact ⟨_, .inl ⟨grid.le, grid ▸ below⟩⟩
    · exact ⟨_, .inr ⟨grid ▸ above, grid.ge⟩⟩
  · refine ⟨10 ^ (extra + 1), .inr ?_⟩
    have shift : leading - extra + (extra + 1 : Nat) = leading + 1 := by
      push_cast
      ring
    rw [power, shift]
    exact ⟨high, (zpow_le_zpow_right₀ (by norm_num) (by omega)).trans least⟩

end Neighbours

section Number

variable {m : Nat} {e : Int} {canonical : Canonical m e} (positive : 0 < m)

include positive

theorem readsAs_iff {d : Decimal} :
    readsAs canonical d = true ↔ Rounds d.value (.finite false m e canonical) := by
  rw [readsAs, decide_eq_true_iff]
  constructor
  · rintro ⟨-, read⟩
    exact read ▸ d.toNumber_rounds
  · intro rounds
    have read := d.toNumber_rounds.unique rounds
    refine ⟨fun zero => ?_, read⟩
    have nothing : d.toNumber false = .zero false := by simp [toNumber, zero]
    rw [nothing, Number.zero, Number.finite.injEq] at read
    omega

theorem digits_ne_zero {d : Decimal} (rounds : Rounds d.value (.finite false m e canonical)) :
    d.digits ≠ 0 :=
  (of_decide_eq_true ((readsAs_iff positive).2 rounds)).1

/-- If a numeral is read as a number, one of the neighbours on the grid with as many digits is, and it
is as near. -/
theorem exists_neighbour {d : Decimal} (rounds : Rounds d.value (.finite false m e canonical))
    {extra : Nat} (fits : digitCount d.digits ≤ extra + 1) :
    let exact := scaleDown m 1 (-e)
    let power := leadingPower exact.1 exact.2 - extra
    ∃ k, (k = floorOn exact.1 exact.2 power ∨ k = floorOn exact.1 exact.2 power + 1) ∧
      Rounds (k * 10 ^ power) (.finite false m e canonical) ∧
      |(m : ℚ) * 2 ^ e - k * 10 ^ power| ≤ |(m : ℚ) * 2 ^ e - d.value| := by
  intro exact power
  obtain ⟨numPos, denPos⟩ := exact_pos positive e
  have low := leadingPower_bounds numPos denPos
  have high := lt_pow_leadingPower numPos denPos
  obtain ⟨floorLow, floorHigh⟩ := floorOn_bounds exact.1 denPos power
  rw [exact_ratio] at low high floorLow floorHigh
  have unit : (0 : ℚ) < 10 ^ power := zpow_pos (by norm_num) _
  obtain ⟨j, ⟨above, below⟩ | ⟨above, below⟩⟩ :=
    exists_between low high (digits_ne_zero positive rounds) fits
  · refine ⟨_, .inl rfl, ?_⟩
    have le : j ≤ floorOn exact.1 exact.2 power := by
      have := lt_of_mul_lt_mul_right (below.trans_lt floorHigh) unit.le
      exact Nat.lt_succ_iff.1 (by exact_mod_cast this)
    have inside : d.value ≤ floorOn exact.1 exact.2 power * 10 ^ power :=
      above.trans (mul_le_mul_of_nonneg_right (by exact_mod_cast le) unit.le)
    refine ⟨rounds.between (.self canonical) inside floorLow, ?_⟩
    rw [abs_of_nonneg (by linarith), abs_of_nonneg (by linarith)]
    linarith
  · refine ⟨_, .inr rfl, ?_⟩
    have le : floorOn exact.1 exact.2 power + 1 ≤ j := by
      have := lt_of_mul_lt_mul_right (floorLow.trans_lt above) unit.le
      exact_mod_cast this
    have inside : (floorOn exact.1 exact.2 power + 1 : Nat) * (10 : ℚ) ^ power ≤ d.value :=
      (mul_le_mul_of_nonneg_right (by exact_mod_cast le) unit.le).trans below
    refine ⟨(Rounds.self canonical).between rounds floorHigh.le inside, ?_⟩
    rw [abs_of_nonpos (by linarith), abs_of_nonpos (by linarith)]
    linarith

theorem digitCount_of_pick {tie : Tie} {extra : Nat} {d : Decimal}
    (picked : pick tie canonical extra = some d) : digitCount d.normal.digits ≤ extra + 1 := by
  obtain ⟨numPos, denPos⟩ := exact_pos positive e
  have high := lt_pow_leadingPower numPos denPos
  have nonzero := (of_decide_eq_true (reads_of_nearestOnGrid picked)).1
  have normal := normal_normal nonzero
  have shrinks := digits_le_of_normal normal (normal_value d)
  simp only [pick] at picked
  generalize (scaleDown m 1 (-e)).1 = num at picked high numPos
  generalize (scaleDown m 1 (-e)).2 = den at picked high denPos
  obtain ⟨floorLow, -⟩ := floorOn_bounds num denPos (leadingPower num den - extra)
  have below : floorOn num den (leadingPower num den - extra) < 10 ^ (extra + 1) := by
    have size := floorLow.trans_lt high
    have split : leadingPower num den + 1 = (extra + 1 : Nat) + (leadingPower num den - extra) := by
      push_cast
      ring
    rw [split, zpow_add₀ (by norm_num), zpow_natCast] at size
    have := lt_of_mul_lt_mul_right size (zpow_nonneg (by norm_num) _)
    exact_mod_cast this
  have bound : d.digits ≤ 10 ^ (extra + 1) := by
    rcases eq_of_nearestOnGrid picked with rfl | rfl
    · exact below.le
    · exact below
  rcases bound.lt_or_eq with less | full
  · exact (digitCount_le_iff (by omega)).2 (by omega)
  · -- The next power of ten has a single digit.
    have one : d.normal.value = (⟨1, d.exponent + (extra + 1 : Nat)⟩ : Decimal).value := by
      rw [normal_value, value, value, full, zpow_add₀ (by norm_num), zpow_natCast]
      push_cast
      ring
    have single := digitCount_mono (digits_le_of_normal normal one)
    have : digitCount 1 = 1 := rfl
    simp only at single
    omega

theorem shortest_spec (tie : Tie) (canonical : Canonical m e) :
    (shortest tie m e).Shortest canonical := by
  obtain ⟨extra, inside, d, picked, before, short⟩ := exists_pick tie canonical positive
  have denPos := (exact_pos positive e).2
  have count := digitCount_of_pick positive picked
  have read := reads_of_nearestOnGrid picked
  -- Any numeral that is read as the number has a neighbour on the grid of its length.
  have again {other : Decimal} (rounds : Rounds other.value (.finite false m e canonical))
      (less : Nat) (fits : digitCount other.digits ≤ less + 1) :
      ∃ d', pick tie canonical less = some d' ∧
        |(m : ℚ) * 2 ^ e - d'.value| ≤ |(m : ℚ) * 2 ^ e - other.value| := by
    obtain ⟨k, neighbour, reads, near⟩ := exists_neighbour positive rounds fits
    obtain ⟨d', found, nearer⟩ := near_of_nearestOnGrid denPos neighbour
      ((readsAs_iff positive).2 reads)
    rw [exact_ratio] at nearer
    exact ⟨d', found, nearer.trans near⟩
  have least {other : Decimal} (rounds : Rounds other.value (.finite false m e canonical)) :
      extra + 1 ≤ digitCount other.digits := by
    by_contra more
    have pos := digitCount_pos other.digits
    obtain ⟨d', found, -⟩ := again rounds (digitCount other.digits - 1) (by omega)
    rw [before _ (by omega)] at found
    exact absurd found (by simp)
  rw [short]
  refine ⟨?_, ?_, fun other rounds => count.trans (least rounds), fun other rounds same => ?_⟩
  · rw [normal_value]
    exact (readsAs_iff positive).1 read
  · exact normal_normal (of_decide_eq_true read).1
  · obtain ⟨d', found, near⟩ := again rounds extra (by omega)
    rw [picked, Option.some.injEq] at found
    rw [normal_value, found]
    exact near

end Number

end Decimal

end Arborist

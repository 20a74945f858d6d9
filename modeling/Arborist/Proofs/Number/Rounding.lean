import Mathlib
import Arborist.Number.Decimal

/-!
The grids of binary64. A quotient of natural numbers lies on exactly one grid of the format, and its
grid, and so its rounded number, depend on the quotient alone and not on how it is written. The sign
takes no part in it.
-/

namespace Arborist

@[simp] theorem cast_twoTo (n : Nat) : (twoTo n : ℚ) = 2 ^ n := by
  simp [twoTo]

@[simp] theorem cast_tenTo (n : Nat) : (tenTo n : ℚ) = 10 ^ n := by
  simp [tenTo]

theorem twoTo_pos (n : Nat) : 0 < twoTo n := Nat.pow_pos (by decide)

theorem twoTo_add (m n : Nat) : twoTo (m + n) = twoTo m * twoTo n := Nat.pow_add 2 m n

theorem tenTo_pos (n : Nat) : 0 < tenTo n := Nat.pow_pos (by decide)

theorem zpow_toNat {base : ℚ} {e : Int} (nonneg : 0 ≤ e) : base ^ e.toNat = base ^ e := by
  rw [← zpow_natCast, Int.toNat_of_nonneg nonneg]

theorem scaleDown_pos (num : Nat) {den : Nat} (e : Int) (pos : 0 < den) :
    0 < (scaleDown num den e).2 := by
  rw [scaleDown]
  split
  · exact Nat.mul_pos pos (twoTo_pos _)
  · exact pos

theorem scaleDown_ratio (num den : Nat) (e : Int) :
    ((scaleDown num den e).1 : ℚ) / (scaleDown num den e).2 = (num : ℚ) / den / 2 ^ e := by
  rw [scaleDown]
  split
  · rename_i nonneg
    rw [Nat.cast_mul, cast_twoTo, zpow_toNat nonneg, div_div]
  · rename_i negative
    rw [Nat.cast_mul, cast_twoTo, zpow_toNat (by omega), zpow_neg]
    ring

theorem roundDiv_mul_left (num den : Nat) {k : Nat} (pos : 0 < k) :
    roundDiv (k * num) (k * den) = roundDiv num den := by
  have less : ∀ a b : Nat, k * a < k * b ↔ a < b := fun a b => Nat.mul_lt_mul_left pos
  simp only [roundDiv, Nat.mul_div_mul_left num den pos, Nat.mul_mod_mul_left,
    Nat.mul_left_comm 2 k, less]

/-- A magnitude lies on the grid of spacing `2 ^ e` when 53 bits reach it, and on no finer one. -/
structure OnGrid (x : ℚ) (e : Int) : Prop where
  least : -1074 ≤ e
  below : x < 2 ^ (53 + e)
  above : e = -1074 ∨ 2 ^ (52 + e) ≤ x

namespace OnGrid

variable {x : ℚ} {e f : Int}

theorem le (onE : OnGrid x e) (onF : OnGrid x f) : e ≤ f := by
  by_contra finer
  obtain lowest | reached := onE.above
  · have := onF.least
    omega
  · have : (2 : ℚ) ^ (53 + f) ≤ 2 ^ (52 + e) := zpow_le_zpow_right₀ (by norm_num) (by omega)
    have := onF.below
    linarith

theorem unique (onE : OnGrid x e) (onF : OnGrid x f) : e = f := le_antisymm (onE.le onF) (onF.le onE)

end OnGrid

/-- The bit lengths of a quotient's parts fix its magnitude up to a factor of two each way. -/
theorem ratio_bounds {num den : Nat} (numPos : 0 < num) (denPos : 0 < den) :
    (2 : ℚ) ^ ((num.log2 : Int) - den.log2 - 1) < (num : ℚ) / den ∧
      (num : ℚ) / den < 2 ^ ((num.log2 : Int) - den.log2 + 1) := by
  have positive : (0 : ℚ) < den := by exact_mod_cast denPos
  have numLow : (2 : ℚ) ^ (num.log2 : Int) ≤ num := by
    exact_mod_cast Nat.log2_self_le numPos.ne'
  have numHigh : (num : ℚ) < 2 ^ ((num.log2 : Int) + 1) := by
    exact_mod_cast (Nat.lt_log2_self (n := num))
  have denLow : (2 : ℚ) ^ (den.log2 : Int) ≤ den := by
    exact_mod_cast Nat.log2_self_le denPos.ne'
  have denHigh : (den : ℚ) < 2 ^ ((den.log2 : Int) + 1) := by
    exact_mod_cast (Nat.lt_log2_self (n := den))
  have two : (2 : ℚ) ≠ 0 := by norm_num
  constructor
  · rw [lt_div_iff₀ positive]
    calc (2 : ℚ) ^ ((num.log2 : Int) - den.log2 - 1) * den
        < 2 ^ ((num.log2 : Int) - den.log2 - 1) * 2 ^ ((den.log2 : Int) + 1) :=
          mul_lt_mul_of_pos_left denHigh (zpow_pos (by norm_num) _)
      _ = 2 ^ (num.log2 : Int) := by rw [← zpow_add₀ two]; congr 1; ring
      _ ≤ num := numLow
  · rw [div_lt_iff₀ positive]
    calc (num : ℚ) < 2 ^ ((num.log2 : Int) + 1) := numHigh
      _ = 2 ^ ((num.log2 : Int) - den.log2 + 1) * 2 ^ (den.log2 : Int) := by
          rw [← zpow_add₀ two]; congr 1; ring
      _ ≤ 2 ^ ((num.log2 : Int) - den.log2 + 1) * den :=
          mul_le_mul_of_nonneg_left denLow (zpow_nonneg (by norm_num) _)

theorem scaleDown_lt_iff {num den : Nat} (e : Int) (pos : 0 < den) :
    (scaleDown num den e).1 < (scaleDown num den e).2 ↔ (num : ℚ) / den < 2 ^ e := by
  have denPos : (0 : ℚ) < (scaleDown num den e).2 := by exact_mod_cast scaleDown_pos num e pos
  have scale : (0 : ℚ) < 2 ^ e := zpow_pos (by norm_num) _
  rw [← div_lt_one scale, ← scaleDown_ratio, div_lt_one denPos, Nat.cast_lt]

theorem onGrid_gridExponent (num : Nat) {den : Nat} (pos : 0 < den) :
    OnGrid ((num : ℚ) / den) (gridExponent num den) := by
  rcases Nat.eq_zero_or_pos num with rfl | numPos
  · simp only [gridExponent, if_true]
    exact ⟨by norm_num, by rw [Nat.cast_zero, zero_div]; positivity, .inl rfl⟩
  · obtain ⟨low, high⟩ := ratio_bounds numPos pos
    have smaller := @scaleDown_lt_iff num den ((num.log2 : Int) - den.log2) pos
    -- The leading bit is where the bit lengths put it or one place lower.
    obtain ⟨least, leastEq, below, above⟩ : ∃ least : Int,
        gridExponent num den = max least (-1074) ∧ (num : ℚ) / den < 2 ^ (53 + least) ∧
          2 ^ (52 + least) ≤ (num : ℚ) / den := by
      by_cases lower : (num : ℚ) / den < 2 ^ ((num.log2 : Int) - den.log2)
      · refine ⟨(num.log2 : Int) - den.log2 - 53, ?_, ?_, ?_⟩
        · simp [gridExponent, numPos.ne', smaller.2 lower]
        · rw [add_sub_cancel]
          exact lower
        · refine le_of_eq_of_le ?_ low.le
          congr 1
          ring
      · refine ⟨(num.log2 : Int) - den.log2 - 52, ?_, ?_, ?_⟩
        · simp only [gridExponent, numPos.ne', if_false, mt smaller.1 lower]
        · refine lt_of_lt_of_eq high ?_
          congr 1
          ring
        · rw [add_sub_cancel]
          exact not_lt.1 lower
    rw [leastEq]
    refine ⟨le_max_right _ _, lt_of_lt_of_le below ?_, ?_⟩
    · exact zpow_le_zpow_right₀ (by norm_num) (by omega)
    · rcases le_total least (-1074) with low | high
      · exact .inl (max_eq_right low)
      · exact .inr (by rw [max_eq_left high]; exact above)

theorem gridExponent_eq {num den : Nat} {e : Int} (pos : 0 < den)
    (grid : OnGrid ((num : ℚ) / den) e) : gridExponent num den = e :=
  (onGrid_gridExponent num pos).unique grid

theorem Canonical.exists_of_lt {n : Nat} (some : n ≠ 0) (small : n < twoTo 53) :
    ∃ spare ≤ 52, Canonical (n * twoTo spare) (-(spare : Int)) := by
  have bits : n.log2 ≤ 52 := by
    have := (Nat.log2_lt some).2 (show n < 2 ^ 53 from small)
    omega
  obtain ⟨spare, whole⟩ := Nat.exists_eq_add_of_le bits
  have low : 2 ^ n.log2 ≤ n := Nat.log2_self_le some
  have high : n < 2 ^ (n.log2 + 1) := Nat.lt_log2_self
  refine ⟨spare, by omega, ?_, by omega, by omega, .inl ?_⟩
  · calc n * 2 ^ spare
      _ < 2 ^ (n.log2 + 1) * 2 ^ spare := Nat.mul_lt_mul_of_pos_right high (by positivity)
      _ = 2 ^ 53 := by rw [← pow_add]; congr 1; omega
  · calc 2 ^ 52
      _ = 2 ^ n.log2 * 2 ^ spare := by rw [← pow_add]; congr 1
      _ ≤ n * 2 ^ spare := Nat.mul_le_mul_right _ low

theorem shifted_value (n spare : Nat) : ((n * twoTo spare : Nat) : ℚ) * 2 ^ (-(spare : Int)) = n := by
  rw [Nat.cast_mul, cast_twoTo, zpow_neg, zpow_natCast, mul_assoc, mul_inv_cancel₀ (by positivity),
    mul_one]

namespace Number

theorem ofRatio_mul_left (negative : Bool) (num : Nat) {den k : Nat} (denPos : 0 < den)
    (pos : 0 < k) : ofRatio negative (k * num) (k * den) = ofRatio negative num den := by
  have cancel : ((k * num : Nat) : ℚ) / (k * den : Nat) = (num : ℚ) / den := by
    rw [Nat.cast_mul, Nat.cast_mul]
    exact mul_div_mul_left _ _ (by exact_mod_cast pos.ne')
  have grid : gridExponent (k * num) (k * den) = gridExponent num den :=
    gridExponent_eq (Nat.mul_pos pos denPos) (cancel ▸ onGrid_gridExponent num denPos)
  have scaled : ∀ e, roundDiv (scaleDown (k * num) (k * den) e).1 (scaleDown (k * num) (k * den) e).2 =
      roundDiv (scaleDown num den e).1 (scaleDown num den e).2 := by
    intro e
    rw [← roundDiv_mul_left (scaleDown num den e).1 _ pos]
    simp only [scaleDown]
    split <;> simp [Nat.mul_assoc]
  simp only [ofRatio, grid, scaled]

theorem ofRatio_congr (negative : Bool) {num den num' den' : Nat} (denPos : 0 < den)
    (denPos' : 0 < den') (same : num * den' = num' * den) :
    ofRatio negative num den = ofRatio negative num' den' := by
  rw [← ofRatio_mul_left negative num denPos denPos', ← ofRatio_mul_left negative num' denPos' denPos,
    Nat.mul_comm den' num, same, Nat.mul_comm den' den, Nat.mul_comm num' den]

theorem pack_of_canonical (negative : Bool) {m : Nat} {e : Int} (canonical : Canonical m e) :
    pack negative m e = .finite negative m e canonical := by
  simp [pack, canonical]

theorem ofRatio_sign {num den m : Nat} {e : Int} {canonical : Canonical m e}
    (rounded : ofRatio false num den = .finite false m e canonical) (negative : Bool) :
    ofRatio negative num den = .finite negative m e canonical := by
  have packs : ∀ {k : Nat} {f : Int}, pack false k f = .finite false m e canonical →
      pack negative k f = .finite negative m e canonical := by
    intro k f packed
    simp only [pack] at packed ⊢
    split at packed
    · simp only [finite.injEq, true_and] at packed
      obtain ⟨rfl, rfl⟩ := packed
      simp [canonical]
    · exact absurd packed (by simp)
  simp only [ofRatio] at rounded ⊢
  split at rounded
  · rw [if_pos (by assumption)]
    exact packs rounded
  · rw [if_neg (by assumption)]
    exact packs rounded

theorem less_of_units {a b : Number} {x y : Int} (left : a.units? = some x)
    (right : b.units? = some y) : a.less b = decide (x < y) := by
  cases a <;> cases b <;> simp_all [less, units?]

end Number

end Arborist

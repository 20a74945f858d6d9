import Mathlib
import Arborist.Proofs.Number.Rounding

/-!
Rounding to nearest. Of the finite numbers the one nearest to a magnitude is taken, of two that are
as near the one with the even mantissa, and from half a step above the largest of them on an
infinity. `Rounds` says this without a way to compute it. It determines the number (`Rounds.unique`),
what rounds to one number is an interval (`Rounds.between`), and quotients are rounded so
(`ofRatio_rounds`). A magnitude that is closer to a number than half of the gap around it rounds to
that number (`Near.rounds`). Below a power of two the gap is half as wide as above, which is the
second clause of `Near`.
-/

namespace Arborist

/-- Half a step above the largest finite number. -/
def overflowAt : ℚ := (2 ^ 53 - 1 / 2) * 2 ^ (971 : Int)

theorem lt_overflowAt {unit : ℚ} (small : unit * 2 ≤ 2 ^ (971 : Int)) :
    2 ^ 53 * unit < overflowAt := by
  have pos : (0 : ℚ) < 2 ^ (971 : Int) := zpow_pos (by norm_num) _
  rw [overflowAt]
  generalize (2 : ℚ) ^ (971 : Int) = top at small pos
  linarith

theorem overflowAt_le {unit : ℚ} (large : 2 ^ (971 : Int) * 2 ≤ unit) :
    overflowAt ≤ 2 ^ 52 * unit := by
  have pos : (0 : ℚ) < 2 ^ (971 : Int) := zpow_pos (by norm_num) _
  rw [overflowAt]
  generalize (2 : ℚ) ^ (971 : Int) = top at large pos
  linarith

/-- The number that a magnitude is rounded to. -/
inductive Rounds (x : ℚ) : Number → Prop where
  | finite {m : Nat} {e : Int} {canonical : Canonical m e} (below : x < overflowAt)
      (nearest : ∀ k f, Canonical k f → |x - m * 2 ^ e| ≤ |x - k * 2 ^ f|)
      (even : ∀ k f, Canonical k f → (k : ℚ) * 2 ^ f ≠ m * 2 ^ e →
        |x - m * 2 ^ e| = |x - k * 2 ^ f| → m % 2 = 0) :
      Rounds x (.finite false m e canonical)
  | infinite (above : overflowAt ≤ x) : Rounds x (.infinity false)

section Between

variable {x p q : ℚ}

theorem mid_le_of_near (less : q < p) (near : |x - p| ≤ |x - q|) : p + q ≤ 2 * x := by
  by_contra below
  rw [not_le] at below
  have left : |x - q| < p - x := abs_lt.2 ⟨by linarith, by linarith⟩
  have right : p - x ≤ |x - p| := by
    rw [abs_sub_comm]
    exact le_abs_self _
  linarith

theorem le_mid_of_near (less : q < p) (near : |x - q| ≤ |x - p|) : 2 * x ≤ p + q := by
  by_contra above
  rw [not_le] at above
  have right : |x - p| < x - q := abs_lt.2 ⟨by linarith, by linarith⟩
  have left : x - q ≤ |x - q| := le_abs_self _
  linarith

theorem near_of_mid_le (less : q < p) (above : p + q ≤ 2 * x) : |x - p| ≤ |x - q| := by
  have inside : q ≤ x := by linarith
  rw [abs_of_nonneg (sub_nonneg.2 inside)]
  exact abs_le.2 ⟨by linarith, by linarith⟩

theorem near_of_le_mid (less : q < p) (below : 2 * x ≤ p + q) : |x - q| ≤ |x - p| := by
  have inside : x ≤ p := by linarith
  rw [abs_sub_comm x p, abs_of_nonneg (sub_nonneg.2 inside)]
  exact abs_le.2 ⟨by linarith, by linarith⟩

end Between

namespace Canonical

variable {m k : Nat} {e f : Int}

theorem size_lt (canonical : Canonical k f) : (k : ℚ) * 2 ^ f < 2 ^ (53 + f) := by
  have bits : (k : ℚ) < 2 ^ 53 := by
    rw [← cast_twoTo]
    exact_mod_cast canonical.1
  rw [zpow_add₀ (by norm_num)]
  exact mul_lt_mul_of_pos_right (by exact_mod_cast bits) (zpow_pos (by norm_num) _)

theorem onGrid (canonical : Canonical m e) : OnGrid ((m : ℚ) * 2 ^ e) e := by
  refine ⟨canonical.2.1, canonical.size_lt, ?_⟩
  rcases canonical.2.2.2 with full | least
  · refine .inr ?_
    have bits : (2 : ℚ) ^ 52 ≤ m := by
      rw [← cast_twoTo]
      exact_mod_cast full
    rw [zpow_add₀ (by norm_num)]
    exact mul_le_mul_of_nonneg_right (by exact_mod_cast bits) (zpow_nonneg (by norm_num) _)
  · exact .inl least

theorem exists_multiple (k : Nat) (coarser : e ≤ f) : ∃ j : Nat, (k : ℚ) * 2 ^ f = j * 2 ^ e := by
  refine ⟨k * 2 ^ (f - e).toNat, ?_⟩
  have split : f = ((f - e).toNat : Int) + e := by omega
  rw [Nat.cast_mul, Nat.cast_pow, Nat.cast_ofNat, mul_assoc, ← zpow_natCast,
    ← zpow_add₀ (by norm_num), ← split]

theorem inj (first : Canonical m e) (second : Canonical k f)
    (same : (m : ℚ) * 2 ^ e = k * 2 ^ f) : m = k ∧ e = f := by
  have units : e = f := first.onGrid.unique (same ▸ second.onGrid)
  subst units
  have unit : (2 : ℚ) ^ e ≠ 0 := zpow_ne_zero _ (by norm_num)
  exact ⟨by exact_mod_cast mul_right_cancel₀ unit same, rfl⟩

theorem succ_le (first : Canonical m e) (second : Canonical k f)
    (less : (m : ℚ) * 2 ^ e < k * 2 ^ f) : ((m : ℚ) + 1) * 2 ^ e ≤ k * 2 ^ f := by
  have unit : (0 : ℚ) < 2 ^ e := zpow_pos (by norm_num) _
  rcases le_or_gt e f with coarser | finer
  · obtain ⟨j, multiple⟩ := exists_multiple k coarser
    rw [multiple] at less ⊢
    have more : m < j := by exact_mod_cast lt_of_mul_lt_mul_right less unit.le
    exact mul_le_mul_of_nonneg_right (by exact_mod_cast more) unit.le
  · exfalso
    rcases first.onGrid.above with least | reached
    · have := second.2.1
      omega
    · have step : (2 : ℚ) ^ (53 + f) ≤ 2 ^ (52 + e) :=
        zpow_le_zpow_right₀ (by norm_num) (by omega)
      have := second.size_lt
      linarith

/-- Below a number nothing is representable for one step, or for half a step below a power of two. -/
theorem le_pred (first : Canonical m e) (second : Canonical k f)
    (less : (k : ℚ) * 2 ^ f < m * 2 ^ e) :
    (k : ℚ) * 2 ^ f ≤ m * 2 ^ e - 2 ^ e ∨
      m = twoTo 52 ∧ e ≠ -1074 ∧ (k : ℚ) * 2 ^ f ≤ m * 2 ^ e - 2 ^ e / 2 := by
  have positive : 0 < m := by
    rw [Nat.pos_iff_ne_zero]
    rintro rfl
    have : (0 : ℚ) ≤ k * 2 ^ f := mul_nonneg (Nat.cast_nonneg _) (zpow_nonneg (by norm_num) _)
    rw [Nat.cast_zero, zero_mul] at less
    exact absurd less (not_lt.2 this)
  obtain ⟨small, least, most, used⟩ := first
  by_cases same : twoTo 52 ≤ m - 1 ∨ e = -1074
  · have before : Canonical (m - 1) e := ⟨by omega, least, most, same⟩
    have size : (((m - 1 : Nat) : ℚ) + 1) * 2 ^ e = m * 2 ^ e := by
      rw [Nat.cast_sub positive, Nat.cast_one, sub_add_cancel]
    refine .inl (not_lt.1 fun more => ?_)
    have above : ((m - 1 : Nat) : ℚ) * 2 ^ e < k * 2 ^ f := by linarith
    have reached := before.succ_le second above
    rw [size] at reached
    exact absurd less (not_lt.2 reached)
  · have bits : m = twoTo 52 := by omega
    have before : Canonical (twoTo 53 - 1) (e - 1) := ⟨by decide, by omega, by omega, .inl (by decide)⟩
    have size : (((twoTo 53 - 1 : Nat) : ℚ) + 1) * 2 ^ (e - 1) = m * 2 ^ e := by
      rw [Nat.cast_sub (twoTo_pos 53), bits, cast_twoTo, cast_twoTo, zpow_sub_one₀ (by norm_num)]
      ring
    have half : (2 : ℚ) ^ e / 2 = 2 ^ (e - 1) := by rw [zpow_sub_one₀ (by norm_num), div_eq_mul_inv]
    refine .inr ⟨bits, by omega, not_lt.1 fun more => ?_⟩
    have above : ((twoTo 53 - 1 : Nat) : ℚ) * 2 ^ (e - 1) < k * 2 ^ f := by linarith
    have reached := before.succ_le second above
    rw [size] at reached
    exact absurd less (not_lt.2 reached)

end Canonical

namespace Rounds

variable {x y z : ℚ} {m k : Nat} {e f : Int} {canonical : Canonical m e} {other : Canonical k f}

theorem below (rounds : Rounds x (.finite false m e canonical)) : x < overflowAt := by
  cases rounds
  assumption

theorem nearest (rounds : Rounds x (.finite false m e canonical)) (other : Canonical k f) :
    |x - m * 2 ^ e| ≤ |x - k * 2 ^ f| := by
  cases rounds with
  | finite _ nearest _ => exact nearest k f other

theorem even (rounds : Rounds x (.finite false m e canonical)) (other : Canonical k f)
    (apart : (k : ℚ) * 2 ^ f ≠ m * 2 ^ e) (tie : |x - m * 2 ^ e| = |x - k * 2 ^ f|) :
    m % 2 = 0 := by
  cases rounds with
  | finite _ _ even => exact even k f other apart tie

theorem not_lt_of_both (first : Rounds x (.finite false m e canonical))
    (second : Rounds x (.finite false k f other)) : ¬ (m : ℚ) * 2 ^ e < k * 2 ^ f := by
  intro less
  have tie := le_antisymm (first.nearest other) (second.nearest canonical)
  have evenFirst := first.even other less.ne' tie
  have evenSecond := second.even canonical less.ne tie.symm
  have inside : m + 1 < twoTo 53 := by
    have bound := canonical.1
    have odd : (twoTo 53 - 1) % 2 = 1 := by decide
    omega
  have next : Canonical (m + 1) e := by
    refine ⟨inside, canonical.2.1, canonical.2.2.1, ?_⟩
    have := canonical.2.2.2
    omega
  have step := canonical.succ_le other less
  have size : ((m + 1 : Nat) : ℚ) * 2 ^ e = (m + 1) * 2 ^ e := by push_cast; rfl
  rcases step.lt_or_eq with gap | touch
  · have nearer := first.nearest next
    rw [size] at nearer
    have unit : (0 : ℚ) < 2 ^ e := zpow_pos (by norm_num) _
    have more : (m : ℚ) * 2 ^ e < (m + 1) * 2 ^ e := by nlinarith
    have low := le_mid_of_near more nearer
    have middle := mid_le_of_near less tie.ge
    linarith
  · obtain ⟨same, -⟩ := next.inj other (size.trans touch)
    omega

theorem unique {a b : Number} (first : Rounds x a) (second : Rounds x b) : a = b := by
  cases first with
  | @finite m e canonical below nearest even =>
    cases second with
    | @finite k f other below' nearest' even' =>
      have left : Rounds x (.finite false m e canonical) := .finite below nearest even
      have right : Rounds x (.finite false k f other) := .finite below' nearest' even'
      have same : (m : ℚ) * 2 ^ e = k * 2 ^ f :=
        le_antisymm (not_lt.1 (right.not_lt_of_both left)) (not_lt.1 (left.not_lt_of_both right))
      obtain ⟨rfl, rfl⟩ := canonical.inj other same
      rfl
    | infinite above => exact absurd below (not_lt.2 above)
  | infinite above =>
    cases second with
    | finite below _ _ => exact absurd below (not_lt.2 above)
    | infinite _ => rfl

theorem mono (le : x ≤ y) (first : Rounds x (.finite false m e canonical))
    (second : Rounds y (.finite false k f other)) : (m : ℚ) * 2 ^ e ≤ k * 2 ^ f := by
  by_contra more
  rw [not_le] at more
  have above := mid_le_of_near more (first.nearest other)
  have below := le_mid_of_near more (second.nearest canonical)
  have same : x = y := by linarith
  subst same
  exact second.not_lt_of_both first more

theorem between (low : Rounds x (.finite false m e canonical))
    (high : Rounds y (.finite false m e canonical)) (above : x ≤ z) (below : z ≤ y) :
    Rounds z (.finite false m e canonical) := by
  refine .finite (lt_of_le_of_lt below high.below) (fun k f other => ?_) (fun k f other apart tie => ?_)
  · rcases lt_trichotomy ((k : ℚ) * 2 ^ f) (m * 2 ^ e) with less | same | more
    · have middle := mid_le_of_near less (low.nearest other)
      exact near_of_mid_le less (by linarith)
    · rw [same]
    · have middle := le_mid_of_near more (high.nearest other)
      exact near_of_le_mid more (by linarith)
  · rcases lt_or_gt_of_ne apart with less | more
    · have middle := mid_le_of_near less (low.nearest other)
      have half := le_mid_of_near less tie.ge
      obtain rfl : x = z := by linarith
      exact low.even other apart tie
    · have middle := le_mid_of_near more (high.nearest other)
      have half := mid_le_of_near more tie.ge
      obtain rfl : z = y := by linarith
      exact high.even other apart tie

theorem self (canonical : Canonical m e) : Rounds (m * 2 ^ e) (.finite false m e canonical) := by
  refine .finite ?_ (fun k f _ => ?_) (fun k f _ apart tie => ?_)
  · have bits : (m : ℚ) ≤ 2 ^ 53 - 1 := by
      have : (m : ℚ) + 1 ≤ twoTo 53 := by exact_mod_cast canonical.1
      rw [cast_twoTo] at this
      linarith
    have top : (2 : ℚ) ^ e ≤ 2 ^ (971 : Int) := zpow_le_zpow_right₀ (by norm_num) canonical.2.2.1
    have unit : (0 : ℚ) < 2 ^ (971 : Int) := zpow_pos (by norm_num) _
    calc (m : ℚ) * 2 ^ e ≤ (2 ^ 53 - 1) * 2 ^ (971 : Int) :=
          mul_le_mul bits top (zpow_nonneg (by norm_num) _) (by norm_num)
      _ < overflowAt := mul_lt_mul_of_pos_right (by norm_num) unit
  · rw [sub_self, abs_zero]
    exact abs_nonneg _
  · rw [sub_self, abs_zero] at tie
    exact absurd (sub_eq_zero.1 (abs_eq_zero.1 tie.symm)).symm apart

end Rounds

/-- Closer to `m * 2 ^ e` than half of the gap to the next number on either side. -/
structure Near (x : ℚ) (m : Nat) (e : Int) : Prop where
  within : |x - m * 2 ^ e| < 2 ^ e / 2
  below : m = twoTo 52 → e ≠ -1074 → m * 2 ^ e - x < 2 ^ e / 4

theorem Near.self (m : Nat) (e : Int) : Near (m * 2 ^ e) m e := by
  have positive : (0 : ℚ) < 2 ^ e := zpow_pos (by norm_num) _
  exact ⟨by rw [sub_self, abs_zero]; linarith, fun _ _ => by rw [sub_self]; linarith⟩

theorem Near.rounds {x : ℚ} {m : Nat} {e : Int} (near : Near x m e) (canonical : Canonical m e) :
    Rounds x (.finite false m e canonical) := by
  have unit : (0 : ℚ) < 2 ^ e := zpow_pos (by norm_num) _
  obtain ⟨low, high⟩ := abs_lt.1 near.within
  have farther {k : Nat} {f : Int} (other : Canonical k f) (apart : (k : ℚ) * 2 ^ f ≠ m * 2 ^ e) :
      |x - m * 2 ^ e| < |x - k * 2 ^ f| := by
    rcases lt_or_gt_of_ne apart with less | more
    · have distance : x - k * 2 ^ f ≤ |x - k * 2 ^ f| := le_abs_self _
      refine lt_of_lt_of_le (abs_lt.2 ⟨?_, by linarith⟩) distance
      rcases canonical.le_pred other less with step | ⟨bits, notLeast, step⟩
      · linarith
      · have close := near.below bits notLeast
        linarith
    · have step := canonical.succ_le other more
      have distance : k * 2 ^ f - x ≤ |x - k * 2 ^ f| := by
        rw [abs_sub_comm]
        exact le_abs_self _
      rw [add_mul, one_mul] at step
      exact lt_of_lt_of_le (abs_lt.2 ⟨by linarith, by linarith⟩) distance
  refine .finite ?_ (fun k f other => ?_) (fun k f other apart tie => ?_)
  · have bits : (m : ℚ) + 1 ≤ 2 ^ 53 := by
      rw [← cast_twoTo]
      exact_mod_cast canonical.1
    have top : (2 : ℚ) ^ e ≤ 2 ^ (971 : Int) := zpow_le_zpow_right₀ (by norm_num) canonical.2.2.1
    calc x < (m + 1 / 2) * 2 ^ e := by linarith
      _ ≤ overflowAt := mul_le_mul (by linarith) top unit.le (by norm_num)
  · by_cases same : (k : ℚ) * 2 ^ f = m * 2 ^ e
    · rw [same]
    · exact (farther other same).le
  · exact absurd tie (farther other apart).ne

/-- The rounded quotient is at most one half away, and even where it is exactly one half away. -/
theorem roundDiv_half (num : Nat) {den : Nat} (pos : 0 < den) :
    |(num : ℚ) / den - roundDiv num den| ≤ 1 / 2 ∧
      (|(num : ℚ) / den - roundDiv num den| = 1 / 2 → roundDiv num den % 2 = 0) := by
  have denPos : (0 : ℚ) < den := by exact_mod_cast pos
  have small := Nat.mod_lt num pos
  have split : (num : ℚ) / den = (num / den : Nat) + ((num % den : Nat) : ℚ) / den := by
    rw [div_eq_iff denPos.ne', add_mul, div_mul_cancel₀ _ denPos.ne']
    exact_mod_cast (Nat.div_add_mod' num den).symm
  have part : (0 : ℚ) ≤ ((num % den : Nat) : ℚ) / den := by positivity
  rw [split]
  simp only [roundDiv]
  split
  · rename_i low
    have half : ((num % den : Nat) : ℚ) / den < 1 / 2 := by
      rw [div_lt_div_iff₀ denPos (by norm_num)]
      have : num % den * 2 < 1 * den := by omega
      exact_mod_cast this
    rw [add_sub_cancel_left, abs_of_nonneg part]
    exact ⟨half.le, fun tie => absurd tie half.ne⟩
  · split
    · rename_i notLow high
      have half : 1 / 2 < ((num % den : Nat) : ℚ) / den := by
        rw [div_lt_div_iff₀ (by norm_num) denPos]
        have : 1 * den < num % den * 2 := by omega
        exact_mod_cast this
      have whole : ((num % den : Nat) : ℚ) / den < 1 := by
        rw [div_lt_one denPos]
        exact_mod_cast small
      have distance : |((num / den : Nat) : ℚ) + ((num % den : Nat) : ℚ) / den -
          (num / den + 1 : Nat)| < 1 / 2 := by
        rw [Nat.cast_add, Nat.cast_one, abs_lt]
        constructor <;> linarith
      exact ⟨distance.le, fun tie => absurd tie distance.ne⟩
    · rename_i notLow notHigh
      have half : ((num % den : Nat) : ℚ) / den = 1 / 2 := by
        rw [div_eq_div_iff denPos.ne' (by norm_num)]
        have : num % den * 2 = 1 * den := by omega
        exact_mod_cast this
      have parity : num / den % 2 = 0 ∨ num / den % 2 = 1 := by omega
      refine ⟨?_, fun _ => by omega⟩
      rw [half]
      rcases parity with even | odd
      · rw [even, Nat.add_zero, add_sub_cancel_left]
        norm_num
      · rw [odd, Nat.cast_add, Nat.cast_one, add_sub_add_left_eq_sub]
        norm_num [abs_of_nonpos]

theorem near_of_half {q : ℚ} {k : Nat} (half : |q - k| ≤ 1 / 2) (j : Nat) :
    |q - k| ≤ |q - j| ∧ (j ≠ k → |q - k| = |q - j| → |q - k| = 1 / 2) := by
  by_cases same : j = k
  · subst same
    exact ⟨le_rfl, fun apart => absurd rfl apart⟩
  · have step : (1 : ℚ) ≤ |(k : ℚ) - j| := by
      have : (1 : Int) ≤ |(k : Int) - j| := Int.one_le_abs (by omega)
      exact_mod_cast this
    have triangle : |(k : ℚ) - j| ≤ |q - k| + |q - j| := by
      rw [abs_sub_comm q k]
      exact abs_sub_le _ _ _
    exact ⟨by linarith, fun _ tie => by linarith⟩

namespace OnGrid

variable {x : ℚ} {e : Int}

theorem bits_le (grid : OnGrid x e) (notLeast : e ≠ -1074) : 2 ^ 52 * 2 ^ e ≤ x := by
  have reached := grid.above.resolve_left notLeast
  rw [zpow_add₀ (by norm_num)] at reached
  exact_mod_cast reached

theorem lt_bits (grid : OnGrid x e) : x < 2 ^ 53 * 2 ^ e := by
  have below := grid.below
  rw [zpow_add₀ (by norm_num)] at below
  exact_mod_cast below

theorem lt_overflowAt (grid : OnGrid x e) (inRange : e < 971) : x < overflowAt := by
  have step : (2 : ℚ) ^ e * 2 ≤ 2 ^ (971 : Int) := by
    rw [← zpow_add_one₀ (by norm_num)]
    exact zpow_le_zpow_right₀ (by norm_num) (by omega)
  exact grid.lt_bits.trans (Arborist.lt_overflowAt step)

theorem overflowAt_le (grid : OnGrid x e) (outOfRange : 971 < e) : overflowAt ≤ x := by
  have step : 2 ^ (971 : Int) * 2 ≤ (2 : ℚ) ^ e := by
    rw [← zpow_add_one₀ (by norm_num)]
    exact zpow_le_zpow_right₀ (by norm_num) (by omega)
  exact (Arborist.overflowAt_le step).trans (grid.bits_le (by omega))

end OnGrid

/-- The nearest point of a magnitude's grid, the even one of two. -/
structure NearestPoint (x : ℚ) (k : Nat) (e : Int) : Prop where
  grid : OnGrid x e
  half : |x / 2 ^ e - k| ≤ 1 / 2
  tie : |x / 2 ^ e - k| = 1 / 2 → k % 2 = 0

namespace NearestPoint

variable {x : ℚ} {k j : Nat} {e f : Int}

theorem le_bits (point : NearestPoint x k e) : k ≤ twoTo 53 := by
  have below : x / 2 ^ e < 2 ^ 53 := by
    rw [div_lt_iff₀ (zpow_pos (by norm_num) _)]
    exact point.grid.lt_bits
  have low := (abs_le.1 point.half).1
  have more : (k : ℚ) < 2 ^ 53 + 1 := by linarith
  have : k < 2 ^ 53 + 1 := by exact_mod_cast more
  exact Nat.lt_succ_iff.1 this

theorem full (point : NearestPoint x k e) : twoTo 52 ≤ k ∨ e = -1074 := by
  by_cases least : e = -1074
  · exact .inr least
  · have bits : (2 : ℚ) ^ 52 ≤ x / 2 ^ e := by
      rw [le_div_iff₀ (zpow_pos (by norm_num) _)]
      exact point.grid.bits_le least
    have high := (abs_le.1 point.half).2
    have more : (2 ^ 52 : ℚ) < k + 1 := by linarith
    have : 2 ^ 52 < k + 1 := by exact_mod_cast more
    exact .inl (Nat.lt_succ_iff.1 this)

theorem nearest (point : NearestPoint x k e) (canonical : Canonical j f) :
    |x - k * 2 ^ e| ≤ |x - j * 2 ^ f| ∧
      ((j : ℚ) * 2 ^ f ≠ k * 2 ^ e → |x - k * 2 ^ e| = |x - j * 2 ^ f| → k % 2 = 0) := by
  obtain ⟨grid, half, tie⟩ := point
  have unit : (0 : ℚ) < 2 ^ e := zpow_pos (by norm_num) _
  have scaled (i : Nat) : |x - i * 2 ^ e| = |x / 2 ^ e - i| * 2 ^ e := by
    have shift : x - i * 2 ^ e = (x / 2 ^ e - i) * 2 ^ e := by
      rw [sub_mul, div_mul_cancel₀ _ unit.ne']
    rw [shift, abs_mul, abs_of_pos unit]
  rcases le_or_gt e f with coarser | finer
  · obtain ⟨i, multiple⟩ := Canonical.exists_multiple j coarser
    obtain ⟨near, exact⟩ := near_of_half half i
    rw [multiple, scaled k, scaled i]
    refine ⟨mul_le_mul_of_nonneg_right near unit.le, fun apart same => tie (exact ?_ ?_)⟩
    · rintro rfl
      exact apart rfl
    · exact mul_right_cancel₀ unit.ne' same
  · -- A number of a finer grid lies below the grid's first power of two.
    have reached : (2 : ℚ) ^ (52 + e) ≤ x := grid.above.resolve_left (by
      have := canonical.2.1
      omega)
    have below : (j : ℚ) * 2 ^ f < 2 ^ (52 + e) :=
      lt_of_lt_of_le canonical.size_lt (zpow_le_zpow_right₀ (by norm_num) (by omega))
    have power : (2 : ℚ) ^ (52 + e) = (2 ^ 52 : Nat) * 2 ^ e := by
      rw [zpow_add₀ (by norm_num)]
      norm_cast
    have corner : |x - k * 2 ^ e| ≤ x - 2 ^ (52 + e) := by
      rw [← abs_of_nonneg (sub_nonneg.2 reached), power, scaled k, scaled]
      exact mul_le_mul_of_nonneg_right (near_of_half half _).1 unit.le
    have further : |x - k * 2 ^ e| < |x - j * 2 ^ f| := by
      have : x - j * 2 ^ f ≤ |x - j * 2 ^ f| := le_abs_self _
      linarith
    exact ⟨further.le, fun _ same => absurd same further.ne⟩

/-- On the last grid the middle above the last point is rounded up, as that point is odd. -/
theorem lt_overflowAt_of_last (point : NearestPoint x k 971) (small : k < twoTo 53) :
    x < overflowAt := by
  have top : (0 : ℚ) < 2 ^ (971 : Int) := zpow_pos (by norm_num) _
  have last : (k : ℚ) + 1 ≤ 2 ^ 53 := by
    have : (k : ℚ) + 1 ≤ twoTo 53 := by exact_mod_cast small
    rwa [cast_twoTo] at this
  have high := (abs_le.1 point.half).2
  rw [overflowAt, ← div_lt_iff₀ top]
  by_contra reached
  rw [not_lt] at reached
  have middle : x / 2 ^ (971 : Int) - k = 1 / 2 := by linarith
  have even := point.tie (by rw [middle]; norm_num)
  have odd : k + 1 = 2 ^ 53 := by
    have : (k : ℚ) + 1 = 2 ^ 53 := by linarith
    exact_mod_cast this
  omega

theorem overflowAt_le_of_carry (point : NearestPoint x (twoTo 53) 971) : overflowAt ≤ x := by
  have top : (0 : ℚ) < 2 ^ (971 : Int) := zpow_pos (by norm_num) _
  have low := (abs_le.1 point.half).1
  rw [cast_twoTo] at low
  rw [overflowAt, ← le_div_iff₀ top]
  linarith

theorem rounds_pack (point : NearestPoint x k e) (small : k < twoTo 53) :
    Rounds x (Number.pack false k e) := by
  rw [Number.pack]
  split
  · rename_i canonical
    refine .finite ?_ (fun j f other => (point.nearest other).1)
      (fun j f other => (point.nearest other).2)
    rcases canonical.2.2.1.lt_or_eq with less | rfl
    · exact point.grid.lt_overflowAt less
    · exact point.lt_overflowAt_of_last small
  · rename_i outside
    refine .infinite (point.grid.overflowAt_le ?_)
    by_contra inside
    exact outside ⟨small, point.grid.least, by omega, point.full⟩

/-- A point of 54 bits is the first one of the next grid. -/
theorem rounds_carry (point : NearestPoint x (twoTo 53) e) :
    Rounds x (Number.pack false (twoTo 52) (e + 1)) := by
  have least := point.grid.least
  have double : ((twoTo 52 : Nat) : ℚ) * 2 ^ (e + 1) = (twoTo 53 : Nat) * 2 ^ e := by
    rw [cast_twoTo, cast_twoTo, zpow_add_one₀ (by norm_num)]
    ring
  rw [Number.pack]
  split
  · rename_i canonical
    have inRange := canonical.2.2.1
    refine .finite (point.grid.lt_overflowAt (by omega)) (fun j f other => ?_) (fun _ _ _ _ _ => ?_)
    · rw [double]
      exact (point.nearest other).1
    · decide
  · rename_i outside
    have large : 971 ≤ e := by
      by_contra less
      exact outside ⟨by decide, by omega, by omega, .inl le_rfl⟩
    rcases large.lt_or_eq with more | rfl
    · exact .infinite (point.grid.overflowAt_le more)
    · exact .infinite point.overflowAt_le_of_carry

end NearestPoint

namespace Number

theorem nearestPoint (num : Nat) {den : Nat} (pos : 0 < den) :
    NearestPoint ((num : ℚ) / den) (roundDiv (scaleDown num den (gridExponent num den)).1
      (scaleDown num den (gridExponent num den)).2) (gridExponent num den) := by
  obtain ⟨half, tie⟩ := roundDiv_half (scaleDown num den (gridExponent num den)).1
    (scaleDown_pos num (gridExponent num den) pos)
  rw [scaleDown_ratio] at half tie
  exact ⟨onGrid_gridExponent num pos, half, tie⟩

/-- A quotient is rounded to the nearest number. -/
theorem ofRatio_rounds (num : Nat) {den : Nat} (pos : 0 < den) :
    Rounds ((num : ℚ) / den) (ofRatio false num den) := by
  have point := nearestPoint num pos
  simp only [ofRatio]
  generalize gridExponent num den = e at point ⊢
  split
  · rename_i carry
    rw [carry] at point
    exact point.rounds_carry
  · rename_i notCarry
    exact point.rounds_pack (lt_of_le_of_ne point.le_bits notCarry)

theorem ofRatio_of_eq (negative : Bool) {num den m : Nat} {e : Int} (pos : 0 < den)
    (canonical : Canonical m e) (value : (num : ℚ) / den = m * 2 ^ e) :
    ofRatio negative num den = .finite negative m e canonical := by
  have rounds := ofRatio_rounds num pos
  rw [value] at rounds
  exact ofRatio_sign (rounds.unique (.self canonical)) negative

theorem ofNat_rounds (n : Nat) : Rounds n (ofNat n) := by
  have rounds := ofRatio_rounds n (show 0 < 1 by decide)
  rwa [Nat.cast_one, div_one] at rounds

theorem zero_rounds {x : ℚ} (nonneg : 0 ≤ x) (tiny : x < 2 ^ (-1075 : Int)) :
    Rounds x (.zero false) := by
  refine .finite ?_ ?_ (fun _ _ _ _ _ => rfl)
  · have small : (2 : ℚ) ^ (-1075 : Int) * 2 ≤ 2 ^ (971 : Int) := by
      rw [← zpow_add_one₀ (by norm_num)]
      exact zpow_le_zpow_right₀ (by norm_num) (by norm_num)
    have more : (2 : ℚ) ^ (-1075 : Int) ≤ 2 ^ 53 * 2 ^ (-1075 : Int) :=
      le_mul_of_one_le_left (zpow_nonneg (by norm_num) _) (by norm_num)
    exact tiny.trans (more.trans_lt (lt_overflowAt small))
  · intro k f other
    rw [Nat.cast_zero, zero_mul, sub_zero, abs_of_nonneg nonneg]
    rcases Nat.eq_zero_or_pos k with rfl | positive
    · rw [Nat.cast_zero, zero_mul, sub_zero, abs_of_nonneg nonneg]
    · have one : (1 : ℚ) ≤ k := by exact_mod_cast positive
      have least : (2 : ℚ) ^ (-1074 : Int) ≤ 2 ^ f := zpow_le_zpow_right₀ (by norm_num) other.2.1
      have double : (2 : ℚ) ^ (-1074 : Int) = 2 ^ (-1075 : Int) * 2 := by
        rw [← zpow_add_one₀ (by norm_num)]
        norm_num
      have far : k * 2 ^ f - x ≤ |x - k * 2 ^ f| := by
        rw [abs_sub_comm]
        exact le_abs_self _
      nlinarith

end Number

end Arborist

import Mathlib
import Arborist.Proofs.Number.Nearest
import Arborist.Proofs.Source.Search
import Arborist.Text.Join

/-!
Lines by counting line feeds. The line of an offset is one more than the line feeds before it. Line
numbers are kept as binary64 numbers, and below `2 ^ 53` these count and compare as naturals do.
-/

namespace Arborist

namespace LineIndex

theorem length_takeWhile_startsFrom (base : Nat) (front rest : List Char) :
    ((startsFrom base (front ++ rest)).takeWhile (· ≤ base + Text.byteLength front)).length =
      front.count '\n' := by
  induction front generalizing base with
  | nil =>
    rw [List.count_nil, List.length_eq_zero_iff, List.takeWhile_eq_nil_iff]
    intro some
    have := lt_of_mem_startsFrom (List.getElem_mem some)
    simpa [Text.byteLength] using this
  | cons c more ih =>
    have behind := ih (base + c.utf8Size)
    rw [Nat.add_assoc] at behind
    rw [List.cons_append, startsFrom, Text.byteLength]
    split
    · rename_i feed
      rw [List.takeWhile_cons_of_pos (by simp), List.length_cons, behind, feed,
        List.count_cons_self]
    · rename_i other
      rw [behind, List.count_cons_of_ne other]

theorem line_position (front rest : List Char) :
    ((ofText (front ++ rest)).position (Text.byteLength front)).line = front.count '\n' + 1 := by
  have behind := length_takeWhile_startsFrom 0 front rest
  rw [Nat.zero_add] at behind
  rw [line_eq_takeWhile, ofText, List.takeWhile_cons_of_pos (by simp), List.length_cons, behind]

theorem length_startsFrom (offset : Nat) (cs : List Char) :
    (startsFrom offset cs).length = cs.count '\n' := by
  induction cs generalizing offset with
  | nil => rfl
  | cons c rest ih =>
    rw [startsFrom]
    split
    · rename_i feed
      rw [List.length_cons, ih, feed, List.count_cons_self]
    · rename_i other
      rw [ih, List.count_cons_of_ne other]

theorem line_le (text : List Char) (offset : Nat) :
    ((ofText text).position offset).line ≤ text.count '\n' + 1 := by
  rw [line_eq_takeWhile, ofText, ← length_startsFrom 0 text]
  exact (List.takeWhile_prefix _).length_le

/-- So few lines that binary64 numbers count them. -/
def Few (text : List Char) : Prop := text.count '\n' + 2 < twoTo 53

end LineIndex

namespace Number

theorem units?_ofNat {n : Nat} (small : n < twoTo 53) :
    (ofNat n).units? = some ((n : Int) * twoTo 1074) := by
  by_cases none : n = 0
  · subst none
    decide +kernel
  · obtain ⟨spare, most, canonical⟩ := Canonical.exists_of_lt none small
    have value : ((n : Nat) : ℚ) / (1 : Nat) = (n * twoTo spare : Nat) * 2 ^ (-(spare : Int)) := by
      rw [shifted_value, Nat.cast_one, div_one]
    rw [ofNat, ofRatio_of_eq false Nat.one_pos canonical value]
    have scale : (-(spare : Int) + 1074).toNat = 1074 - spare := by omega
    have size : n * twoTo spare * twoTo (1074 - spare) = n * twoTo 1074 := by
      rw [Nat.mul_assoc, ← twoTo_add, Nat.add_sub_cancel' (by omega)]
    simp only [units?, Bool.false_eq_true, if_false, scale, size]
    rfl

theorem add_of_units {a b : Number} {x y : Int} (left : a.units? = some x)
    (right : b.units? = some y) (positive : 0 < x + y) :
    a.add b = ofRatio false (x + y).natAbs (twoTo 1074) := by
  have apart : x + y ≠ 0 := by omega
  have sign : ¬ x + y < 0 := by omega
  cases a with
  | nan | infinity => simp [units?] at left
  | finite =>
    cases b with
    | nan | infinity => simp [units?] at right
    | finite => simp only [add, left, right, apart, sign, if_false, decide_false]

theorem ofNat_add_one {n : Nat} (small : n + 1 < twoTo 53) : (ofNat n).add one = ofNat (n + 1) := by
  have left := units?_ofNat (Nat.lt_of_succ_lt small)
  have right : one.units? = some (((1 : Nat) : Int) * twoTo 1074) := units?_ofNat (by decide)
  have sum : ((n : Int) * twoTo 1074 + ((1 : Nat) : Int) * twoTo 1074) =
      (((n + 1) * twoTo 1074 : Nat) : Int) := by push_cast; ring
  have positive : 0 < (n + 1) * twoTo 1074 := Nat.mul_pos n.succ_pos (twoTo_pos _)
  rw [add_of_units left right (by rw [sum]; exact_mod_cast positive), sum, Int.natAbs_natCast, ofNat]
  exact ofRatio_congr false (twoTo_pos _) Nat.one_pos (by ring)

theorem add_one_less {n m : Nat} (first : n + 1 < twoTo 53) (second : m < twoTo 53) :
    ((ofNat n).add one).less (ofNat m) = decide (n + 1 < m) := by
  have scale : (0 : Int) < twoTo 1074 := by exact_mod_cast twoTo_pos 1074
  rw [ofNat_add_one first, less_of_units (units?_ofNat first) (units?_ofNat second)]
  congr 1
  rw [eq_iff_iff, Int.mul_lt_mul_right scale]
  exact Int.ofNat_lt

-- From `2 ^ 53` on the next line can count as one further down.
example : ((ofNat (2 ^ 53 + 1)).add one).less (ofNat (2 ^ 53 + 2)) = true := by decide +kernel

end Number

end Arborist

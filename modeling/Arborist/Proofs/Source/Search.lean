import Mathlib
import Arborist.Source.Line

/-!
Bisection of line starts. A search of increasing offsets has one documented answer, and bisection
gives it: it keeps all offsets before its window below the one that is looked for and all behind the
window above it. So a position belongs to the last line that starts at the offset or before.
-/

namespace Arborist

namespace LineIndex

/-- What a search of increasing offsets may answer: the index at which the offset stands, or the one
at which it would have to be put in. -/
inductive Located (starts : List Nat) (offset : Nat) : Except Nat Nat → Prop where
  | found {line : Nat} (stands : starts[line]? = some offset) : Located starts offset (.ok line)
  | missing {next : Nat} (inside : next ≤ starts.length)
      (before : ∀ start ∈ starts.take next, start < offset)
      (behind : ∀ start ∈ starts.drop next, offset < start) : Located starts offset (.error next)

theorem lt_of_mem_take {starts : List Nat} (increasing : starts.Pairwise (· < ·)) {n start : Nat}
    (within : n < starts.length) (member : start ∈ starts.take n) : start < starts[n] := by
  obtain ⟨i, bound, rfl⟩ := List.mem_take_iff_getElem.1 member
  exact List.pairwise_iff_getElem.1 increasing i n (by omega) within (by omega)

theorem lt_of_mem_drop {starts : List Nat} (increasing : starts.Pairwise (· < ·)) {n start : Nat}
    (within : n < starts.length) (member : start ∈ starts.drop (n + 1)) : starts[n] < start := by
  obtain ⟨i, bound, rfl⟩ := List.mem_drop_iff_getElem.1 member
  exact List.pairwise_iff_getElem.1 increasing n (n + 1 + i) within (by omega) (by omega)

/-- The offsets before the window stay below and those behind it above, whichever half is left. -/
theorem bisect_located {starts : List Nat} (increasing : starts.Pairwise (· < ·))
    {offset low high : Nat} (inside : high ≤ starts.length) (ordered : low ≤ high)
    (before : ∀ start ∈ starts.take low, start < offset)
    (behind : ∀ start ∈ starts.drop high, offset < start) :
    Located starts offset (bisect starts offset low high inside) := by
  fun_induction bisect starts offset low high inside with
  | case1 low high inside some middle within stands =>
    apply Located.found
    rw [List.getElem?_eq_getElem within, stands]
  | case2 low high inside some middle within other less ih =>
    apply ih (by omega) _ behind
    intro start member
    rw [List.take_add_one, List.getElem?_eq_getElem within] at member
    rcases List.mem_append.1 member with earlier | here
    · have := lt_of_mem_take increasing within earlier
      omega
    · obtain rfl : start = starts[middle] := by simpa using here
      exact less
  | case3 low high inside some middle within other notLess ih =>
    apply ih (by omega) before
    intro start member
    rw [List.drop_eq_getElem_cons within] at member
    rcases List.mem_cons.1 member with rfl | later
    · omega
    · have := lt_of_mem_drop increasing within later
      omega
  | case4 low high inside closed =>
    have same : high = low := by omega
    subst same
    exact .missing inside before behind

theorem search_located {index : LineIndex} (increasing : index.starts.Pairwise (· < ·))
    (offset : Nat) : Located index.starts offset (index.search offset) := by
  apply bisect_located increasing _ (Nat.zero_le _)
  · simp
  · simp

theorem located_iff {front back : List Nat} {start offset : Nat} {answer : Except Nat Nat}
    (before : ∀ s ∈ front, s < start) (le : start ≤ offset) (behind : ∀ s ∈ back, offset < s) :
    Located (front ++ start :: back) offset answer ↔
      answer = if start = offset then .ok front.length else .error (front.length + 1) := by
  constructor
  · rintro (@⟨line, stands⟩ | @⟨next, inside, below, above⟩)
    · rcases Nat.lt_trichotomy line front.length with early | rfl | late
      · rw [List.getElem?_append_left early] at stands
        have := before offset (List.mem_of_getElem? stands)
        omega
      · have same : start = offset := by simpa using stands
        rw [if_pos same]
      · obtain ⟨j, rfl⟩ := Nat.exists_eq_add_of_lt late
        rw [List.getElem?_append_right (by omega), Nat.add_assoc, Nat.add_sub_cancel_left,
          List.getElem?_cons_succ] at stands
        have := behind offset (List.mem_of_getElem? stands)
        omega
    · rcases Nat.lt_or_ge front.length next with past | early
      · obtain ⟨j, rfl⟩ := Nat.exists_eq_add_of_lt past
        have apart : start < offset := below start (by simp [List.take_append, Nat.add_assoc])
        cases j with
        | zero => rw [if_neg apart.ne]
        | succ j =>
          cases back with
          | nil => simp at inside
          | cons s back =>
            have := below s (by simp [List.take_append, Nat.add_assoc])
            have := behind s List.mem_cons_self
            omega
      · have := above start (by rw [List.drop_append_of_le_length early]; simp)
        omega
  · rintro rfl
    split
    · rename_i same
      exact .found (by simp [same])
    · rename_i other
      refine .missing (by simp) (fun s member => ?_)
        fun s member => behind s (by simpa using member)
      have : s ∈ front ∨ s = start := by
        simpa [List.take_append, List.take_of_length_le] using member
      rcases this with earlier | rfl
      · exact (before s earlier).trans_le le
      · omega

theorem search_eq {front back : List Nat} {start offset : Nat}
    (increasing : (front ++ start :: back).Pairwise (· < ·)) (le : start ≤ offset)
    (behind : ∀ s ∈ back, offset < s) : search ⟨front ++ start :: back⟩ offset =
      if start = offset then .ok front.length else .error (front.length + 1) := by
  have before : ∀ s ∈ front, s < start := by
    intro s member
    exact (List.pairwise_append.1 increasing).2.2 s member start List.mem_cons_self
  exact (located_iff before le behind).1 (search_located increasing offset)

theorem position_eq_of_split {front back : List Nat} {start offset : Nat}
    (increasing : (front ++ start :: back).Pairwise (· < ·)) (le : start ≤ offset)
    (behind : ∀ s ∈ back, offset < s) :
    position ⟨front ++ start :: back⟩ offset = ⟨front.length + 1, offset - start⟩ := by
  have answer := search_eq increasing le behind
  have stands : (front ++ start :: back)[front.length]? = some start := by simp
  unfold position
  rw [answer]
  by_cases same : start = offset
  · simp only [if_pos same, stands, Option.getD_some]
  · simp only [if_neg same, Nat.add_sub_cancel, stands, Option.getD_some]

section Split

variable {starts : List Nat} (increasing : starts.Pairwise (· < ·))

include increasing

theorem mem_takeWhile_le {offset start : Nat} :
    start ∈ starts.takeWhile (· ≤ offset) ↔ start ∈ starts ∧ start ≤ offset := by
  induction starts with
  | nil => simp
  | cons first rest ih =>
    obtain ⟨least, increasing⟩ := List.pairwise_cons.1 increasing
    rw [List.takeWhile_cons]
    split
    · rename_i within
      rw [List.mem_cons, List.mem_cons, ih increasing]
      simp only [decide_eq_true_eq] at within
      grind
    · rename_i past
      simp only [decide_eq_true_eq] at past
      simp only [List.not_mem_nil, List.mem_cons, false_iff, not_and]
      rintro (rfl | member)
      · exact past
      · have := least start member
        omega

theorem lt_of_mem_dropWhile {offset start : Nat}
    (member : start ∈ starts.dropWhile (· ≤ offset)) : offset < start := by
  by_contra within
  have early := (mem_takeWhile_le increasing).2
    ⟨(List.dropWhile_suffix _).subset member, Nat.le_of_not_lt within⟩
  rw [← List.takeWhile_append_dropWhile (p := (· ≤ offset)) (l := starts),
    List.pairwise_append] at increasing
  exact absurd (increasing.2.2 start early start member) (Nat.lt_irrefl start)

/-- The line of an offset is the last one that starts at the offset or before. -/
theorem position_eq_takeWhile {offset start : Nat}
    (last : (starts.takeWhile (· ≤ offset)).getLast? = some start) : position ⟨starts⟩ offset =
      ⟨(starts.takeWhile (· ≤ offset)).length, offset - start⟩ := by
  obtain ⟨front, shape⟩ := List.getLast?_eq_some_iff.1 last
  have split : starts = front ++ start :: starts.dropWhile (· ≤ offset) := by
    rw [List.append_cons, ← shape, List.takeWhile_append_dropWhile]
  have le : start ≤ offset := by
    have member : start ∈ starts.takeWhile (· ≤ offset) := List.mem_of_getLast? last
    exact ((mem_takeWhile_le increasing).1 member).2
  have behind : ∀ s ∈ starts.dropWhile (· ≤ offset), offset < s := by
    intro s member
    exact lt_of_mem_dropWhile increasing member
  rw [shape, List.length_append, List.length_singleton]
  generalize starts.dropWhile (· ≤ offset) = back at split behind
  subst split
  exact position_eq_of_split increasing le behind

end Split

theorem lt_of_mem_startsFrom {offset start : Nat} {cs : List Char}
    (member : start ∈ startsFrom offset cs) : offset < start := by
  induction cs generalizing offset with
  | nil => simp [startsFrom] at member
  | cons c rest ih =>
    have positive := c.utf8Size_pos
    rw [startsFrom] at member
    split at member
    · rcases List.mem_cons.1 member with rfl | later
      · omega
      · have := ih later
        omega
    · have := ih member
      omega

theorem startsFrom_pairwise (base : Nat) (text : List Char) :
    (startsFrom base text).Pairwise (· < ·) := by
  induction text generalizing base with
  | nil => exact .nil
  | cons c rest ih =>
    rw [startsFrom]
    split
    · exact List.pairwise_cons.2 ⟨fun _ => lt_of_mem_startsFrom, ih _⟩
    · exact ih _

theorem starts_pairwise (text : List Char) : (ofText text).starts.Pairwise (· < ·) :=
  List.pairwise_cons.2 ⟨fun _ => lt_of_mem_startsFrom, startsFrom_pairwise 0 text⟩

theorem line_eq_takeWhile (text : List Char) (offset : Nat) :
    ((ofText text).position offset).line =
      ((ofText text).starts.takeWhile (· ≤ offset)).length := by
  have nonempty : (ofText text).starts.takeWhile (· ≤ offset) ≠ [] := by
    rw [ofText, List.takeWhile_cons_of_pos (by simp)]
    exact List.cons_ne_nil _ _
  exact congrArg Position.line
    (position_eq_takeWhile (starts_pairwise text) (List.getLast?_eq_some_getLast nonempty))

end LineIndex

end Arborist

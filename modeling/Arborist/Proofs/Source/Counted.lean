import Mathlib
import Arborist.Proofs.Source.Lines

/-!
Positions by counting bytes. The line of an offset is one more than the line feeds below it, and its
column counts from just after the last of them, wherever the offset lies: inside of a character, on
a line feed or past the end; a bisection of the line starts comes to nothing else.
-/

namespace Arborist

namespace Text

def bytes (text : List Char) : List UInt8 := text.flatMap String.utf8EncodeChar

def feed : UInt8 := 10

theorem bytes_cons (c : Char) (cs : List Char) :
    bytes (c :: cs) = String.utf8EncodeChar c ++ bytes cs := List.flatMap_cons

theorem utf8EncodeChar_feed : String.utf8EncodeChar '\n' = [feed] := by decide

theorem feed_notMem_utf8EncodeChar {c : Char} (other : c ≠ '\n') :
    feed ∉ String.utf8EncodeChar c := by
  have code : c.val.toNat ≠ 10 := fun same => other (Char.ext (UInt32.toNat_inj.1 same))
  have byte {n : Nat} (small : n < 256) (apart : n ≠ 10) : feed ≠ UInt8.ofNat n := by
    intro same
    have values := congrArg UInt8.toNat same
    rw [UInt8.toNat_ofNat_of_lt' small] at values
    exact apart values.symm
  unfold String.utf8EncodeChar
  dsimp only
  split_ifs <;> simp only [List.mem_cons, List.not_mem_nil, or_false, not_or]
  · exact byte (by omega) code
  · refine ⟨byte ?_ ?_, byte ?_ ?_⟩ <;> omega
  · refine ⟨byte ?_ ?_, byte ?_ ?_, byte ?_ ?_⟩ <;> omega
  · refine ⟨byte ?_ ?_, byte ?_ ?_, byte ?_ ?_, byte ?_ ?_⟩ <;> omega

theorem getElem?_bytes_cons {c : Char} {rest : List Char} {k : Nat} :
    (bytes (c :: rest))[k]? = some feed ↔
      (c = '\n' ∧ k = 0) ∨ ∃ j, k = c.utf8Size + j ∧ (bytes rest)[j]? = some feed := by
  have length : (String.utf8EncodeChar c).length = c.utf8Size := String.length_utf8EncodeChar c
  rw [bytes_cons]
  constructor
  · intro stands
    rcases Nat.lt_or_ge k c.utf8Size with within | past
    · rw [List.getElem?_append_left (by omega)] at stands
      by_cases isFeed : c = '\n'
      · have one : c.utf8Size = 1 := by rw [isFeed]; decide
        exact .inl ⟨isFeed, by omega⟩
      · exact absurd (List.mem_of_getElem? stands) (feed_notMem_utf8EncodeChar isFeed)
    · rw [List.getElem?_append_right (by omega), length] at stands
      exact .inr ⟨k - c.utf8Size, by omega, stands⟩
  · rintro (⟨rfl, rfl⟩ | ⟨j, rfl, stands⟩)
    · simp [utf8EncodeChar_feed]
    · rw [List.getElem?_append_right (by omega), length, Nat.add_sub_cancel_left, stands]

end Text

namespace LineIndex

def feedsBelow (text : List Char) (offset : Nat) : List Nat :=
  (List.range offset).filter fun k => (Text.bytes text)[k]? == some Text.feed

/-- The index just after the last line feed below an offset, zero if there is none. -/
def lineStart (text : List Char) (offset : Nat) : Nat :=
  (feedsBelow text offset).getLast?.elim 0 (· + 1)

theorem mem_feedsBelow {text : List Char} {offset k : Nat} :
    k ∈ feedsBelow text offset ↔ k < offset ∧ (Text.bytes text)[k]? = some Text.feed := by
  simp [feedsBelow]

theorem feedsBelow_pairwise (text : List Char) (offset : Nat) :
    (feedsBelow text offset).Pairwise (· < ·) := List.pairwise_lt_range.filter _

theorem feedsBelow_succ (text : List Char) (offset : Nat) :
    feedsBelow text (offset + 1) = feedsBelow text offset ++
      if (Text.bytes text)[offset]? = some Text.feed then [offset] else [] := by
  rw [feedsBelow, List.range_succ, List.filter_append]
  congr 1
  simp [List.filter_cons]

theorem lineStart_le (text : List Char) (offset : Nat) : lineStart text offset ≤ offset := by
  unfold lineStart
  cases last : (feedsBelow text offset).getLast? with
  | none => exact Nat.zero_le offset
  | some k => exact (mem_feedsBelow.1 (List.mem_of_getLast? last)).1

theorem lineStart_eq (text : List Char) (offset : Nat) :
    ((feedsBelow text offset).map (· + 1)).getLast?.getD 0 = lineStart text offset := by
  rw [List.getLast?_map, lineStart]
  cases (feedsBelow text offset).getLast? <;> rfl

theorem mem_startsFrom {base start : Nat} {text : List Char} :
    start ∈ startsFrom base text ↔
      ∃ k, (Text.bytes text)[k]? = some Text.feed ∧ start = base + k + 1 := by
  induction text generalizing base with
  | nil => simp [startsFrom, Text.bytes]
  | cons c rest ih =>
    have behind : (∃ k, (Text.bytes (c :: rest))[k]? = some Text.feed ∧ start = base + k + 1) ↔
        (c = '\n' ∧ start = base + 1) ∨ start ∈ startsFrom (base + c.utf8Size) rest := by
      simp only [Text.getElem?_bytes_cons, ih]
      constructor
      · rintro ⟨k, ⟨rfl, rfl⟩ | ⟨j, rfl, stands⟩, rfl⟩
        · exact .inl ⟨rfl, rfl⟩
        · exact .inr ⟨j, stands, by omega⟩
      · rintro (⟨rfl, rfl⟩ | ⟨j, stands, rfl⟩)
        · exact ⟨0, .inl ⟨rfl, rfl⟩, rfl⟩
        · exact ⟨_, .inr ⟨j, rfl, stands⟩, by omega⟩
    rw [behind, startsFrom]
    split
    · rename_i isFeed
      have one : base + c.utf8Size = base + 1 := by rw [isFeed]; rfl
      rw [List.mem_cons, one]
      simp [isFeed]
    · rename_i other
      simp [other]

theorem mem_starts {text : List Char} {start : Nat} :
    start ∈ (ofText text).starts ↔
      start = 0 ∨ ∃ k, (Text.bytes text)[k]? = some Text.feed ∧ start = k + 1 := by
  rw [ofText, List.mem_cons, mem_startsFrom]
  simp

/-- The line starts up to an offset: that of the text, and one for each line feed below. -/
theorem takeWhile_starts (text : List Char) (offset : Nat) :
    (ofText text).starts.takeWhile (· ≤ offset) =
      0 :: (feedsBelow text offset).map (· + 1) := by
  refine List.Pairwise.eq_of_mem_iff (r := (· < ·))
    ((starts_pairwise text).sublist (List.takeWhile_sublist _)) ?_ fun start => ?_
  · refine List.pairwise_cons.2 ⟨by simp, ?_⟩
    exact (feedsBelow_pairwise _ _).map _ fun _ _ => Nat.add_lt_add_right (k := 1)
  · rw [mem_takeWhile_le (starts_pairwise text), mem_starts, List.mem_cons, List.mem_map]
    constructor
    · rintro ⟨rfl | ⟨k, stands, rfl⟩, le⟩
      · exact .inl rfl
      · exact .inr ⟨k, mem_feedsBelow.2 ⟨le, stands⟩, rfl⟩
    · rintro (rfl | ⟨k, member, rfl⟩)
      · exact ⟨.inl rfl, Nat.zero_le offset⟩
      · obtain ⟨below, stands⟩ := mem_feedsBelow.1 member
        exact ⟨.inr ⟨k, stands, rfl⟩, below⟩

theorem starts_split (text : List Char) (offset : Nat) :
    ∃ front back, (ofText text).starts = front ++ lineStart text offset :: back ∧
      front.length = (feedsBelow text offset).length ∧ ∀ s ∈ back, offset < s := by
  have last : lineStart text offset ∈ (0 :: (feedsBelow text offset).map (· + 1)).getLast? := by
    rw [List.getLast?_cons, lineStart_eq]
    rfl
  refine ⟨(0 :: (feedsBelow text offset).map (· + 1)).dropLast,
    (ofText text).starts.dropWhile (· ≤ offset), ?_, by simp,
    fun s => lt_of_mem_dropWhile (starts_pairwise text)⟩
  rw [List.append_cons, List.dropLast_append_getLast? _ last, ← takeWhile_starts,
    List.takeWhile_append_dropWhile]

theorem starts_increasing {text : List Char} {offset : Nat} {front back : List Nat}
    (split : (ofText text).starts = front ++ lineStart text offset :: back) :
    (front ++ lineStart text offset :: back).Pairwise (· < ·) := split ▸ starts_pairwise text

theorem search_starts (text : List Char) (offset : Nat) : (ofText text).search offset =
    if lineStart text offset = offset then .ok (feedsBelow text offset).length
    else .error ((feedsBelow text offset).length + 1) := by
  obtain ⟨front, back, split, length, behind⟩ := starts_split text offset
  rw [show ofText text = ⟨_⟩ from congrArg mk split, ← length]
  exact search_eq (starts_increasing split) (lineStart_le text offset) behind

theorem position_eq (text : List Char) (offset : Nat) :
    (ofText text).position offset =
      ⟨1 + (feedsBelow text offset).length, offset - lineStart text offset⟩ := by
  obtain ⟨front, back, split, length, behind⟩ := starts_split text offset
  rw [show ofText text = ⟨_⟩ from congrArg mk split, ← length, Nat.add_comm 1]
  exact position_eq_of_split (starts_increasing split) (lineStart_le text offset) behind

theorem position_strictMono (text : List Char) :
    StrictMono fun offset =>
      toLex (((ofText text).position offset).line, ((ofText text).position offset).column) := by
  refine strictMono_nat_of_lt_succ fun offset => ?_
  have le := lineStart_le text offset
  rw [Prod.Lex.toLex_lt_toLex, position_eq, position_eq]
  have one := feedsBelow_succ text offset
  split at one
  · left
    simp [one]
  · right
    rw [List.append_nil] at one
    have sameLine : lineStart text (offset + 1) = lineStart text offset := by
      rw [lineStart, one, ← lineStart]
    exact ⟨by rw [one], by dsimp only; omega⟩

/-- A position counts the line feeds below the offset and the bytes behind the last of them. The
bisection comes to that line, at its start exactly and else just behind it, so that one is taken from
a positive number; the line starts in the text, and not behind the offset. Any search of the starts
would answer the same. So positions are different for different offsets, and ordered as these are. -/
theorem position_counts (text : List Char) :
    (∀ offset,
      (ofText text).position offset =
        ⟨1 + (feedsBelow text offset).length, offset - lineStart text offset⟩ ∧
      (ofText text).search offset =
        (if lineStart text offset = offset then .ok (feedsBelow text offset).length
        else .error ((feedsBelow text offset).length + 1)) ∧
      (ofText text).starts[(feedsBelow text offset).length]? = some (lineStart text offset) ∧
      lineStart text offset ≤ offset ∧
      ∀ answer, Located (ofText text).starts offset answer ↔
        answer = (ofText text).search offset) ∧
    Function.Injective (ofText text).position ∧
    StrictMono fun offset =>
      toLex (((ofText text).position offset).line, ((ofText text).position offset).column) := by
  refine ⟨fun offset => ?_, fun offset other same => ?_, position_strictMono text⟩
  · obtain ⟨front, back, split, length, behind⟩ := starts_split text offset
    have le := lineStart_le text offset
    refine ⟨position_eq text offset, search_starts text offset, ?_, le, fun answer => ?_⟩
    · rw [split, ← length]
      simp
    · have before : ∀ s ∈ front, s < lineStart text offset := by
        intro s member
        have increasing := List.pairwise_append.1 (starts_increasing split)
        exact increasing.2.2 s member _ List.mem_cons_self
      rw [search_starts, split, ← length]
      exact located_iff before le behind
  · exact (position_strictMono text).injective (congrArg (fun p => toLex (p.line, p.column)) same)

-- The accent takes two bytes, and the last offset is past the end.
example : (ofText "é\n\nab".toList).position 3 = ⟨2, 0⟩ ∧
    (ofText "é\n\nab".toList).position 9 = ⟨3, 5⟩ := by decide +kernel

end LineIndex

end Arborist

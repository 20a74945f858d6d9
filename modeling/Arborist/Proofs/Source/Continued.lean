import Mathlib
import Arborist.Proofs.Source.Rescan

/-!
A text that goes on in another way. A line feed ends every piece as the end of the text does, the
comments that it stands in apart, so that a text may be cut before any of its tokens and go on from
a new line: the tokens before the cut are the same.
-/

namespace Arborist.Token

theorem commentLength?_append {cs : List Char} {n : Nat} (h : commentLength? cs = some n)
    (after : List Char) : commentLength? (cs ++ after) = some n := by
  fun_induction commentLength? cs generalizing n with
  | case1 => simp at h
  | case2 rest => simpa [commentLength?] using h
  | case3 c rest opened ih =>
    obtain ⟨m, found, rfl⟩ := Option.map_eq_some_iff.1 h
    have unclosed : ∀ more, c = '*' → rest ++ after = '/' :: more → False := by
      intro more star slash
      cases rest with
      | nil => simp [commentLength?] at found
      | cons d tail =>
        rw [List.cons_append, List.cons.injEq] at slash
        exact opened tail star (by rw [slash.1])
    rw [List.cons_append, commentLength?.eq_3 _ _ unclosed, ih found]
    rfl

theorem le_length_of_feed_notMem {kept more : List Char} {n : Nat}
    (absent : '\n' ∉ (kept ++ '\n' :: more).take n) : n ≤ kept.length := by
  by_contra long
  obtain ⟨m, rfl⟩ : ∃ m, n = kept.length + (m + 1) := ⟨n - kept.length - 1, by omega⟩
  rw [List.take_length_add_append, List.take_succ_cons] at absent
  exact absent (by simp)

theorem pieceOfCode_fault_of_append {c : Char} {kept behind : List Char} {cause : LexicalFault}
    (h : pieceOfCode c (kept ++ behind) = .fault cause) : pieceOfCode c kept = .fault cause := by
  unfold pieceOfCode at h ⊢
  rw [← List.cons_append] at h
  cases number : scanNumber ((c :: kept) ++ behind) with
  | some read =>
    rw [number] at h
    exact absurd h (by simp)
  | none =>
    simp only [number, scanNumber_none_of_append number] at h ⊢
    split at h
    · simp at h
    · rename_i start
      rw [if_neg start]
      split at h
      · simp at h
      · rename_i absent
        have fewer : Mark.all.find? (startsWith (c :: kept)) = none := by
          rw [List.find?_eq_none] at absent ⊢
          intro m member begins
          simp only [startsWith, List.isPrefixOf_iff_prefix] at begins absent
          exact absent m member (begins.trans (List.prefix_append _ _))
        rw [fewer]
        exact h

theorem pieceOfCode_feed {c : Char} {cs : List Char} {n : Nat}
    (h : (pieceOfCode c cs).more? = some n) (more : List Char) :
    pieceOfCode c (cs ++ '\n' :: more) = pieceOfCode c cs := by
  cases cut : pieceOfCode c (cs ++ '\n' :: more) with
  | gap m => exact absurd cut (pieceOfCode_ne_gap _ _ _)
  | token kind m =>
    obtain ⟨spelled, spelling⟩ := spelled_of_pieceOfCode cut
    have absent : '\n' ∉ (cs ++ '\n' :: more).take m := by
      have whole := spelled.feed_notMem
      rw [spelling] at whole
      exact fun member => whole (List.mem_cons_of_mem c member)
    rw [pieceOfCode_of_append (by rw [cut]; rfl) (le_length_of_feed_notMem absent), cut]
  | fault cause =>
    rw [pieceOfCode_fault_of_append cut] at h
    exact absurd h (by simp [Piece.more?])

theorem piece_feed {c : Char} {cs : List Char} {n : Nat} (h : (piece c cs).more? = some n)
    (more : List Char) : piece c (cs ++ '\n' :: more) = piece c cs := by
  by_cases blank : Text.isBlank c = true
  · simp [piece, blank]
  by_cases quoted : c = '"' ∨ c = '\x27'
  · rw [piece_quoted quoted] at h ⊢
    rw [piece_quoted quoted]
    cases read : scanString c cs with
    | none =>
      rw [read] at h
      exact absurd h (by simp [Piece.more?])
    | some found =>
      obtain ⟨text, length⟩ := found
      have plain : c ≠ '\\' := by rcases quoted with rfl | rfl <;> decide
      obtain ⟨bound, again⟩ := scanString_take plain read (cs.drop length ++ '\n' :: more)
      rw [← List.append_assoc, List.take_append_drop] at again
      simp only [again, List.take_append_of_le_length bound]
  by_cases comment : c = '/' ∧ ∃ d ∈ cs.head?, d = '/' ∨ d = '*'
  · obtain ⟨rfl, d, head, opens⟩ := comment
    obtain ⟨rest, rfl⟩ := List.head?_eq_some_iff.1 head
    rcases opens with rfl | rfl
    · have ends : (rest ++ '\n' :: more).takeWhile (· != '\n') = rest.takeWhile (· != '\n') := by
        rw [List.takeWhile_append]
        split
        · rename_i whole
          rw [List.takeWhile_cons_of_neg (by simp), List.append_nil,
            (List.takeWhile_prefix _).eq_of_length whole]
        · rfl
      rw [List.cons_append, piece_line, piece_line, ends]
    · rw [piece_block] at h
      rw [List.cons_append, piece_block, piece_block]
      cases closed : commentLength? rest with
      | none =>
        rw [closed] at h
        exact absurd h (by simp [Piece.more?])
      | some m => rw [commentLength?_append closed]
  · have slash := apart_of_not_comment comment
    have longer : c = '/' → ∀ d ∈ (cs ++ '\n' :: more).head?, d ≠ '/' ∧ d ≠ '*' := by
      intro same
      cases cs with
      | nil => simp
      | cons e rest => simpa using slash same
    have plain := Bool.eq_false_iff.2 blank
    rw [not_or] at quoted
    have short := piece_eq_pieceOfCode plain slash quoted.1 quoted.2
    rw [short] at h ⊢
    rw [piece_eq_pieceOfCode plain longer quoted.1 quoted.2, pieceOfCode_feed h]

theorem gap_le_length {c : Char} {cs : List Char} {n : Nat} (h : piece c cs = .gap n) :
    n ≤ cs.length := by
  unfold piece at h
  split at h
  · obtain rfl := Piece.gap.inj h
    exact Nat.zero_le _
  split at h
  · rename_i rest _
    obtain rfl := Piece.gap.inj h
    have shorter := (List.takeWhile_prefix (· != '\n') : _ <+: rest).length_le
    rw [List.length_cons]
    omega
  · rename_i rest _
    split at h
    · rename_i length found
      obtain rfl := Piece.gap.inj h
      obtain ⟨body, tail, rfl, rfl, -⟩ := exists_of_commentLength? found
      simp only [List.length_cons, List.length_append]
      omega
    · exact absurd h (by simp)
  · split at h
    · split at h <;> exact absurd h (by simp)
    · exact absurd h (pieceOfCode_ne_gap c cs n)

theorem token_le_length {c : Char} {cs : List Char} {kind : Kind} {n : Nat}
    (h : piece c cs = .token kind n) : n ≤ cs.length := by
  by_contra long
  obtain ⟨spelled, spelling⟩ := spelled_of_piece h
  obtain ⟨d, ds, shape, cut⟩ := piece_of_spelled spelled kind.apart_nil
  -- The spelling is the whole text, so the piece is no longer than that.
  rw [spelling, List.take_of_length_le (by omega), List.cons.injEq] at shape
  obtain ⟨rfl, rfl⟩ := shape
  rw [List.append_nil, h, Piece.token.injEq] at cut
  omega

theorem piece_take_feed {c : Char} {cs kept behind : List Char} {n : Nat}
    (h : (piece c cs).more? = some n) (split : cs.drop n = kept ++ behind) (more : List Char) :
    piece c (cs.take n ++ (kept ++ '\n' :: more)) = piece c cs ∧
      (cs.take n ++ (kept ++ '\n' :: more)).take n = cs.take n ∧
      (cs.take n ++ (kept ++ '\n' :: more)).drop n = kept ++ '\n' :: more := by
  have bound : n ≤ cs.length := by
    cases cut : piece c cs with
    | gap m =>
      obtain rfl : m = n := by simpa [cut, Piece.more?] using h
      exact gap_le_length cut
    | token kind m =>
      obtain rfl : m = n := by simpa [cut, Piece.more?] using h
      exact token_le_length cut
    | fault => simp [cut, Piece.more?] at h
  have size : (cs.take n).length = n := List.length_take_of_le bound
  obtain ⟨same, -, -⟩ := piece_take h split
  refine ⟨?_, List.take_left' size, List.drop_left' size⟩
  rw [← List.append_assoc, piece_feed (by rw [same]; exact h), same]

theorem scanFrom_new_line (offset : Nat) (newline : Bool) (more : List Char) :
    scanFrom offset newline ('\n' :: more) = scanFrom (offset + 1) true more := by
  have one : Text.byteLength ['\n'] = 1 := by decide
  have read := @Chunk.scanFrom_blanks ['\n'] (by decide) offset newline more
  rw [one] at read
  simpa using read

/-- A text may go on from a new line before any of its tokens. -/
theorem scanFrom_feed {offset : Nat} {newline : Bool} {text : List Char} {front rest : List Token}
    {t : Token} (h : scanFrom offset newline text = .ok (front ++ t :: rest)) :
    ∃ kept behind, text = kept ++ behind ∧ offset + Text.byteLength kept = t.start ∧
      ∀ {more tokens}, scanFrom (t.start + 1) true more = .ok tokens →
        scanFrom offset newline (kept ++ '\n' :: more) = .ok (front ++ tokens) := by
  generalize tokens : front ++ t :: rest = all at h
  fun_induction scanFrom offset newline text generalizing front all with
  | case1 offset newline =>
    simp only [Except.ok.injEq] at h
    rw [← h, List.append_eq_singleton_iff] at tokens
    rcases tokens with ⟨rfl, only⟩ | ⟨-, none⟩
    · obtain ⟨rfl, rfl⟩ := List.cons.inj only
      refine ⟨[], [], rfl, rfl, fun {more tokens} read => ?_⟩
      rw [List.nil_append, scanFrom_new_line]
      exact read
    · exact absurd none (by simp)
  | case2 offset newline c cs n cut passed =>
    rename_i ih
    obtain ⟨kept, behind, split, starts, read⟩ := ih all tokens h
    refine ⟨c :: (cs.take n ++ kept), behind, ?_, ?_, fun {more tokens} behind => ?_⟩
    · rw [List.cons_append, List.append_assoc, ← split, List.take_append_drop]
    · rw [← starts, ← List.cons_append, Text.byteLength_append, Nat.add_assoc]
    · obtain ⟨same, first, left⟩ := piece_take_feed (by rw [cut]; rfl) split more
      rw [List.cons_append, List.append_assoc, scanFrom_gap (same.trans cut), first, left]
      exact read behind
  | case3 offset newline c cs kind n cut stop others read =>
    rename_i ih
    simp only [Except.ok.injEq] at h
    rw [← h] at tokens
    cases front with
    | nil =>
      obtain ⟨rfl, -⟩ := List.cons.inj tokens
      refine ⟨[], c :: cs, rfl, rfl, fun {more tokens} read => ?_⟩
      rw [List.nil_append, scanFrom_new_line]
      exact read
    | cons f later =>
      obtain ⟨rfl, tail⟩ := List.cons.inj tokens
      obtain ⟨kept, behind, split, starts, again⟩ := ih others tail read
      refine ⟨c :: (cs.take n ++ kept), behind, ?_, ?_, fun {more tokens} behind => ?_⟩
      · rw [List.cons_append, List.append_assoc, ← split, List.take_append_drop]
      · rw [← starts, ← List.cons_append, Text.byteLength_append, Nat.add_assoc]
      · obtain ⟨same, first, left⟩ := piece_take_feed (by rw [cut]; rfl) split more
        rw [List.cons_append, List.append_assoc]
        apply scanFrom_token (same.trans cut) (by rw [first])
        rw [left]
        exact again behind
  | case4 => simp at h
  | case5 => simp at h

end Arborist.Token

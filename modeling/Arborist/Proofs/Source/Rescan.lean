import Mathlib
import Arborist.Proofs.Source.Lossless

/-!
A part of a text scanned by itself. The scanner looks no further than it has to: a piece that is cut
off a text is cut off in the same way when the text ends anywhere behind it. So the part of a text
from the start of one token to the stop of another is read as the tokens between them.
-/

namespace Arborist

theorem takeWhile_of_append {α : Type} {p : α → Bool} {kept behind : List α}
    (fits : ((kept ++ behind).takeWhile p).length ≤ kept.length) :
    (kept ++ behind).takeWhile p = kept.takeWhile p := by
  rw [List.takeWhile_append] at fits ⊢
  split
  · rename_i whole
    rw [if_pos whole, List.length_append] at fits
    have none : behind.takeWhile p = [] := List.eq_nil_of_length_eq_zero (by omega)
    have all : kept.takeWhile p = kept := (List.takeWhile_prefix p).eq_of_length whole
    rw [none, all, List.append_nil]
  · rfl

theorem takeWhile_append_prefix {α : Type} (p : α → Bool) (kept behind : List α) :
    kept.takeWhile p <+: (kept ++ behind).takeWhile p := by
  rw [List.takeWhile_append]
  split
  · rename_i whole
    rw [(List.takeWhile_prefix p).eq_of_length whole]
    exact List.prefix_append _ _
  · exact List.prefix_refl _

theorem dropWhile_of_append {α : Type} {p : α → Bool} {kept behind rest : List α}
    (h : (kept ++ behind).dropWhile p = rest ++ behind) :
    (kept ++ behind).takeWhile p = kept.takeWhile p ∧ kept.dropWhile p = rest := by
  have parts := @List.takeWhile_append_dropWhile _ p (kept ++ behind)
  have whole := congrArg List.length parts
  rw [h] at parts whole
  simp only [List.length_append] at whole
  have same : (kept ++ behind).takeWhile p = kept.takeWhile p := takeWhile_of_append (by omega)
  have own := @List.takeWhile_append_dropWhile _ p kept
  rw [same, ← List.append_assoc, List.append_cancel_right_eq] at parts
  exact ⟨same, List.append_cancel_left (own.trans parts.symm)⟩

theorem head_of_append {α : Type} {front behind : List α} {p : α → Prop}
    (h : ∀ c ∈ (front ++ behind).head?, p c) : ∀ c ∈ front.head?, p c := by
  intro c member
  apply h
  cases front with
  | nil => simp at member
  | cons d rest => simpa using member

namespace Decimal

theorem scanExponent_of_append {kept behind rest : List Char} {k : Int}
    (h : scanExponent (kept ++ behind) = some (k, rest ++ behind)) :
    scanExponent kept = some (k, rest) := by
  obtain ⟨p, valid, shape, rfl, stop⟩ := Power.exists_of_scanExponent h
  rw [← List.append_assoc, List.append_cancel_right_eq] at shape
  rw [shape]
  exact Power.scanExponent_text valid (head_of_append stop)

theorem scanExponent_none_of_append {kept behind : List Char}
    (h : scanExponent (kept ++ behind) = none) : scanExponent kept = none := by
  by_contra read
  obtain ⟨⟨k, rest⟩, found⟩ := Option.ne_none_iff_exists'.1 read
  obtain ⟨⟨mark, sign, digits⟩, valid, rfl, -, -⟩ := Power.exists_of_scanExponent found
  have longer : Power.Valid ⟨mark, sign, digits ++ (rest ++ behind).takeWhile Char.isDigit⟩ :=
    { mark := valid.mark
      sign := valid.sign
      digits := by
        rw [List.all_append, valid.digits, List.all_takeWhile]
        rfl
      some := fun none => valid.some (List.append_eq_nil_iff.1 none).1 }
  have again := Power.scanExponent_text longer (head_dropWhile Char.isDigit (rest ++ behind))
  simp only [Power.text, List.cons_append, List.append_assoc, List.takeWhile_append_dropWhile]
    at again h
  rw [again] at h
  exact absurd h (by simp)

theorem exponent_of_append {kept behind rest : List Char}
    (h : ((scanExponent (kept ++ behind)).getD (0, kept ++ behind)).2 = rest ++ behind) :
    (scanExponent kept).getD (0, kept) =
      (((scanExponent (kept ++ behind)).getD (0, kept ++ behind)).1, rest) := by
  cases found : scanExponent (kept ++ behind) with
  | none =>
    rw [found, Option.getD_none, List.append_cancel_right_eq] at h
    rw [scanExponent_none_of_append found, Option.getD_none, Option.getD_none, h]
  | some read =>
    obtain ⟨k, after⟩ := read
    rw [found, Option.getD_some] at h
    subst h
    rw [scanExponent_of_append found, Option.getD_some, Option.getD_some]

theorem exponent_suffix {cs rest behind : List Char}
    (h : ((scanExponent cs).getD (0, cs)).2 = rest ++ behind) : behind <:+ cs := by
  have left : ((scanExponent cs).getD (0, cs)).2 <:+ cs := by
    cases found : scanExponent cs with
    | none => exact List.suffix_refl cs
    | some read =>
      obtain ⟨p, -, shape, -, -⟩ := Power.exists_of_scanExponent found
      exact ⟨p.text, shape.symm⟩
  rw [h] at left
  exact (List.suffix_append rest behind).trans left

theorem scan_of_append {kept behind rest : List Char} {d : Decimal}
    (h : scan (kept ++ behind) = some (d, rest ++ behind)) : scan kept = some (d, rest) := by
  simp only [Decimal.scan] at h
  split at h
  · -- With a fraction: the point and all behind it were read before `behind`.
    rename_i more point
    split at h
    · exact absurd h (by simp)
    · rename_i digit
      simp only [Option.some.injEq, Prod.mk.injEq] at h
      obtain ⟨value, left⟩ := h
      obtain ⟨f, tail⟩ : behind <:+ more.dropWhile Char.isDigit := exponent_suffix left
      obtain ⟨m, rfl⟩ : behind <:+ more :=
        (tail ▸ List.suffix_append f behind).trans (List.dropWhile_suffix _)
      obtain ⟨whole, afterWhole⟩ := @dropWhile_of_append _ _ kept behind ('.' :: m) point
      obtain ⟨fraction, afterFraction⟩ := dropWhile_of_append tail.symm
      have power := exponent_of_append (tail.symm ▸ left)
      rw [tail] at power
      simp only [Decimal.scan, afterWhole, afterFraction, power, ← whole, ← fraction]
      rw [if_neg digit, value]
  · rename_i noPoint
    split at h
    · exact absurd h (by simp)
    · rename_i digit
      simp only [Option.some.injEq, Prod.mk.injEq] at h
      obtain ⟨value, left⟩ := h
      obtain ⟨w, tail⟩ : behind <:+ (kept ++ behind).dropWhile Char.isDigit := exponent_suffix left
      obtain ⟨whole, afterWhole⟩ := dropWhile_of_append tail.symm
      have power := exponent_of_append (tail.symm ▸ left)
      rw [tail] at power
      simp only [Decimal.scan, afterWhole, ← whole]
      split
      · rename_i more
        exact absurd tail.symm (noPoint (more ++ behind))
      · simp only [power]
        rw [if_neg digit, value]

theorem scan_none_of_append {kept behind : List Char} (h : scan (kept ++ behind) = none) :
    scan kept = none := by
  cases kept with
  | nil => decide
  | cons c more =>
    by_cases digit : c.isDigit = true
    · simp [Decimal.scan, digit] at h
    · by_cases point : c = '.'
      · have none : (more ++ behind).takeWhile Char.isDigit = [] := by
          simpa [Decimal.scan, digit, point] using h
        have fewer := takeWhile_append_prefix Char.isDigit more behind
        rw [none, List.prefix_nil] at fewer
        simp [Decimal.scan, point, fewer]
      · simp [Decimal.scan, digit, point]

end Decimal

namespace Token

theorem hexDigits_prefix (kept behind : List Char) :
    hexDigits kept <+: hexDigits (kept ++ behind) := by
  unfold hexDigits
  split
  · exact takeWhile_append_prefix _ _ _
  · exact takeWhile_append_prefix _ _ _
  · exact List.nil_prefix

theorem hexDigits_of_append {kept behind : List Char}
    (fits : (hexDigits (kept ++ behind)).length + 2 ≤ kept.length) :
    hexDigits kept = hexDigits (kept ++ behind) := by
  match kept, fits with
  | c :: d :: rest, fits =>
    by_cases zero : c = '0'
    · by_cases mark : d = 'x' ∨ d = 'X'
      · rcases mark with rfl | rfl <;> subst zero <;>
          exact (takeWhile_of_append (by simpa [hexDigits] using fits)).symm
      · simp only [not_or] at mark
        simp [hexDigits, mark]
    · simp [hexDigits, zero]

theorem scanNumber_of_append {kept behind : List Char} {value : Number} {n : Nat}
    (h : scanNumber (kept ++ behind) = some (value, n)) (fits : n ≤ kept.length) :
    scanNumber kept = some (value, n) := by
  simp only [scanNumber] at h
  split at h
  · rename_i decimal
    have none : hexDigits kept = [] := by
      have fewer := hexDigits_prefix kept behind
      rw [List.isEmpty_iff.1 decimal] at fewer
      exact List.prefix_nil.1 fewer
    split at h
    · rename_i numeral after read
      simp only [Option.some.injEq, Prod.mk.injEq] at h
      obtain ⟨rfl, rfl⟩ := h
      obtain ⟨written, -, shape, -⟩ := Numeral.exists_of_scan read
      have size : (kept ++ behind).length - after.length = written.text.length := by
        rw [shape, List.length_append, Nat.add_sub_cancel]
      rw [size] at fits ⊢
      obtain ⟨rest, rfl⟩ := List.prefix_of_prefix_length_le ⟨after, shape.symm⟩
        (List.prefix_append kept behind) fits
      rw [List.append_assoc, List.append_cancel_left_eq] at shape
      rw [← shape] at read
      simp [scanNumber, none, Decimal.scan_of_append read]
    · exact absurd h (by simp)
  · rename_i some
    simp only [Option.some.injEq, Prod.mk.injEq] at h
    obtain ⟨rfl, rfl⟩ := h
    simp only [scanNumber, hexDigits_of_append fits]
    simp [some]

theorem scanNumber_none_of_append {kept behind : List Char}
    (h : scanNumber (kept ++ behind) = none) : scanNumber kept = none := by
  simp only [scanNumber] at h
  split at h
  · rename_i decimal
    have fewer := hexDigits_prefix kept behind
    rw [List.isEmpty_iff.1 decimal, List.prefix_nil] at fewer
    split at h
    · exact absurd h (by simp)
    · rename_i read
      simp [scanNumber, fewer, Decimal.scan_none_of_append read]
  · exact absurd h (by simp)

theorem commentLength?_of_append {kept behind : List Char} {n : Nat}
    (h : commentLength? (kept ++ behind) = some n) (fits : n ≤ kept.length) :
    commentLength? kept = some n := by
  fun_induction commentLength? kept generalizing n with
  | case1 =>
    obtain ⟨body, rest, -, size, -⟩ := exists_of_commentLength? h
    rw [List.length_nil] at fits
    omega
  | case2 rest => simpa [commentLength?] using h
  | case3 c rest opened ih =>
    have unclosed : ∀ more, c = '*' → rest ++ behind = '/' :: more → False := by
      intro more star slash
      cases rest with
      | nil =>
        obtain rfl : 2 = n := by simpa [star, slash, commentLength?] using h
        simp at fits
      | cons d tail =>
        rw [List.cons_append, List.cons.injEq] at slash
        exact opened tail star (by rw [slash.1])
    rw [List.cons_append, commentLength?.eq_3 _ _ unclosed] at h
    obtain ⟨m, found, rfl⟩ := Option.map_eq_some_iff.1 h
    rw [ih found (by simpa using fits)]
    rfl

theorem find_of_append {kept behind : List Char} {m : Mark}
    (h : Mark.all.find? (startsWith (kept ++ behind)) = some m)
    (fits : m.text.toList.length ≤ kept.length) :
    Mark.all.find? (startsWith kept) = some m := by
  obtain ⟨begins, before, after, split, others⟩ := List.find?_eq_some_iff_append.1 h
  refine List.find?_eq_some_iff_append.2 ⟨?_, before, after, split, fun other member => ?_⟩
  · simp only [startsWith, List.isPrefixOf_iff_prefix] at begins ⊢
    exact List.prefix_of_prefix_length_le begins (List.prefix_append kept behind) fits
  · have not := others other member
    simp only [startsWith, Bool.not_eq_true', Bool.eq_false_iff, ne_eq,
      List.isPrefixOf_iff_prefix] at not ⊢
    exact fun shorter => not (shorter.trans (List.prefix_append kept behind))

def Piece.more? : Piece → Option Nat
  | .gap n => some n
  | .token _ n => some n
  | .fault _ => none

theorem pieceOfCode_of_append {c : Char} {kept behind : List Char} {n : Nat}
    (h : (pieceOfCode c (kept ++ behind)).more? = some n) (fits : n ≤ kept.length) :
    pieceOfCode c kept = pieceOfCode c (kept ++ behind) := by
  unfold pieceOfCode at h ⊢
  rw [← List.cons_append] at h ⊢
  cases number : scanNumber ((c :: kept) ++ behind) with
  | some read =>
    obtain ⟨value, length⟩ := read
    simp only [number, Piece.more?, Option.some.injEq] at h
    have inside : length ≤ (c :: kept).length := by
      rw [List.length_cons]
      omega
    simp only [scanNumber_of_append number inside, List.take_append_of_le_length inside]
  | none =>
    simp only [scanNumber_none_of_append number]
    rw [number] at h
    by_cases start : isWordStart c = true
    · simp only [start, if_true, Piece.more?, Option.some.injEq] at h ⊢
      rw [takeWhile_of_append (h ▸ fits)]
    · simp only [start, Bool.false_eq_true, if_false] at h ⊢
      cases found : Mark.all.find? (startsWith ((c :: kept) ++ behind)) with
      | none =>
        rw [found] at h
        exact absurd h (by simp [Piece.more?])
      | some m =>
        simp only [found, Piece.more?, Option.some.injEq] at h
        have inside : m.text.toList.length ≤ (c :: kept).length := by
          rw [String.length_toList, List.length_cons]
          omega
        rw [find_of_append found inside]

theorem piece_quoted {c : Char} {cs : List Char} (quoted : c = '"' ∨ c = '\x27') :
    piece c cs = match scanString c cs with
      | some (text, n) =>
        .token (.string (String.ofList text) (String.ofList (c :: cs.take n))) n
      | none => .fault .unterminatedString := by
  have blank : Text.isBlank c = false := by rcases quoted with rfl | rfl <;> decide
  have slash : c ≠ '/' := by rcases quoted with rfl | rfl <;> decide
  simp only [piece, blank, Bool.false_eq_true, if_false, quoted, if_true]
  split
  · exact absurd rfl slash
  · exact absurd rfl slash
  · rfl

theorem piece_line (rest : List Char) :
    piece '/' ('/' :: rest) = .gap (1 + (rest.takeWhile (· != '\n')).length) := by
  have blank : Text.isBlank '/' = false := by decide
  simp [piece, blank]

theorem piece_block (rest : List Char) : piece '/' ('*' :: rest) =
    ((commentLength? rest).map fun n => .gap (1 + n)).getD (.fault .unterminatedComment) := by
  have blank : Text.isBlank '/' = false := by decide
  cases closed : commentLength? rest <;> simp [piece, blank, closed]

theorem comment_of_append {d : Char} {rest behind : List Char} {n : Nat}
    (opens : d = '/' ∨ d = '*') (h : (piece '/' (d :: (rest ++ behind))).more? = some n)
    (fits : n ≤ rest.length + 1) : piece '/' (d :: rest) = piece '/' (d :: (rest ++ behind)) := by
  rcases opens with rfl | rfl
  · rw [piece_line] at h ⊢
    simp only [Piece.more?, Option.some.injEq] at h
    rw [piece_line, takeWhile_of_append (by omega)]
  · rw [piece_block] at h ⊢
    cases closed : commentLength? (rest ++ behind) with
    | none =>
      rw [closed] at h
      exact absurd h (by simp [Piece.more?])
    | some m =>
      simp only [closed, Option.map_some, Option.getD_some, Piece.more?, Option.some.injEq] at h
      rw [piece_block, commentLength?_of_append closed (by omega), closed]

theorem comment_more {d : Char} {rest : List Char} {n : Nat} (opens : d = '/' ∨ d = '*')
    (h : (piece '/' (d :: rest)).more? = some n) : 0 < n := by
  rcases opens with rfl | rfl
  · rw [piece_line] at h
    simp only [Piece.more?, Option.some.injEq] at h
    omega
  · rw [piece_block] at h
    cases closed : commentLength? rest with
    | none =>
      rw [closed] at h
      exact absurd h (by simp [Piece.more?])
    | some m =>
      simp only [closed, Option.map_some, Option.getD_some, Piece.more?, Option.some.injEq] at h
      omega

theorem piece_of_append {c : Char} {kept behind : List Char} {n : Nat}
    (h : (piece c (kept ++ behind)).more? = some n) (fits : n ≤ kept.length) :
    piece c kept = piece c (kept ++ behind) := by
  by_cases blank : Text.isBlank c = true
  · simp [piece, blank]
  by_cases quoted : c = '"' ∨ c = '\x27'
  · rw [piece_quoted quoted] at h ⊢
    rw [piece_quoted quoted]
    cases read : scanString c (kept ++ behind) with
    | none =>
      rw [read] at h
      exact absurd h (by simp [Piece.more?])
    | some found =>
      obtain ⟨text, length⟩ := found
      have plain : c ≠ '\\' := by rcases quoted with rfl | rfl <;> decide
      simp only [read, Piece.more?, Option.some.injEq] at h
      subst h
      have again := (scanString_take plain read (kept.drop length)).2
      rw [List.take_append_of_le_length fits, List.take_append_drop] at again
      simp only [again, List.take_append_of_le_length fits]
  by_cases comment : c = '/' ∧ ∃ d ∈ (kept ++ behind).head?, d = '/' ∨ d = '*'
  · obtain ⟨rfl, d, head, opens⟩ := comment
    cases kept with
    | nil =>
      obtain ⟨rest, rfl⟩ := List.head?_eq_some_iff.1 head
      exact absurd fits (Nat.not_le.2 (comment_more opens h))
    | cons e rest =>
      obtain rfl : e = d := by simpa using head
      exact comment_of_append opens h fits
  · have slash := apart_of_not_comment comment
    have plain := Bool.eq_false_iff.2 blank
    rw [not_or] at quoted
    have whole := piece_eq_pieceOfCode plain slash quoted.1 quoted.2
    have part : piece c kept = pieceOfCode c kept :=
      piece_eq_pieceOfCode plain (fun same => head_of_append (slash same)) quoted.1 quoted.2
    rw [whole] at h ⊢
    rw [part, pieceOfCode_of_append h fits]

theorem piece_take {c : Char} {cs kept behind : List Char} {n : Nat}
    (h : (piece c cs).more? = some n) (split : cs.drop n = kept ++ behind) :
    piece c (cs.take n ++ kept) = piece c cs ∧ (cs.take n ++ kept).take n = cs.take n ∧
      (cs.take n ++ kept).drop n = kept := by
  have whole : cs = (cs.take n ++ kept) ++ behind := by
    rw [List.append_assoc, ← split, List.take_append_drop]
  by_cases long : cs.length < n
  · -- Nothing is left behind the piece.
    rw [List.drop_eq_nil_of_le (by omega)] at split
    obtain ⟨rfl, rfl⟩ := List.append_eq_nil_iff.1 split.symm
    simp [List.take_of_length_le long.le, long.le]
  · have size : (cs.take n).length = n := by
      rw [List.length_take]
      omega
    have same := whole ▸ h
    refine ⟨?_, List.take_left' size, List.drop_left' size⟩
    rw [piece_of_append same (by rw [List.length_append]; omega), ← whole]

theorem scanFrom_gap {c : Char} {cs : List Char} {n : Nat} (h : piece c cs = .gap n)
    (offset : Nat) (newline : Bool) : scanFrom offset newline (c :: cs) =
      scanFrom (offset + Text.byteLength (c :: cs.take n))
        (newline || (c :: cs.take n).contains '\n') (cs.drop n) := by
  rw [scanFrom, h]

theorem scanFrom_token {c : Char} {cs : List Char} {kind : Kind} {n stop : Nat}
    {tokens : List Token} (h : piece c cs = .token kind n) {offset : Nat}
    (stops : offset + Text.byteLength (c :: cs.take n) = stop)
    (behind : scanFrom stop false (cs.drop n) = .ok tokens) (newline : Bool) :
    scanFrom offset newline (c :: cs) = .ok (⟨kind, offset, stop, newline⟩ :: tokens) := by
  subst stops
  rw [scanFrom, h]
  simp only [behind]

/-- A text may end behind any of its tokens. -/
theorem scanFrom_take {offset : Nat} {newline : Bool} {text : List Char} {front rest : List Token}
    {t : Token} (h : scanFrom offset newline text = .ok (front ++ t :: rest))
    (inner : t.kind ≠ .finish) :
    ∃ kept behind, text = kept ++ behind ∧ offset + Text.byteLength kept = t.stop ∧
      scanFrom offset newline kept = .ok (front ++ [t, ⟨.finish, t.stop, t.stop, false⟩]) := by
  generalize tokens : front ++ t :: rest = all at h
  fun_induction scanFrom offset newline text generalizing front all with
  | case1 offset newline =>
    simp only [Except.ok.injEq] at h
    have only : t ∈ [(⟨.finish, offset, offset, newline⟩ : Token)] := by simp [h, ← tokens]
    rw [List.mem_singleton.1 only] at inner
    exact absurd rfl inner
  | case2 offset newline c cs n cut skipped =>
    rename_i ih
    obtain ⟨kept, behind, split, stops, read⟩ := ih all tokens h
    obtain ⟨same, front, left⟩ := piece_take (by rw [cut]; rfl) split
    refine ⟨c :: (cs.take n ++ kept), behind, ?_, ?_, ?_⟩
    · rw [List.cons_append, List.append_assoc, ← split, List.take_append_drop]
    · rw [← stops, ← List.cons_append, Text.byteLength_append, Nat.add_assoc]
    · rw [scanFrom_gap (same.trans cut), front, left]
      exact read
  | case3 offset newline c cs kind n cut stop others read =>
    rename_i ih
    simp only [Except.ok.injEq] at h
    rw [← h] at tokens
    cases front with
    | nil =>
      obtain ⟨rfl, -⟩ := List.cons.inj tokens
      obtain ⟨same, front, left⟩ := @piece_take c cs [] (cs.drop n) n (by rw [cut]; rfl) rfl
      rw [List.append_nil] at same front left
      refine ⟨c :: cs.take n, cs.drop n, ?_, rfl, ?_⟩
      · rw [List.cons_append, List.take_append_drop]
      · apply scanFrom_token (same.trans cut) (by rw [front])
        rw [left, scanFrom]
    | cons f more =>
      obtain ⟨rfl, later⟩ := List.cons.inj tokens
      obtain ⟨kept, behind, split, stops, again⟩ := ih others later read
      obtain ⟨same, front, left⟩ := piece_take (by rw [cut]; rfl) split
      refine ⟨c :: (cs.take n ++ kept), behind, ?_, ?_, ?_⟩
      · rw [List.cons_append, List.append_assoc, ← split, List.take_append_drop]
      · rw [← stops, ← List.cons_append, Text.byteLength_append, Nat.add_assoc]
      · apply scanFrom_token (same.trans cut) (by rw [front])
        rw [left]
        exact again
  | case4 => simp at h
  | case5 => simp at h

theorem scanFrom_drop {offset : Nat} {newline : Bool} {text : List Char} {front rest : List Token}
    {t : Token} (h : scanFrom offset newline text = .ok (front ++ t :: rest)) :
    ∃ skipped left, text = skipped ++ left ∧ offset + Text.byteLength skipped = t.start ∧
      ∀ fresh, scanFrom t.start fresh left = .ok ({ t with newlineBefore := fresh } :: rest) := by
  generalize tokens : front ++ t :: rest = all at h
  fun_induction scanFrom offset newline text generalizing front all with
  | case1 offset newline =>
    simp only [Except.ok.injEq] at h
    rw [← h, List.append_eq_singleton_iff] at tokens
    rcases tokens with ⟨-, only⟩ | ⟨-, none⟩
    · obtain ⟨rfl, rfl⟩ := List.cons.inj only
      exact ⟨[], [], rfl, rfl, fun fresh => by rw [scanFrom]⟩
    · exact absurd none (by simp)
  | case2 offset newline c cs n cut passed =>
    rename_i ih
    obtain ⟨skipped, left, split, starts, read⟩ := ih all tokens h
    refine ⟨c :: (cs.take n ++ skipped), left, ?_, ?_, read⟩
    · rw [List.cons_append, List.append_assoc, ← split, List.take_append_drop]
    · rw [← starts, ← List.cons_append, Text.byteLength_append, Nat.add_assoc]
  | case3 offset newline c cs kind n cut stop others read =>
    rename_i ih
    simp only [Except.ok.injEq] at h
    rw [← h] at tokens
    cases front with
    | nil =>
      obtain ⟨rfl, rfl⟩ := List.cons.inj tokens
      exact ⟨[], c :: cs, rfl, rfl, scanFrom_token cut rfl read⟩
    | cons f more =>
      obtain ⟨rfl, later⟩ := List.cons.inj tokens
      obtain ⟨skipped, left, split, starts, again⟩ := ih others later read
      refine ⟨c :: (cs.take n ++ skipped), left, ?_, ?_, again⟩
      · rw [List.cons_append, List.append_assoc, ← split, List.take_append_drop]
      · rw [← starts, ← List.cons_append, Text.byteLength_append, Nat.add_assoc]
  | case4 => simp at h
  | case5 => simp at h

/-- The token in a text that begins `k` bytes later. No line feed is before the token that leads. -/
def moved (k : Nat) (leads : Bool) (t : Token) : Token :=
  ⟨t.kind, t.start - k, t.stop - k, t.newlineBefore && !leads⟩

def moveAll (k : Nat) : Bool → List Token → List Token
  | _, [] => []
  | leads, t :: rest => t.moved k leads :: moveAll k false rest

theorem moveAll_append (k : Nat) (leads : Bool) {front : List Token} (some : front ≠ [])
    (rest : List Token) :
    moveAll k leads (front ++ rest) = moveAll k leads front ++ moveAll k false rest := by
  induction front generalizing leads with
  | nil => exact absurd rfl some
  | cons t more ih =>
    cases more with
    | nil => rfl
    | cons u others => exact congrArg (t.moved k leads :: ·) (ih false (by simp))

theorem scanFrom_moved {k offset : Nat} {newline : Bool} {text : List Char} {tokens : List Token}
    (h : scanFrom (k + offset) newline text = .ok tokens) :
    scanFrom offset newline text = .ok (moveAll k false tokens) := by
  generalize starts : k + offset = start at h
  fun_induction scanFrom start newline text generalizing offset tokens with
  | case1 start newline =>
    simp only [Except.ok.injEq] at h
    rw [scanFrom, ← h, ← starts]
    simp [moveAll, moved]
  | case2 start newline c cs n cut passed =>
    rename_i ih
    rw [scanFrom_gap cut]
    exact ih (by rw [← starts, Nat.add_assoc]) h
  | case3 start newline c cs kind n cut stop others read =>
    rename_i ih
    simp only [Except.ok.injEq] at h
    have past : k + (offset + Text.byteLength (c :: cs.take n)) = stop := by
      rw [← Nat.add_assoc, starts]
    have here : moved k false ⟨kind, start, stop, newline⟩ =
        ⟨kind, offset, offset + Text.byteLength (c :: cs.take n), newline⟩ := by
      rw [← past, ← starts]
      simp [moved]
    rw [← h, moveAll, here]
    exact scanFrom_token cut rfl (ih past read) newline
  | case4 => simp at h
  | case5 => simp at h

/-- A part of a text from the start of a token to the stop of one is read as the tokens between. -/
theorem scan_slice {text : List Char} {front inner rest : List Token}
    (h : scan text = .ok (front ++ (inner ++ rest))) (some : inner ≠ [])
    (plain : ∀ t ∈ inner, t.kind ≠ .finish) {start stop : Nat}
    (starts : (inner.head some).start = start) (stops : (inner.getLast some).stop = stop) :
    scan (Text.slice text start stop) = .ok (moveAll start true inner ++
      [⟨.finish, stop - start, stop - start, false⟩]) := by
  have whole : scan text =
      .ok ((front ++ inner.dropLast) ++ inner.getLast some :: rest) := by
    rw [h]
    nth_rewrite 1 [← List.dropLast_append_getLast some]
    simp only [List.append_assoc, List.singleton_append]
  obtain ⟨kept, behind, rfl, past, read⟩ :=
    scanFrom_take whole (plain _ (List.getLast_mem some))
  rw [stops] at past read
  have cut : front ++ inner.dropLast ++ [inner.getLast some, ⟨.finish, stop, stop, false⟩] =
      front ++ (inner ++ [⟨.finish, stop, stop, false⟩]) := by
    nth_rewrite 3 [← List.dropLast_append_getLast some]
    simp only [List.append_assoc, List.cons_append, List.nil_append]
  rw [cut] at read
  obtain ⟨first, more, rfl⟩ := List.exists_cons_of_ne_nil some
  rw [List.head_cons] at starts
  obtain ⟨skipped, left, rfl, begins, again⟩ := scanFrom_drop read
  rw [starts] at begins again
  have inside : Text.slice ((skipped ++ left) ++ behind) start stop = left := by
    apply Text.slice_eq skipped behind (List.append_assoc ..)
    · omega
    · rw [← past, Text.byteLength_append]
      omega
  have lead : moved start false ⟨first.kind, start, first.stop, false⟩ =
      moved start true first := by simp [moved, starts]
  have ends : moveAll start true (first :: more) ++ [⟨.finish, stop - start, stop - start, false⟩] =
      moveAll start true ((first :: more) ++ [⟨.finish, stop, stop, false⟩]) :=
    (moveAll_append start true some [⟨.finish, stop, stop, false⟩]).symm
  rw [inside, ends, List.cons_append, moveAll, ← lead]
  exact @scanFrom_moved start 0 false left _ (again false)

end Token

end Arborist

import Mathlib
import Arborist.Proofs.Source.Chunk

/-!
Where tokens stand in a text. Scanning passes over the text once from the left, so its tokens take
up bytes between characters, never none, and each begins where the one before it has ended or later.
-/

namespace Arborist

namespace Text

theorem le_byteLength_append (front rest : List Char) :
    byteLength front ≤ byteLength (front ++ rest) := by
  rw [byteLength_append]
  exact Nat.le_add_right _ _

theorem byteLength_pos (c : Char) (cs : List Char) : 0 < byteLength (c :: cs) :=
  Nat.add_pos_left c.utf8Size_pos _

def Boundary (text : List Char) (offset : Nat) : Prop :=
  ∃ front rest, text = front ++ rest ∧ byteLength front = offset

theorem Boundary.le {text : List Char} {offset : Nat} (boundary : Boundary text offset) :
    offset ≤ byteLength text := by
  obtain ⟨front, rest, rfl, rfl⟩ := boundary
  exact le_byteLength_append front rest

theorem boundary_zero (text : List Char) : Boundary text 0 := ⟨[], text, rfl, rfl⟩

theorem boundary_byteLength (text : List Char) : Boundary text (byteLength text) :=
  ⟨text, [], (List.append_nil text).symm, rfl⟩

end Text

namespace Token

structure Laid (text : List Char) (tokens : List Token) : Prop where
  solid : ∀ t ∈ tokens, t.start < t.stop
  edges : ∀ t ∈ tokens, Text.Boundary text t.start ∧ Text.Boundary text t.stop
  apart : tokens.Pairwise fun a b => a.stop ≤ b.start

/-- What scanning leaves: tokens one behind the other, and the end of the text behind them. -/
structure Scanned (text : List Char) (offset : Nat) (inner : List Token) (last : Token) : Prop where
  laid : Laid text inner
  behind : ∀ t ∈ inner, offset ≤ t.start
  finish : last.kind = .finish
  ends : last.start = Text.byteLength text ∧ last.stop = Text.byteLength text

theorem Scanned.cons {text : List Char} {offset : Nat} {inner : List Token} {last t : Token}
    (scanned : Scanned text t.stop inner last) (solid : t.start < t.stop)
    (edges : Text.Boundary text t.start ∧ Text.Boundary text t.stop) (behind : offset ≤ t.start) :
    Scanned text offset (t :: inner) last where
  laid := {
    solid := List.forall_mem_cons.mpr ⟨solid, scanned.laid.solid⟩
    edges := List.forall_mem_cons.mpr ⟨edges, scanned.laid.edges⟩
    apart := List.pairwise_cons.mpr ⟨scanned.behind, scanned.laid.apart⟩ }
  behind := by
    refine List.forall_mem_cons.mpr ⟨behind, fun other member => ?_⟩
    have := scanned.behind other member
    omega
  finish := scanned.finish
  ends := scanned.ends

/-- The induction passes over the text, with what has been read of it in `front`. -/
theorem scanned_of_scanFrom {front text : List Char} {newline : Bool} {tokens : List Token}
    (h : scanFrom (Text.byteLength front) newline text = .ok tokens) :
    ∃ inner last, tokens = inner ++ [last] ∧
      Scanned (front ++ text) (Text.byteLength front) inner last := by
  generalize start : Text.byteLength front = offset at h
  fun_induction scanFrom offset newline text generalizing front tokens with
  | case1 offset newline =>
    simp only [Except.ok.injEq] at h
    refine ⟨[], _, h.symm, ⟨by simp, by simp, .nil⟩, by simp, rfl, ?_⟩
    simp [← start]
  | case2 offset newline c cs n _ skipped =>
    rename_i ih
    have whole : (front ++ skipped) ++ cs.drop n = front ++ c :: cs := by simp [skipped]
    have past : Text.byteLength (front ++ skipped) = offset + Text.byteLength skipped := by
      rw [Text.byteLength_append, start]
    obtain ⟨inner, last, rfl, scanned⟩ := ih past h
    rw [whole] at scanned
    refine ⟨inner, last, rfl, { scanned with behind := fun t member => ?_ }⟩
    have := scanned.behind t member
    omega
  | case3 offset newline c cs kind n _ stop rest read =>
    rename_i ih
    simp only [Except.ok.injEq] at h
    have whole : (front ++ c :: cs.take n) ++ cs.drop n = front ++ c :: cs := by simp
    have past : Text.byteLength (front ++ c :: cs.take n) = stop := by
      rw [Text.byteLength_append, start]
    obtain ⟨inner, last, rfl, scanned⟩ := ih past read
    rw [whole] at scanned
    have positive := Text.byteLength_pos c (cs.take n)
    have solid : offset < stop := by omega
    have edges : Text.Boundary (front ++ c :: cs) offset ∧ Text.Boundary (front ++ c :: cs) stop :=
      ⟨⟨front, _, rfl, start⟩, ⟨_, _, whole.symm, past⟩⟩
    exact ⟨⟨kind, offset, stop, newline⟩ :: inner, last, h.symm,
      Scanned.cons scanned solid edges (Nat.le_refl offset)⟩
  | case4 => simp at h
  | case5 => simp at h

theorem scanned_of_scan {text : List Char} {inner : List Token} {last : Token}
    (h : scan text = .ok (inner ++ [last])) : Scanned text 0 inner last := by
  obtain ⟨others, other, same, scanned⟩ := @scanned_of_scanFrom [] _ _ _ h
  obtain ⟨rfl, ends⟩ := List.append_inj' same rfl
  cases ends
  exact scanned

end Token

end Arborist

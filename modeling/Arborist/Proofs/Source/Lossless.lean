import Mathlib
import Arborist.Proofs.Source.Standing

/-!
What scanning leaves out. Between two tokens stand blanks and whole comments and nothing else, so a
text is its tokens with these gaps between them. A token knows whether its gap holds a line feed, and
its own part of the text, scanned alone, is that token again.
-/

namespace Arborist

namespace Text

def splitBytes : List Char → Nat → List Char × List Char
  | [], _ => ([], [])
  | c :: cs, n =>
    if n = 0 then ([], c :: cs)
    else
      let (taken, rest) := splitBytes cs (n - c.utf8Size)
      (c :: taken, rest)

def slice (text : List Char) (start stop : Nat) : List Char :=
  (splitBytes (splitBytes text start).2 (stop - start)).1

theorem splitBytes_append (front rest : List Char) :
    splitBytes (front ++ rest) (byteLength front) = (front, rest) := by
  induction front with
  | nil => cases rest <;> rfl
  | cons c more ih =>
    have some : byteLength (c :: more) ≠ 0 := (byteLength_pos c more).ne'
    have behind : byteLength (c :: more) - c.utf8Size = byteLength more := Nat.add_sub_cancel_left ..
    rw [List.cons_append, splitBytes, if_neg some, behind, ih]

theorem slice_eq {text middle : List Char} {start stop : Nat} (front rest : List Char)
    (shape : text = front ++ (middle ++ rest)) (starts : byteLength front = start)
    (stops : start + byteLength middle = stop) : slice text start stop = middle := by
  rw [slice, shape, ← stops, Nat.add_sub_cancel_left, ← starts, splitBytes_append]
  dsimp only
  rw [splitBytes_append]

end Text

namespace Token

/-- Blanks and whole comments, with `after` behind them. A comment behind `//` goes on to the end of
its line, one behind `/*` to the first `*/`. -/
inductive Gap (after : List Char) : List Char → Prop where
  | nothing : Gap after []
  | blank {c : Char} {rest : List Char} (white : Text.isBlank c = true) (behind : Gap after rest) :
      Gap after (c :: rest)
  | line {body rest : List Char} (inside : '\n' ∉ body)
      (ends : ∀ c ∈ (rest ++ after).head?, c = '\n') (behind : Gap after rest) :
      Gap after ('/' :: '/' :: (body ++ rest))
  | block {body rest : List Char} (inside : ¬ ['*', '/'] <:+: body) (behind : Gap after rest) :
      Gap after ('/' :: '*' :: (body ++ '*' :: '/' :: rest))

namespace Gap

theorem append {after front more : List Char} (first : Gap (more ++ after) front)
    (second : Gap after more) : Gap after (front ++ more) := by
  induction first with
  | nothing => exact second
  | blank white _ ih => exact .blank white ih
  | @line body rest inside ends _ ih =>
    have shape : '/' :: '/' :: (body ++ rest) ++ more = '/' :: '/' :: (body ++ (rest ++ more)) := by
      simp
    rw [shape]
    exact .line inside (by rwa [List.append_assoc]) ih
  | @block body rest inside _ ih =>
    have shape : '/' :: '*' :: (body ++ '*' :: '/' :: rest) ++ more =
        '/' :: '*' :: (body ++ '*' :: '/' :: (rest ++ more)) := by simp
    rw [shape]
    exact .block inside ih

end Gap

theorem exists_of_commentLength? {cs : List Char} {n : Nat} (h : commentLength? cs = some n) :
    ∃ body rest, cs = body ++ '*' :: '/' :: rest ∧ n = body.length + 2 ∧
      ¬ ['*', '/'] <:+: body := by
  fun_induction commentLength? cs generalizing n with
  | case1 => simp at h
  | case2 rest =>
    simp only [Option.some.injEq] at h
    exact ⟨[], rest, rfl, h.symm, by simp⟩
  | case3 c rest open_ ih =>
    obtain ⟨m, found, rfl⟩ := Option.map_eq_some_iff.1 h
    obtain ⟨body, behind, rfl, rfl, first⟩ := ih found
    refine ⟨c :: body, behind, rfl, rfl, fun inside => ?_⟩
    rcases List.infix_cons_iff.1 inside with begins | later
    · -- A closing mark at the head would have been found before.
      obtain ⟨rfl, tail⟩ := List.cons_prefix_cons.1 begins
      obtain ⟨more, rfl⟩ := tail
      exact open_ (more ++ '*' :: '/' :: behind) rfl rfl
    · exact first later

theorem pieceOfCode_ne_gap (c : Char) (cs : List Char) (n : Nat) : pieceOfCode c cs ≠ .gap n := by
  unfold pieceOfCode
  split
  · simp
  · split
    · simp
    · split <;> simp

theorem gap_of_piece {c : Char} {cs : List Char} {n : Nat} (h : piece c cs = .gap n) :
    Gap (cs.drop n) (c :: cs.take n) := by
  unfold piece at h
  split at h
  · rename_i white
    simp only [Piece.gap.injEq] at h
    subst h
    exact .blank white .nothing
  · split at h
    · rename_i rest _
      simp only [Piece.gap.injEq] at h
      have ends := head_dropWhile (· != '\n') rest
      have inside : '\n' ∉ rest.takeWhile (· != '\n') := fun member => by
        simpa using List.mem_takeWhile_imp member
      have parts := List.takeWhile_append_dropWhile (p := (· != '\n')) (l := rest)
      generalize rest.takeWhile (· != '\n') = body at *
      generalize rest.dropWhile (· != '\n') = tail at *
      subst h parts
      have comment : Gap tail ('/' :: '/' :: (body ++ [])) :=
        .line inside (by simpa using ends) .nothing
      simpa [Nat.add_comm 1] using comment
    · rename_i rest _
      split at h
      · rename_i length found
        obtain ⟨body, tail, rfl, rfl, first⟩ := exists_of_commentLength? found
        simp only [Piece.gap.injEq] at h
        subst h
        have comment : Gap tail ('/' :: '*' :: (body ++ '*' :: '/' :: [])) := .block first .nothing
        have shape : '*' :: (body ++ '*' :: '/' :: tail) =
            ('*' :: (body ++ ['*', '/'])) ++ tail := by simp
        have size : 1 + (body.length + 2) = ('*' :: (body ++ ['*', '/'])).length := by
          simp
          omega
        rw [shape, size, List.take_left, List.drop_left]
        exact comment
      · exact absurd h (by simp)
    · split at h
      · split at h <;> exact absurd h (by simp)
      · exact absurd h (pieceOfCode_ne_gap c cs n)

/-- A text that begins at an offset, cut into gaps and spellings of tokens. -/
inductive Cut : Nat → List Char → List Token → Prop where
  | finish {offset stop : Nat} {gap : List Char} (skipped : Gap [] gap)
      (stops : offset + Text.byteLength gap = stop) :
      Cut offset gap [⟨.finish, stop, stop, gap.contains '\n'⟩]
  | token {offset start stop : Nat} {gap rest : List Char} {kind : Kind} {tokens : List Token}
      (skipped : Gap (kind.spelling ++ rest) gap) (spelled : kind.Spelled)
      (starts : offset + Text.byteLength gap = start)
      (stops : start + Text.byteLength kind.spelling = stop) (behind : Cut stop rest tokens) :
      Cut offset (gap ++ (kind.spelling ++ rest)) (⟨kind, start, stop, gap.contains '\n'⟩ :: tokens)

/-- Scanning cuts a text. What has been skipped since the last token is in front of the text, and
`newline` says whether a line feed is in it. -/
theorem cut_of_scanFrom {base : Nat} {gap text : List Char} {tokens : List Token}
    (skipped : Gap text gap)
    (h : scanFrom (base + Text.byteLength gap) (gap.contains '\n') text = .ok tokens) :
    Cut base (gap ++ text) tokens := by
  generalize starts : base + Text.byteLength gap = offset at h
  generalize feeds : gap.contains '\n' = newline at h
  fun_induction scanFrom offset newline text generalizing base gap tokens with
  | case1 offset newline =>
    simp only [Except.ok.injEq] at h
    rw [← h, ← feeds, List.append_nil]
    exact .finish skipped starts
  | case2 offset newline c cs n cut passed =>
    rename_i ih
    have whole : c :: cs = passed ++ cs.drop n := by simp [passed]
    have more : Gap (cs.drop n) (gap ++ passed) := (whole ▸ skipped).append (gap_of_piece cut)
    rw [whole, ← List.append_assoc]
    refine ih more ?_ ?_ h
    · rw [Text.byteLength_append, ← starts, Nat.add_assoc]
    · rw [← feeds]
      simp
  | case3 offset newline c cs kind n cut stop rest read =>
    rename_i ih
    simp only [Except.ok.injEq] at h
    obtain ⟨spelled, spelling⟩ := spelled_of_piece cut
    have whole : c :: cs = kind.spelling ++ cs.drop n := by simp [spelling]
    have stops : offset + Text.byteLength kind.spelling = stop := by rw [spelling]
    have behind : Cut stop ([] ++ cs.drop n) rest := ih .nothing rfl rfl read
    rw [whole, ← h, ← feeds]
    exact .token (whole ▸ skipped) spelled starts stops behind
  | case4 => simp at h
  | case5 => simp at h

theorem Kind.apart_nil (kind : Kind) : kind.Apart [] := by
  cases kind <;> simp [Apart, Mark.Apart]

theorem scan_spelling {kind : Kind} (spelled : kind.Spelled) :
    scan kind.spelling = .ok [⟨kind, 0, Text.byteLength kind.spelling, false⟩,
      ⟨.finish, Text.byteLength kind.spelling, Text.byteLength kind.spelling, false⟩] := by
  have fits : Chunk.Fits [.token kind] [] := ⟨spelled, kind.apart_nil, trivial⟩
  have read := Chunk.scanFrom_render fits 0 false
  simpa [Chunk.text, Chunk.place, Chunk.endsLine, scan] using read

def leads (text : List Char) : Nat → List Token → List (List Char × Token)
  | _, [] => []
  | offset, t :: rest => (Text.slice text offset t.start, t) :: leads text t.stop rest

structure Kept (text gap : List Char) (t : Token) : Prop where
  skipped : Gap (Text.slice text t.start (Text.byteLength text)) gap
  newline : t.newlineBefore = true ↔ '\n' ∈ gap
  alone : t.kind ≠ .finish → scan (Text.slice text t.start t.stop) =
    .ok [⟨t.kind, 0, t.stop - t.start, false⟩,
      ⟨.finish, t.stop - t.start, t.stop - t.start, false⟩]

theorem Cut.kept {offset : Nat} {front text : List Char} {tokens : List Token}
    (cut : Cut offset text tokens) (begins : Text.byteLength front = offset) :
    (∀ lead ∈ leads (front ++ text) offset tokens, Kept (front ++ text) lead.1 lead.2) ∧
      (leads (front ++ text) offset tokens).flatMap (fun lead =>
        lead.1 ++ Text.slice (front ++ text) lead.2.start lead.2.stop) = text := by
  induction cut generalizing front with
  | @finish offset stop gap skipped stops =>
    have whole : Text.byteLength (front ++ gap) = stop := by
      rw [Text.byteLength_append, begins, stops]
    have before : Text.slice (front ++ gap) offset stop = gap :=
      Text.slice_eq front [] (by simp) begins stops
    have nothing : Text.slice (front ++ gap) stop stop = [] :=
      Text.slice_eq (front ++ gap) [] (by simp) whole rfl
    rw [leads, leads, before]
    refine ⟨List.forall_mem_singleton.2 ⟨?_, by simp, fun other => absurd rfl other⟩, ?_⟩
    · rw [whole, nothing]
      exact skipped
    · simp [nothing]
  | @token offset start stop gap rest kind tokens skipped spelled starts stops _ ih =>
    generalize text : front ++ (gap ++ (kind.spelling ++ rest)) = all
    have here : Text.byteLength (front ++ gap) = start := by
      rw [Text.byteLength_append, begins, starts]
    have past : Text.byteLength (front ++ (gap ++ kind.spelling)) = stop := by
      rw [← List.append_assoc, Text.byteLength_append, here, stops]
    have before : Text.slice all offset start = gap :=
      Text.slice_eq front (kind.spelling ++ rest) text.symm begins starts
    have own : Text.slice all start stop = kind.spelling :=
      Text.slice_eq (front ++ gap) rest (by simp [← text]) here stops
    have behind : Text.slice all start (Text.byteLength all) = kind.spelling ++ rest :=
      Text.slice_eq (front ++ gap) [] (by simp [← text]) here
        (by simp [← text, ← here, Text.byteLength_append, Nat.add_assoc])
    have shape : front ++ (gap ++ kind.spelling) ++ rest = all := by simp [← text]
    obtain ⟨kept, joined⟩ := ih past
    rw [shape] at kept joined
    rw [leads, before]
    refine ⟨List.forall_mem_cons.2 ⟨⟨?_, by simp, fun _ => ?_⟩, kept⟩, ?_⟩
    · rw [behind]
      exact skipped
    · have size : stop - start = Text.byteLength kind.spelling := by omega
      rw [own, size]
      exact scan_spelling spelled
    · rw [List.flatMap_cons, joined, own, List.append_assoc]

/-- Scanning loses nothing. The tokens stand one behind the other and the end of the text behind them;
the text is made of them and of the gaps before them; a gap is blanks and whole comments; a token is
marked where its gap holds a line feed; and scanned alone it is the same token. -/
theorem lossless_of_scan {text : List Char} {tokens : List Token} (h : scan text = .ok tokens) :
    (∃ inner last, tokens = inner ++ [last] ∧ (∀ t ∈ inner, t.kind ≠ .finish) ∧
      Scanned text 0 inner last) ∧
    (leads text 0 tokens).flatMap
      (fun lead => lead.1 ++ Text.slice text lead.2.start lead.2.stop) = text ∧
    ∀ lead ∈ leads text 0 tokens, Kept text lead.1 lead.2 := by
  have cut : Cut 0 ([] ++ text) tokens := cut_of_scanFrom .nothing h
  obtain ⟨kept, joined⟩ := @Cut.kept 0 [] text tokens cut rfl
  obtain ⟨inner, last, rfl, -, spelled⟩ := spelled_of_scanFrom h
  refine ⟨⟨inner, last, rfl, fun t member same => ?_, scanned_of_scan h⟩, joined, kept⟩
  have own := spelled t member
  rw [same] at own
  exact own

theorem lossless_of_scan_comments :
    let text := "a/*'\n*/>>>=.5// \"\u00e9\n'//'".toList
    let tokens : List Token := [⟨.word "a", 0, 1, false⟩, ⟨.mark .shiftRightZero, 7, 10, true⟩,
      ⟨.mark .assign, 10, 11, false⟩, ⟨.number (.ofRatio false 5 10) ".5", 11, 13, false⟩,
      ⟨.string "//" "'//'", 20, 24, true⟩, ⟨.finish, 24, 24, false⟩]
    scan text = .ok tokens ∧
      (∃ inner last, tokens = inner ++ [last] ∧ (∀ t ∈ inner, t.kind ≠ .finish) ∧
        Scanned text 0 inner last) ∧
      (leads text 0 tokens).flatMap
        (fun lead => lead.1 ++ Text.slice text lead.2.start lead.2.stop) = text ∧
      ∀ lead ∈ leads text 0 tokens, Kept text lead.1 lead.2 := by
  intro text tokens
  have read : (scan text).toOption = some tokens := by decide +kernel
  have scanned : scan text = .ok tokens := by
    cases result : scan text with
    | error fault => simp [result, Except.toOption] at read
    | ok found => simpa [result, Except.toOption] using read
  exact ⟨scanned, lossless_of_scan scanned⟩

end Token

end Arborist

import Mathlib
import Arborist.Proofs.Script.Valueless
import Arborist.Proofs.Source.Lines

/-!
Formatting twice. The code of an accepted text is parsed, and the tree of it has that same code:
neighbours that the code sets apart stand apart in the code, and no others do.
-/

namespace Arborist.Script

open LineIndex (Few)

theorem few_of_le {text : List Char} {size : Nat} (feeds : text.count '\n' ≤ 4 * size)
    (short : size < 2 ^ 51) : Few text := by
  have bound : text.count '\n' + 2 < 2 ^ 53 := by omega
  exact bound

theorem apart_lines {text : List Char} (few : Few text) (previous next : Place) :
    (previous.lines (.ofText text)).apart (next.lines (.ofText text)) =
      decide (((LineIndex.ofText text).position previous.span.stop).line + 1 <
        ((LineIndex.ofText text).position next.span.start).line) := by
  have first := LineIndex.line_le text previous.span.stop
  have second := LineIndex.line_le text next.span.start
  unfold Few at few
  exact Number.add_one_less (by omega) (by omega)

theorem between_of_parted {text : List Char} (few : Few text) {notes : Lines × Lines}
    {places : Place × Place} (parted : Parted text notes places) :
    Lines.between (Prod.map (Place.lines (.ofText text)) (Place.lines (.ofText text)) places) =
      Lines.between notes := by
  obtain ⟨front, margin, after, shape, blank, stop, start⟩ := parted
  have first : ((LineIndex.ofText text).position places.1.span.stop).line = front.count '\n' + 1 := by
    rw [stop, shape]
    exact LineIndex.line_position _ _
  have second : ((LineIndex.ofText text).position places.2.span.start).line =
      (front ++ (feeds (some notes.1) notes.2 ++ margin)).count '\n' + 1 := by
    rw [start, shape, ← List.append_assoc _ margin, ← List.append_assoc front]
    exact LineIndex.line_position _ _
  have still : margin.count '\n' = 0 := List.count_eq_zero.2 fun member => by
    exact absurd (blank _ member) (by decide)
  rw [Prod.map, Lines.between, apart_lines few, first, second, List.count_append, List.count_append, still]
  cases apart : notes.1.apart notes.2 <;> simp [feeds, Lines.between, apart]

theorem Accepted.spelt {text : String} {inner : List Token} {last : Token}
    {body : List (Stmt Place)} (accepted : Accepted text inner last body) :
    ∀ s ∈ body, s.Stable Spelt := by
  refine accepted.forms.stable fun t member => ⟨accepted.spelled t member, fun value raw kind => ?_⟩
  exact ⟨raw, rfl, kind ▸ accepted.spelled t member⟩

theorem decode_of_spelt {body : List (Stmt Place)} (stable : ∀ s ∈ body, s.Stable Spelt)
    (lines : LineIndex) (length : Nat) :
    ∃ trees, Decode.root (programFields lines length body) = .ok trees ∧
      List.Forall₂ (Stmt.Edited Value.nothing) body trees ∧
      Stmt.pairsList none trees =
        (Stmt.pairsList none body).map (Prod.map (Place.lines lines) (Place.lines lines)) := by
  obtain ⟨trees, decoded, read, -⟩ := decode_programAt registered_nothing
    (fun s member => (stable s member).printable) (Value.varies_refl _)
  exact ⟨trees, decoded, read.imp fun _ _ => Stmt.EditedAt.edited,
    Stmt.pairsList_noted (read.imp fun _ _ => Stmt.EditedAt.noted) none⟩

/-- The code of an accepted text is that of statements whose numbers have values. -/
theorem Accepted.formatted {text : String} {inner : List Token} {last : Token}
    {body : List (Stmt Place)} (accepted : Accepted text inner last body) (width : Nat)
    (lines : LineIndex) (length : Nat) :
    ∃ trees : List (Stmt Lines),
      compile width (programFields lines length body) = .ok (programText width trees) ∧
      (∀ s ∈ trees, s.Stable Literal) ∧
      Stmt.pairsList none trees =
        (Stmt.pairsList none body).map (Prod.map (Place.lines lines) (Place.lines lines)) ∧
      Stmt.totalList trees = Stmt.totalList body := by
  have stable := accepted.spelt
  obtain ⟨trees, decoded, edited, pairs⟩ := decode_of_spelt stable lines length
  have edited := Stmt.editedList_iff.2 edited
  obtain ⟨f, renders⟩ := exists_on_members (forall_of_editedStmts edited
    fun s member _ => Stmt.exists_renders (stable s member).printable (stable s member).same)
  refine ⟨trees.map f, ?_, Stmt.stable_of_renders renders, ?_, ?_⟩
  · rw [compile_of_decode decoded, programText, programText, Stmt.listText_of_renders renders]
  · rw [Stmt.pairsList_of_renders renders, pairs]
  · rw [Stmt.totalList_of_renders renders, totalList_of_edited (fun _ _ _ => total_of_edited) edited]

theorem ReadsAs.compile_again {width : Nat} {trees : List (Stmt Lines)} {inner : List Token}
    {last : Token} {again : List (Stmt Place)} (reads : ReadsAs width trees inner last again)
    (stable : ∀ s ∈ trees, s.Stable Literal) (few : Few (programText width trees).toList)
    (length : Nat) :
    compile width (programFields (.ofText (programText width trees).toList) length again) =
      .ok (programText width trees) := by
  obtain ⟨_, _, accepted⟩ := accepted_of_statements reads.statements
  obtain ⟨others, decoded, edited, pairs⟩ := decode_of_spelt accepted.spelt
    (.ofText (programText width trees).toList) length
  have same : again.map Stmt.bare = trees.map Stmt.bare :=
    reads.same.trans (map_reread_of_stableStmts stable)
  have bare : others.map Stmt.bare = trees.map Stmt.bare :=
    map_bareStmt_of_edited (Stmt.editedList_iff.2 (Stmt.edited_of_bare same edited))
      fun s member _ => bareStmt_of_edited (stable s member).printable
  have apart : (Stmt.pairsList none trees).map Lines.between =
      (Stmt.pairsList none others).map Lines.between := by
    rw [pairs, List.map_map]
    refine map_eq_of_forall₂ (reads.parted.imp fun notes places parted => ?_)
    rw [Function.comp_apply, between_of_parted few parted]
  rw [compile_of_decode decoded, programText_eq bare apart.symm]

def lineAt (text : String) (offset : Nat) : Nat :=
  ((Source.ofString text).lines.position offset).line

/-- One line feed, and another where the second place begins more than one line below the end of the
first. -/
def gapOf (source : String) (places : Place × Place) : List Char :=
  if lineAt source places.1.span.stop + 1 < lineAt source places.2.span.start then ['\n', '\n']
  else ['\n']

/-- Two places of the code have exactly the gap of two places of the source between them, and a
margin. -/
def Separated (source code : String) (places others : Place × Place) : Prop :=
  ∃ front margin after,
    code.toList = front ++ (gapOf source places ++ (margin ++ after)) ∧ (∀ c ∈ margin, c = ' ') ∧
    others.1.span.stop = Text.byteLength front ∧
    others.2.span.start = Text.byteLength (front ++ (gapOf source places ++ margin))

theorem feeds_lines {source : String} (few : Few source.toList) (places : Place × Place) :
    feeds (some (places.1.lines (Source.ofString source).lines))
      (places.2.lines (Source.ofString source).lines) = gapOf source places := by
  rw [feeds, gapOf]
  have apart := apart_lines few places.1 places.2
  by_cases below : lineAt source places.1.span.stop + 1 < lineAt source places.2.span.start
  · rw [if_pos below, if_pos]
    exact apart.trans (decide_eq_true below)
  · rw [if_neg below, if_neg]
    exact ne_true_of_eq_false (apart.trans (decide_eq_false below))

/-- Formatting is a fixed point. The code of an accepted text is accepted, its own code is the same,
and neighbours are separated in it by one blank line where they stood apart in the text and by none
elsewhere. The bound on the text is one of memory: lines are compared as binary64 numbers, which count
exactly up to `2 ^ 53`, and a text of `2 ^ 51` characters fits in no machine. -/
theorem compile_fixed_point {source : String} {tree : Fields}
    (parsed : parseProgram source = .ok tree) (short : source.length < 2 ^ 51) (width : Nat) :
    ∃ code again, compile width tree = .ok code ∧ parseProgram code = .ok again ∧
      compile width again = .ok code ∧
      ∃ body others, (Source.ofString source).statements = .ok body ∧
        (Source.ofString code).statements = .ok others ∧
        List.Forall₂ (Separated source code) (Stmt.pairsList none body)
          (Stmt.pairsList none others) := by
  obtain ⟨body, run, rfl⟩ := statements_of_parseProgram parsed
  obtain ⟨inner, last, accepted⟩ := accepted_of_statements run
  obtain ⟨trees, compiled, stable, pairs, total⟩ :=
    accepted.formatted width (Source.ofString source).lines (Source.ofString source).length
  have printable : ∀ s ∈ trees, PrintableStmt s := fun s member =>
    (stable s member).printable.imp Literal.numeric
  obtain ⟨front, finish, others, reads⟩ := readsAs printable width
  have fewSource : Few source.toList := by
    have feeds : source.toList.count '\n' ≤ source.toList.length := List.count_le_length
    rw [String.length_toList] at feeds
    exact few_of_le (by omega) short
  have few : Few (programText width trees).toList := by
    have feeds := count_programText printable width
    have statements := accepted.total_le
    exact few_of_le (by omega) short
  refine ⟨_, _, compiled, reads.parsed, reads.compile_again stable few _, body, others, run,
    reads.statements, ?_⟩
  have parted := reads.parted
  rw [pairs, List.forall₂_map_left_iff] at parted
  refine parted.imp fun places others parted => ?_
  obtain ⟨front, margin, after, shape, blank, stop, start⟩ := parted
  rw [Prod.map, feeds_lines fewSource] at shape start
  exact ⟨front, margin, after, shape, blank, stop, start⟩

theorem compile_fixed_point_wide :
    ∃ tree, parseProgram "a = 0x10000000000000000.b\n\n\nif (c) \x7b d\ne \x7d" = .ok tree ∧
      "a = 0x10000000000000000.b\n\n\nif (c) \x7b d\ne \x7d".length < 2 ^ 51 ∧
      ∃ code again, compile 2 tree = .ok code ∧ parseProgram code = .ok again ∧
        compile 2 again = .ok code ∧
        ∃ body others,
          (Source.ofString "a = 0x10000000000000000.b\n\n\nif (c) \x7b d\ne \x7d").statements = .ok body ∧
          (Source.ofString code).statements = .ok others ∧
          List.Forall₂
            (Separated "a = 0x10000000000000000.b\n\n\nif (c) \x7b d\ne \x7d" code)
            (Stmt.pairsList none body) (Stmt.pairsList none others) := by
  obtain ⟨tree, parsed⟩ : ∃ tree,
      parseProgram "a = 0x10000000000000000.b\n\n\nif (c) \x7b d\ne \x7d" = .ok tree :=
    exists_of_isOk (by decide +kernel)
  have short : "a = 0x10000000000000000.b\n\n\nif (c) \x7b d\ne \x7d".length < 2 ^ 51 := by
    decide +kernel
  exact ⟨tree, parsed, short, compile_fixed_point parsed short 2⟩

end Arborist.Script

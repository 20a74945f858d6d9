import Mathlib
import Arborist.Proofs.Script.Spacing
import Arborist.Proofs.Script.ViableStatements
import Arborist.Proofs.Source.Continued

/-!
Where a text is refused. The reported position is that of the first token that cannot be there: the
text before it goes on to some text that is accepted, and no text that begins with the same tokens
up to it is.
-/

namespace Arborist.Script

open Token (Kind)

theorem Filler.spelled (filler : Filler) : filler.kind.Spelled := by
  cases filler with
  | name => exact ⟨'a', [], rfl, by decide, by decide⟩
  | mark m => trivial

def Filler.chunks : List Filler → List Chunk
  | [] => []
  | filler :: rest => .token filler.kind :: .blank :: chunks rest

theorem Filler.fits_chunks (missing : List Filler) : Chunk.Fits (Filler.chunks missing) [] := by
  induction missing with
  | nil => trivial
  | cons filler rest ih => exact fits_spaced filler.spelled ih

theorem Filler.supplies_chunks (missing : List Filler) (offset : Nat) (newline : Bool) :
    Supplies missing (Chunk.place offset newline (Filler.chunks missing)) := by
  induction missing generalizing offset newline with
  | nil => exact .nil
  | cons filler rest ih => exact .cons rfl (ih _ _)

theorem Filler.scan_chunks (missing : List Filler) (offset : Nat) (newline : Bool) :
    ∃ us last, Token.scanFrom offset newline (Chunk.render (Filler.chunks missing)) =
      .ok (us ++ [last]) ∧ Supplies missing us ∧ last.kind = .finish :=
  ⟨_, _, Chunk.scanFrom_render (Filler.fits_chunks missing) offset newline,
    Filler.supplies_chunks missing offset newline, rfl⟩

theorem accepted_of_completes {text : String} {front rest : List Token} {t : Token}
    (scanned : Token.scan text.toList = .ok (front ++ t :: rest))
    (completes : Completes Contains front) :
    ∃ (w : String) (tree : Fields),
      parseFile (String.ofList (Text.slice text.toList 0 t.start) ++ w) = .ok tree := by
  obtain ⟨missing, contains⟩ := completes
  obtain ⟨kept, behind, split, starts, again⟩ := Token.scanFrom_feed scanned
  rw [Nat.zero_add] at starts
  have cut : Text.slice text.toList 0 t.start = kept :=
    Text.slice_eq [] behind split rfl (by rw [starts, Nat.zero_add])
  -- The missing tokens stand on a line of their own, in case that a comment ends the text.
  obtain ⟨us, last, written, supplies, finish⟩ := Filler.scan_chunks missing (t.start + 1) true
  have read := again written
  rw [← List.append_assoc] at read
  obtain ⟨list, forms⟩ := contains us supplies last (.inl finish)
  have live := live_of_scan read
  have whole : (String.ofList (Text.slice text.toList 0 t.start) ++
      String.ofList ('\n' :: Chunk.render (Filler.chunks missing))).toList =
        kept ++ '\n' :: Chunk.render (Filler.chunks missing) := by
    rw [String.toList_append, String.toList_ofList, String.toList_ofList, cut]
  refine ⟨String.ofList ('\n' :: Chunk.render (Filler.chunks missing)), _,
    parseFile_of_accepted ?_ ((program_eq_ok_iff finish live).2 forms)⟩
  rw [whole]
  exact read

theorem exists_of_refused {text : String} {expected : Expectation} {found : Kind}
    {position : Position}
    (refused : parseFile text = .error (.unexpected expected found position)) :
    ∃ tokens t, Token.scan text.toList = .ok tokens ∧
      Parser.program tokens = .error ⟨expected, t⟩ ∧ t.kind = found ∧
      (LineIndex.ofText text.toList).position t.start = position := by
  cases scanned : Token.scan text.toList with
  | error fault =>
    have stops : (Source.ofString text).statements = .error (.lexical fault.1
        ((Source.ofString text).lines.position fault.2)) := by
      unfold Source.statements Source.tokens
      rw [show Token.scan (Source.ofString text).text = _ from scanned]
    rw [parseFile, stops] at refused
    exact absurd refused (by simp [Except.map])
  | ok tokens =>
    cases run : Parser.program tokens with
    | ok body =>
      rw [parseFile_of_accepted scanned run] at refused
      exact absurd refused (by simp)
    | error surprise =>
      rw [parseFile_of_refused scanned run] at refused
      simp only [Except.error.injEq, ParseError.unexpected.injEq] at refused
      obtain ⟨rfl, kind, place⟩ := refused
      exact ⟨tokens, surprise.found, rfl, run, kind, place⟩

/-- A token of a text is the first that cannot be there. -/
structure Misfit (text : String) (expected : Expectation) (front : List Token) (t : Token) :
    Prop where
  /-- The token stands in the text, behind others. -/
  stands : ∃ rest, Token.scan text.toList = .ok (front ++ t :: rest)
  /-- The text before the token goes on to one that is accepted. -/
  before : ∃ (w : String) (tree : Fields),
    parseFile (String.ofList (Text.slice text.toList 0 t.start) ++ w) = .ok tree
  /-- Every text with the same tokens up to this one, and line feeds before the same ones, is
  refused there for the same reason. -/
  always : ∀ {other : String} {before : List Token} {u : Token} {behind : List Token},
    Token.scan other.toList = .ok (before ++ u :: behind) →
    (before ++ [u]).map Token.sign = (front ++ [t]).map Token.sign →
    parseFile other = .error (.unexpected expected t.kind
      ((LineIndex.ofText other.toList).position u.start))

/-- A text is refused at the first token that cannot be there: it is the kind and the position of
that token that are reported. -/
theorem refused_at_misfit {text : String} {expected : Expectation} {found : Kind}
    {position : Position}
    (refused : parseFile text = .error (.unexpected expected found position)) :
    ∃ front t, Misfit text expected front t ∧ found = t.kind ∧
      position = (LineIndex.ofText text.toList).position t.start := by
  obtain ⟨tokens, t, scanned, stopped, rfl, rfl⟩ := exists_of_refused refused
  obtain ⟨front, rest, rfl, again⟩ := refused_again scanned stopped
  refine ⟨front, t, ⟨⟨rest, scanned⟩, ?_, fun {other before u behind} rescanned same => ?_⟩, rfl,
    rfl⟩
  · exact accepted_of_completes scanned (completes_of_refused scanned stopped)
  · rw [List.map_append, List.map_append] at same
    obtain ⟨fronts, last⟩ := List.append_inj' same rfl
    have sign : u.sign = t.sign := (List.cons.inj last).1
    have kind : u.kind = t.kind := congrArg Prod.fst sign
    rw [parseFile_of_refused rescanned (again rescanned fronts sign), kind]

/-- A branch whose test is not closed. -/
theorem refused_at_misfit_branch :
    parseFile "if (a b" =
      .error (.unexpected (.mark .closeParen) (.word "b") ⟨1, 6⟩) ∧
    ∃ front t, Misfit "if (a b" (.mark .closeParen) front t ∧ Kind.word "b" = t.kind ∧
      ⟨1, 6⟩ = (LineIndex.ofText "if (a b".toList).position t.start := by
  have stops : (match parseFile "if (a b" with
      | .error fault => some fault
      | .ok _ => none) =
        some (.unexpected (.mark .closeParen) (.word "b") ⟨1, 6⟩) := by decide +kernel
  have refused : parseFile "if (a b" =
      .error (.unexpected (.mark .closeParen) (.word "b") ⟨1, 6⟩) := by
    cases run : parseFile "if (a b" with
    | ok => simp [run] at stops
    | error fault => simpa [run] using stops
  exact ⟨refused, refused_at_misfit refused⟩

end Arborist.Script

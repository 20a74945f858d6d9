import Mathlib
import Arborist.Proofs.Script.DecodedStatements
import Arborist.Proofs.Script.EditedPrinting
import Arborist.Script.Source

/-!
Parsing what was printed. The tree of an accepted text is compiled, and the code is parsed into the
same tree again, but for where its nodes stand. Hexadecimal literals of more than 64 bits are left
out: they have no value to print.
-/

namespace Arborist

theorem exists_of_isOk {α ε : Type} {result : Except ε α} (ok : result.isOk = true) :
    ∃ a, result = .ok a := by
  cases result with
  | error fault => simp [Except.isOk, Except.toBool] at ok
  | ok a => exact ⟨a, rfl⟩

namespace Number

theorem pack_ne_nan (negative : Bool) (mantissa : Nat) (exponent : Int) :
    pack negative mantissa exponent ≠ .nan := by
  unfold pack
  split <;> simp

theorem ofRatio_ne_nan (negative : Bool) (num den : Nat) : ofRatio negative num den ≠ .nan := by
  unfold ofRatio
  dsimp only
  split <;> exact pack_ne_nan _ _ _

end Number

theorem Decimal.toNumber_ne_nan (negative : Bool) (d : Decimal) : d.toNumber negative ≠ .nan := by
  unfold toNumber
  dsimp only
  split
  · simp [Number.zero]
  · split
    · simp
    · split
      · simp [Number.zero]
      · split <;> exact Number.ofRatio_ne_nan _ _ _

namespace Token

def hexValue (digits : List Char) : Nat := digits.foldl (fun n c => 16 * n + hexDigitValue c) 0

def Kind.isWide : Kind → Bool
  | .number _ raw => wordSize ≤ hexValue (hexDigits raw.toList)
  | _ => false

theorem ne_nan_of_spelled {value : Number} {raw : String} (spelled : (Kind.number value raw).Spelled)
    (narrow : (Kind.number value raw).isWide = false) : value ≠ .nan := by
  have inside : hexValue (hexDigits raw.toList) < wordSize := by simpa [Kind.isWide] using narrow
  have scanned : scanNumber raw.toList = some (value, raw.toList.length) := spelled
  unfold scanNumber at scanned
  dsimp only at scanned
  split at scanned
  · split at scanned
    · simp only [Option.some.injEq, Prod.mk.injEq] at scanned
      rw [← scanned.1]
      exact Decimal.toNumber_ne_nan _ _
    · simp at scanned
  · simp only [Option.some.injEq, Prod.mk.injEq] at scanned
    have exact : hexNumber (hexDigits raw.toList) = .ofNat (hexValue (hexDigits raw.toList)) :=
      if_pos inside
    rw [← scanned.1, exact]
    exact Number.ofRatio_ne_nan _ _ _

end Token

namespace Script

def Lacks (bad : Token.Kind → Bool) (text : String) : Prop :=
  ∀ tokens, Token.scan text.toList = .ok tokens → ∀ t ∈ tokens, bad t.kind = false

instance (bad : Token.Kind → Bool) (text : String) : Decidable (Lacks bad text) :=
  match scanned : Token.scan text.toList with
  | .error fault => isTrue fun tokens again => by simp [scanned] at again
  | .ok list =>
    decidable_of_iff (∀ t ∈ list, bad t.kind = false) (by simp [Lacks, scanned])

/-- No hexadecimal literal in the text has a value of 2^64 or more. -/
abbrev Narrow (text : String) : Prop := Lacks Token.Kind.isWide text

structure Accepted (text : String) (inner : List Token) (last : Token) (body : List (Stmt Place)) :
    Prop where
  scanned : Token.scan text.toList = .ok (inner ++ [last])
  finish : last.kind = .finish
  spelled : ∀ t ∈ inner, t.kind.Spelled
  forms : Forms (.body body) inner last

theorem accepted_of_statements {text : String} {body : List (Stmt Place)}
    (parsed : (Source.ofString text).statements = .ok body) :
    ∃ inner last, Accepted text inner last body := by
  unfold Source.statements Source.tokens at parsed
  cases scanned : Token.scan (Source.ofString text).text with
  | error fault => simp [scanned] at parsed
  | ok tokens =>
    obtain ⟨inner, last, rfl, finish, spelled⟩ := Token.spelled_of_scanFrom scanned
    have live : ∀ t ∈ inner, t.kind ≠ .finish := by
      intro t member ends
      have here := spelled t member
      rw [ends] at here
      exact here
    refine ⟨inner, last, scanned, finish, spelled, ?_⟩
    rw [scanned] at parsed
    cases run : Parser.program (inner ++ [last]) with
    | error fault => simp [run] at parsed
    | ok list =>
      simp only [run, Except.ok.injEq] at parsed
      exact parsed ▸ (program_eq_ok_iff finish live).mp run

theorem statements_of_parseProgram {text : String} {tree : Fields}
    (parsed : parseProgram text = .ok tree) :
    ∃ body, (Source.ofString text).statements = .ok body ∧
      tree = programFields (Source.ofString text).lines (Source.ofString text).length body := by
  unfold parseProgram at parsed
  cases run : (Source.ofString text).statements with
  | error fault => simp [run, Except.map] at parsed
  | ok body =>
    simp only [run, Except.map, Except.ok.injEq] at parsed
    exact ⟨body, rfl, parsed.symm⟩

theorem exists_of_parseProgram {text : String} {tree : Fields}
    (parsed : parseProgram text = .ok tree) :
    ∃ inner last body, Accepted text inner last body ∧
      tree = programFields (Source.ofString text).lines (Source.ofString text).length body := by
  obtain ⟨body, run, shape⟩ := statements_of_parseProgram parsed
  obtain ⟨inner, last, accepted⟩ := accepted_of_statements run
  exact ⟨inner, last, body, accepted, shape⟩

theorem registered_nothing : Value.nothing.Registered := ⟨fun written => written.elim⟩

theorem readable_nothing : Readable Numeric Value.nothing where
  name written := written.elim
  number literal kept := by
    cases eq_of_kept kept
    rw [if_pos literal.agrees]
    exact literal.numeric

theorem Accepted.proper {text : String} {inner : List Token} {last : Token}
    {body : List (Stmt Place)} (accepted : Accepted text inner last body) (narrow : Narrow text) :
    ∀ t ∈ inner, Proper Literal t.kind := by
  intro t member
  have spelled := accepted.spelled t member
  refine ⟨spelled, fun value raw kind => ?_⟩
  rw [kind] at spelled
  have inside := narrow _ accepted.scanned t (List.mem_append_left _ member)
  rw [kind] at inside
  exact ⟨raw, rfl, spelled, Token.ne_nan_of_spelled spelled inside⟩

theorem Accepted.stable {text : String} {inner : List Token} {last : Token}
    {body : List (Stmt Place)} (accepted : Accepted text inner last body) (narrow : Narrow text) :
    ∀ s ∈ body, s.Stable Literal :=
  accepted.forms.stable (accepted.proper narrow)

theorem decode_of_stable {body : List (Stmt Place)} (stable : ∀ s ∈ body, s.Stable Literal)
    (lines : LineIndex) (length : Nat) :
    ∃ trees, Decode.root (programFields lines length body) = .ok trees ∧
      (∀ s ∈ trees, PrintableStmt s) ∧ trees.map Stmt.bare = body.map Stmt.bare := by
  obtain ⟨trees, decoded, edited, -⟩ := decode_program registered_nothing
    (fun s member => (stable s member).printable) (Value.varies_refl _)
  have same := Stmt.editedList_iff.mpr edited
  refine ⟨trees, decoded, ?_, ?_⟩
  · exact forall_of_editedStmts same fun s member _ edited =>
      printableStmt_of_edited readable_nothing (stable s member).printable edited
  · exact map_bareStmt_of_edited same fun s member _ edited =>
      bareStmt_of_edited (stable s member).printable edited

theorem compile_of_decode {root : Fields} {trees : List (Stmt Lines)}
    (decoded : Decode.root root = .ok trees) (width : Nat) :
    compile width root = .ok (programText width trees) := by
  rw [compile, decoded]
  rfl

theorem ReadsAs.parsed {width : Nat} {body : List (Stmt Lines)} {inner : List Token}
    {last : Token} {trees : List (Stmt Place)} (reads : ReadsAs width body inner last trees) :
    parseProgram (programText width body) =
      .ok (programFields (Source.ofString (programText width body)).lines
        (Source.ofString (programText width body)).length trees) := by
  rw [parseProgram, reads.statements]
  rfl

theorem map_reread_of_bare {ι κ : Type} {list : List (Stmt ι)} {others : List (Stmt κ)}
    (same : others.map Stmt.bare = list.map Stmt.bare) :
    others.map Stmt.reread = list.map Stmt.reread := by
  have forget {ν : Type} (list : List (Stmt ν)) :
      list.map Stmt.reread = (list.map Stmt.bare).map Stmt.reread := by
    simp [Stmt.reread_bare]
  rw [forget others, forget list, same]

theorem Accepted.printed {text : String} {inner : List Token} {last : Token}
    {body : List (Stmt Place)} (accepted : Accepted text inner last body) (narrow : Narrow text)
    (width : Nat) (lines : LineIndex) (length : Nat) :
    ∃ (trees : List (Stmt Lines)) (front : List Token) (finish : Token) (again : List (Stmt Place)),
      compile width (programFields lines length body) = .ok (programText width trees) ∧
      ReadsAs width trees front finish again ∧ again.map Stmt.bare = body.map Stmt.bare := by
  have stable := accepted.stable narrow
  obtain ⟨trees, decoded, printable, same⟩ := decode_of_stable stable lines length
  obtain ⟨front, finish, again, reads⟩ := readsAs printable width
  refine ⟨trees, front, finish, again, compile_of_decode decoded width, reads, ?_⟩
  calc again.map Stmt.bare
    _ = trees.map Stmt.reread := reads.same
    _ = body.map Stmt.reread := map_reread_of_bare same
    _ = body.map Stmt.bare := map_reread_of_stableStmts stable

/-- The tree of an accepted text without wide hexadecimal literals is compiled, and the code is
parsed into the same tree: all fields but positions and parentheses agree, spellings included. -/
theorem parse_compile_parse {text : String} {tree : Fields} (parsed : parseProgram text = .ok tree)
    (narrow : Narrow text) (width : Nat) :
    ∃ code again, compile width tree = .ok code ∧ parseProgram code = .ok again ∧
      (Value.object again).trim true = (Value.object tree).trim true := by
  obtain ⟨inner, last, body, accepted, rfl⟩ := exists_of_parseProgram parsed
  obtain ⟨trees, front, finish, again, compiled, reads, same⟩ :=
    accepted.printed narrow width (Source.ofString text).lines (Source.ofString text).length
  refine ⟨_, _, compiled, reads.parsed, ?_⟩
  rw [trim_program, trim_program, ← programOutline_bare again, same, programOutline_bare]

theorem parse_compile_parse_branch :
    ∃ tree, parseProgram "if (a) b = 0x1F + (c, 'd')\nelse f(-x ** 2,)" = .ok tree ∧
      Narrow "if (a) b = 0x1F + (c, 'd')\nelse f(-x ** 2,)" ∧
      ∃ code again, compile 4 tree = .ok code ∧ parseProgram code = .ok again ∧
        (Value.object again).trim true = (Value.object tree).trim true := by
  obtain ⟨tree, parsed⟩ : ∃ tree,
      parseProgram "if (a) b = 0x1F + (c, 'd')\nelse f(-x ** 2,)" = .ok tree :=
    exists_of_isOk (by decide +kernel)
  have narrow : Narrow "if (a) b = 0x1F + (c, 'd')\nelse f(-x ** 2,)" := by decide +kernel
  exact ⟨tree, parsed, narrow, parse_compile_parse parsed narrow 4⟩

end Script

end Arborist

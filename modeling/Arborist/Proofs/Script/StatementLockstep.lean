import Mathlib
import Arborist.Proofs.Script.Lockstep
import Arborist.Proofs.Script.StatementCompleteness
import Arborist.Proofs.Script.Unplaced
import Arborist.Proofs.Source.Standing
import Arborist.Script.Source

/-!
Statements in lockstep. The one place where a parser looks behind the current token is the word
`async`, and it never stops at that word, so there too both runs see the same. Hence layout and
comments do not matter: texts with the same kinds of tokens and the same line breaks between them are
read as the same tree, or refused for the same reason.
-/

namespace Arborist.Script

open Cursor (Passes Ready Trails)

namespace Tracks

variable {α β : Type} {blur : α → β} {cost : Nat} {c : Cursor} {a a' : α}
  {other next : Nat → Cursor → Except Surprise (α × Cursor)} {run : Except Surprise (α × Cursor)}

theorem terminated {first second : Nat → Cursor → α} (ready : c.Ready)
    (one : ∀ fuel c', blur (first fuel c') = blur a)
    (two : ∀ fuel c', blur (second fuel c') = blur a') :
    Tracks blur cost c
      (fun fuel c' => if c'.isMark .semicolon then .ok (first fuel c', c'.advance)
        else if c'.endsStatement then .ok (second fuel c', c')
        else .error ⟨.mark .semicolon, c'.current⟩)
      (if c.isMark .semicolon then .ok (a, c.advance)
        else if c.endsStatement then .ok (a', c)
        else .error ⟨.mark .semicolon, c.current⟩) := by
  refine .ite (Cursor.isMark_congr · .semicolon) (fun semicolon => ?_) fun _ => ?_
  · exact .passed ready (by simp [Cursor.isMark_iff.1 semicolon]) one
  · exact .ite (Cursor.endsStatement_congr ·) (fun _ => .here two) fun _ => .stuck

/-- A run that cannot end at its first token may be rewritten by what the second shows. That it cannot
is seen from one sample with the same first sign. -/
theorem congrNext (tracks : Tracks blur cost c next run) (sample : Cursor) (enough : Nat)
    (like : sample.current.sign = c.current.sign) (ended : sample.Ended)
    (fits : 16 * sample.rest.length + cost ≤ enough)
    (passed : ∀ b, next enough sample ≠ .ok (b, sample))
    (moved : ∀ expected, next enough sample ≠ .error ⟨expected, sample.current⟩)
    (same : ∀ fuel c', c'.Ended → c'.current.sign = c.current.sign →
      c'.advance.current.sign = c.advance.current.sign → other fuel c' = next fuel c') :
    Tracks blur cost c other run := by
  have still : Trails [] c.current sample sample := ⟨⟨[], .refl sample, rfl⟩, like, ended⟩
  have seen : ∀ {t : Token} {ts : List Token} {d c' d' : Cursor}, Passes c d (t :: ts) →
      Trails (t :: ts) d.current c' d' → ∀ fuel, other fuel c' = next fuel c' := by
    intro t ts d c' d' passes trails fuel
    obtain ⟨b, first, rest⟩ := @Trails.split [t] ts c.advance d c' d' trails passes.uncons.2
    obtain ⟨us, behind, signs⟩ := first.passes
    obtain ⟨u, rfl⟩ : ∃ u, us = [u] :=
      List.length_eq_one_iff.1 (by simpa using congrArg List.length signs)
    refine same fuel c' trails.ended (trails.head passes) ?_
    rw [behind.advance_eq]
    exact rest.head passes.uncons.2
  cases tracks with
  | @ok a d ts passes again =>
    refine .ok passes fun fuel c' d' trails enough' => ?_
    cases ts with
    | nil =>
      obtain rfl := passes.eq_of_nil
      obtain ⟨b, read, -⟩ := again enough sample sample still fits
      exact absurd read (passed b)
    | cons t ts =>
      rw [seen passes trails]
      exact again fuel c' d' trails enough'
  | @error surprise d ts passes found again =>
    refine .error passes found fun fuel c' d' trails enough' => ?_
    cases ts with
    | nil =>
      obtain rfl := passes.eq_of_nil
      exact absurd (again enough sample sample still fits) (moved _)
    | cons t ts =>
      rw [seen passes trails]
      exact again fuel c' d' trails enough'

end Tracks

theorem tracks_parameters (fuel : Nat) {c : Cursor} (ready : c.Ready)
    (fits : 16 * c.rest.length + 1 ≤ fuel) :
    Tracks (List.map Expr.blurred) 1 c Parser.parameters (Parser.parameters fuel c) := by
  induction fuel generalizing c with
  | zero => omega
  | succ fuel ih =>
    rw [Parser.parameters_succ]
    refine .call Parser.parameters_succ ?_
    refine .ite (Cursor.isMark_congr · .closeParen) (fun _ => .here fun _ _ => rfl) fun _ => ?_
    refine .bind ready (tracks_identifier ready) fun e d ts _ passes twin c' same => ?_
    have there := passes.ready ready
    have shorter := passes.length_eq
    refine .ite (Cursor.isMark_congr · .comma) (fun comma => ?_) fun _ => .here fun _ _ => ?_
    · obtain ⟨live, -, behind, length⟩ := there.next (by simp [Cursor.isMark_iff.1 comma])
      refine .bindPast there live ((ih behind (by omega)).mono (by omega))
        fun list f us _ _ twins d' all => ?_
      exact .here fun _ _ => by simp [same, all]
    · simp [same]

theorem tracks_initial {fuel : Nat} {c : Cursor} (ready : c.Ready)
    (fits : 16 * c.rest.length ≤ fuel) :
    Tracks (Option.map Expr.blurred) 0 c Parser.initial (Parser.initial fuel c) := by
  refine .ite (Cursor.isMark_congr · .assign) (fun mark => ?_) fun _ => .here fun _ _ => rfl
  obtain ⟨live, -, behind, length⟩ := ready.next (by simp [Cursor.isMark_iff.1 mark])
  refine .bindPast ready live (((lockstep fuel).assignment behind (by omega)).mono (by omega))
    fun e d ts _ _ twin c' same => ?_
  exact .here fun _ _ => by simp [same]

theorem tracks_declarators (fuel : Nat) {c : Cursor} (ready : c.Ready)
    (fits : 16 * c.rest.length + 1 ≤ fuel) :
    Tracks (List.map Declarator.blurred) 1 c Parser.declarators (Parser.declarators fuel c) := by
  induction fuel generalizing c with
  | zero => omega
  | succ fuel ih =>
    rw [Parser.declarators_succ]
    refine .call Parser.declarators_succ ?_
    refine .bind ready (tracks_identifier ready) fun e d ts _ passes twin c' same => ?_
    have there := passes.ready ready
    have shorter := passes.length_eq
    refine .bind there ((tracks_initial there (by omega)).mono (by omega))
      fun value f us _ further other d' equal => ?_
    have far := further.ready there
    have less := further.length_eq
    refine .ite (Cursor.isMark_congr · .comma) (fun comma => ?_) fun _ => .here fun _ _ => ?_
    · obtain ⟨live, -, behind, length⟩ := far.next (by simp [Cursor.isMark_iff.1 comma])
      refine .bindPast far live ((ih behind (by omega)).mono (by omega))
        fun list g vs _ _ twins f' all => ?_
      exact .here fun _ _ => by simp [Declarator.mapNote, same, equal, all]
    · simp [Declarator.mapNote, same, equal]

theorem tracks_declaration {fuel : Nat} {kind : DeclarationKind} {c : Cursor} (ready : c.Ready)
    (live : c.current.kind ≠ .finish) (fits : 16 * c.rest.length ≤ fuel) :
    Tracks Stmt.blurred 0 c (fun n => Parser.declaration n kind) (Parser.declaration fuel kind c) := by
  rw [Parser.declaration_run]
  refine .congr (fun n c' _ => Parser.declaration_run n kind c') ?_
  obtain ⟨-, -, behind, length⟩ := ready.next live
  refine .ite (Cursor.atWord_congr ·) (fun _ => ?_) fun _ => .past ready live fun _ => .stuck
  refine .bindPast ready live ((tracks_declarators fuel behind (by omega)).mono (by omega))
    fun list d ts _ passes twins c' all => ?_
  refine .terminated (passes.ready behind) (fun _ _ => ?_) fun _ _ => ?_
  all_goals simp [Stmt.mapNote, all]

namespace Parser

def named (isAsync isGenerator : Bool) (fuel : Nat) (c : Cursor) :
    Except Surprise (FunctionHead Place × Cursor) :=
  identifier c >>= fun r =>
    if r.2.isMark .openParen then
      parameters fuel r.2.advance >>= fun s =>
        if s.2.isMark .closeParen then .ok (⟨isAsync, isGenerator, r.1, s.1⟩, s.2.advance)
        else .error ⟨.mark .closeParen, s.2.current⟩
    else .error ⟨.mark .openParen, r.2.current⟩

def starred (isAsync : Bool) (fuel : Nat) (c : Cursor) :
    Except Surprise (FunctionHead Place × Cursor) :=
  if c.isMark .times then named isAsync true fuel c.advance else named isAsync false fuel c

def headed (isAsync : Bool) (fuel : Nat) (c : Cursor) :
    Except Surprise (FunctionHead Place × Cursor) :=
  if c.isWord "function" then starred isAsync fuel c.advance
  else .error ⟨.functionWord, c.current⟩

theorem functionHead_eq (fuel : Nat) (c : Cursor) :
    functionHead fuel c =
      if c.isWord "async" then headed true fuel c.advance else headed false fuel c := by
  rw [functionHead_run]
  cases async : c.isWord "async" with
  | true =>
    cases star : c.advance.advance.isMark .times <;>
      simp [headed, starred, named, behindAsync, behindStar, async, star]
  | false =>
    cases star : c.advance.isMark .times <;>
      simp [headed, starred, named, behindAsync, behindStar, async, star]

end Parser

theorem tracks_named {isAsync isGenerator : Bool} {fuel : Nat} {c : Cursor} (ready : c.Ready)
    (fits : 16 * c.rest.length ≤ fuel) :
    Tracks FunctionHead.blurred 0 c (Parser.named isAsync isGenerator)
      (Parser.named isAsync isGenerator fuel c) := by
  refine .bind ready (tracks_identifier ready) fun e d ts _ passes twin c' same => ?_
  have there := passes.ready ready
  have shorter := passes.length_eq
  refine .ite (Cursor.isMark_congr · .openParen) (fun opening => ?_) fun _ => .stuck
  obtain ⟨live, -, behind, length⟩ := there.next (by simp [Cursor.isMark_iff.1 opening])
  refine .bindPast there live ((tracks_parameters fuel behind (by omega)).mono (by omega))
    fun list f us _ further twins d' all => ?_
  refine .ite (Cursor.isMark_congr · .closeParen) (fun closing => ?_) fun _ => .stuck
  refine .passed (further.ready behind) (by simp [Cursor.isMark_iff.1 closing]) fun _ _ => ?_
  simp [FunctionHead.mapNote, same, all]

theorem tracks_starred {isAsync : Bool} {fuel : Nat} {c : Cursor} (ready : c.Ready)
    (fits : 16 * c.rest.length ≤ fuel) :
    Tracks FunctionHead.blurred 0 c (Parser.starred isAsync) (Parser.starred isAsync fuel c) := by
  refine .ite (Cursor.isMark_congr · .times) (fun star => ?_) fun _ => tracks_named ready fits
  obtain ⟨live, -, behind, length⟩ := ready.next (by simp [Cursor.isMark_iff.1 star])
  exact .past ready live fun _ => (tracks_named behind (by omega)).mono (by omega)

theorem tracks_headed {isAsync : Bool} {fuel : Nat} {c : Cursor} (ready : c.Ready)
    (fits : 16 * c.rest.length ≤ fuel) :
    Tracks FunctionHead.blurred 0 c (Parser.headed isAsync) (Parser.headed isAsync fuel c) := by
  refine .ite (Cursor.isWord_congr · "function") (fun word => ?_) fun _ => .stuck
  obtain ⟨live, -, behind, length⟩ := ready.next (by simp [Cursor.isWord_iff.1 word])
  exact .past ready live fun _ => (tracks_starred behind (by omega)).mono (by omega)

namespace Cursor

theorem startsFunction_of_not_async {c : Cursor} (other : c.isWord "async" = false) :
    c.startsFunction = c.isWord "function" := by
  rw [startsFunction, other, Bool.false_and, Bool.or_false]

theorem startsFunction_of_async {c : Cursor} (ended : c.Ended) (async : c.isWord "async" = true) :
    c.startsFunction =
      (c.advance.isWord "function" && !c.advance.current.newlineBefore) := by
  have kind := isWord_iff.1 async
  have rest := (ended.passes_advance (by simp [kind])).rest_eq
  simp [startsFunction, isWord, kind, rest, tokens]

end Cursor

theorem tracks_functionHead {fuel : Nat} {c : Cursor} (ready : c.Ready)
    (fits : 16 * c.rest.length ≤ fuel) :
    Tracks FunctionHead.blurred 0 c Parser.functionHead (Parser.functionHead fuel c) := by
  rw [Parser.functionHead_eq]
  refine .congr (fun n c' _ => Parser.functionHead_eq n c') ?_
  refine .ite (Cursor.isWord_congr · "async") (fun async => ?_) fun _ => tracks_headed ready fits
  obtain ⟨live, -, behind, length⟩ := ready.next (by simp [Cursor.isWord_iff.1 async])
  exact .past ready live fun _ => (tracks_headed behind (by omega)).mono (by omega)

namespace Parser

def functioning (fuel : Nat) (c : Cursor) : Except Surprise (Stmt Place × Cursor) :=
  functionHead fuel c >>= fun r =>
    block fuel r.2 >>= fun s => .ok (.function (s.2.place c.current.start) r.1 s.1.1 s.1.2, s.2)

def acting (fuel : Nat) (c : Cursor) : Except Surprise (Stmt Place × Cursor) :=
  if c.isWord "return" then leaving fuel c.current.start c.advance
  else if c.isWord "if" then branching fuel c.current.start c.advance
  else if c.isMark .openBrace then block fuel c >>= fun r => .ok (.block r.1.1 r.1.2, r.2)
  else if c.isMark .semicolon then .ok (.empty (c.advance.place c.current.start), c.advance)
  else stating fuel c

theorem statement_eq (fuel : Nat) (c : Cursor) :
    statement (fuel + 1) c =
      match c.declarationKind? with
      | some kind => declaration fuel kind c
      | none => if c.startsFunction then functioning fuel c else acting fuel c :=
  statement_succ fuel c

end Parser

theorem Cursor.Passes.progress {fuel : Nat} {c d : Cursor} {ts : List Token} {s : Stmt Place}
    (passes : Passes c d ts) (ready : c.Ready) (read : Parser.statement fuel c = .ok (s, d)) :
    c.rest.length = ts.length + d.rest.length ∧ 1 ≤ ts.length := by
  refine ⟨passes.length_eq, ?_⟩
  obtain ⟨us, filled, same, -⟩ := (statementsSound fuel).statement ready.ended read
  obtain ⟨rfl, -⟩ := passes.unique same ready.apart rfl
  exact List.length_pos_iff.2 filled

structure StatementLockstep (fuel : Nat) : Prop where
  statement {c : Cursor} (ready : c.Ready) (fits : 16 * c.rest.length + 8 ≤ fuel) :
    Tracks Stmt.blurred 8 c Parser.statement (Parser.statement fuel c)
  block {c : Cursor} (ready : c.Ready) (fits : 16 * c.rest.length + 1 ≤ fuel) :
    Tracks (Prod.map Place.blurred (List.map Stmt.blurred)) 1 c Parser.block (Parser.block fuel c)
  blockBody {c : Cursor} (ready : c.Ready) (fits : 16 * c.rest.length + 9 ≤ fuel) :
    Tracks (List.map Stmt.blurred) 9 c Parser.blockBody (Parser.blockBody fuel c)

namespace StatementLockstep

variable {fuel : Nat} {c : Cursor}

theorem leaving {start other : Nat} (ready : c.Ready) (fits : 16 * c.rest.length + 7 ≤ fuel) :
    Tracks Stmt.blurred 7 c (fun n => Parser.leaving n other) (Parser.leaving fuel start c) := by
  refine .ite (Cursor.isMark_congr · .semicolon) (fun semicolon => ?_) fun _ => ?_
  · exact .passed ready (by simp [Cursor.isMark_iff.1 semicolon]) fun _ _ => rfl
  refine .ite (Cursor.endsStatement_congr ·) (fun _ => .here fun _ _ => rfl) fun _ => ?_
  refine .bind ready ((lockstep fuel).expression ready fits) fun e d ts _ passes twin c' same => ?_
  refine .terminated (passes.ready ready) (fun _ _ => ?_) fun _ _ => ?_
  all_goals simp [Stmt.mapNote, same]

theorem stating (ready : c.Ready) (fits : 16 * c.rest.length + 7 ≤ fuel) :
    Tracks Stmt.blurred 7 c Parser.stating (Parser.stating fuel c) := by
  refine .bind ready ((lockstep fuel).expression ready fits) fun e d ts _ passes twin c' same => ?_
  refine .terminated (passes.ready ready) (fun _ _ => ?_) fun _ _ => ?_
  all_goals simp [Stmt.mapNote, same]

theorem branching (ih : StatementLockstep fuel) {start other : Nat} (ready : c.Ready)
    (fits : 16 * c.rest.length ≤ fuel) :
    Tracks Stmt.blurred 0 c (fun n => Parser.branching n other) (Parser.branching fuel start c) := by
  refine .ite (Cursor.isMark_congr · .openParen) (fun opening => ?_) fun _ => .stuck
  obtain ⟨live, -, behind, length⟩ := ready.next (by simp [Cursor.isMark_iff.1 opening])
  refine .bindPast ready live (((lockstep fuel).expression behind (by omega)).mono (by omega))
    fun test d ts _ passes twin c' same => ?_
  have there := passes.ready behind
  have shorter := passes.length_eq
  refine .ite (Cursor.isMark_congr · .closeParen) (fun closing => ?_) fun _ => .stuck
  obtain ⟨more, -, beyond, next⟩ := there.next (by simp [Cursor.isMark_iff.1 closing])
  refine .bindPast there more ((ih.statement beyond (by omega)).mono (by omega))
    fun consequent f us _ further first d' equal => ?_
  have far := further.ready beyond
  have less := further.length_eq
  refine .ite (Cursor.isWord_congr · "else") (fun word => ?_) fun _ => .here fun _ _ => ?_
  · obtain ⟨still, -, last, least⟩ := far.next (by simp [Cursor.isWord_iff.1 word])
    refine .bindPast far still ((ih.statement last (by omega)).mono (by omega))
      fun alternate g vs _ _ second f' alike => ?_
    exact .here fun _ _ => by simp [Stmt.mapNote, same, equal, alike]
  · simp [Stmt.mapNote, same, equal]

theorem functioning (ih : StatementLockstep fuel) (ready : c.Ready)
    (fits : 16 * c.rest.length + 7 ≤ fuel) :
    Tracks Stmt.blurred 7 c Parser.functioning (Parser.functioning fuel c) := by
  refine .bind ready ((tracks_functionHead ready (by omega)).mono (by omega))
    fun head d ts _ passes twin c' same => ?_
  have there := passes.ready ready
  have shorter := passes.length_eq
  refine .bind there ((ih.block there (by omega)).mono (by omega))
    fun body f us _ _ other d' equal => ?_
  obtain ⟨place, list⟩ := body
  obtain ⟨another, others⟩ := other
  simp only [Prod.map, Prod.mk.injEq] at equal
  exact .here fun _ _ => by simp [Stmt.mapNote, same, equal.1, equal.2]

theorem acting (ih : StatementLockstep fuel) (ready : c.Ready)
    (fits : 16 * c.rest.length + 7 ≤ fuel) :
    Tracks Stmt.blurred 7 c Parser.acting (Parser.acting fuel c) := by
  refine .ite (Cursor.isWord_congr · "return") (fun word => ?_) fun _ => ?_
  · obtain ⟨live, -, behind, length⟩ := ready.next (by simp [Cursor.isWord_iff.1 word])
    exact .past ready live fun _ => (leaving behind (by omega)).mono (by omega)
  refine .ite (Cursor.isWord_congr · "if") (fun word => ?_) fun _ => ?_
  · obtain ⟨live, -, behind, length⟩ := ready.next (by simp [Cursor.isWord_iff.1 word])
    exact .past ready live fun _ => (ih.branching behind (by omega)).mono (by omega)
  refine .ite (Cursor.isMark_congr · .openBrace) (fun _ => ?_) fun _ => ?_
  · refine .bind ready ((ih.block ready (by omega)).mono (by omega))
      fun body d ts _ _ other c' same => ?_
    simp only [Prod.map, Prod.mk.injEq] at same
    exact .here fun _ _ => by simp [Stmt.mapNote, same.1, same.2]
  refine .ite (Cursor.isMark_congr · .semicolon) (fun semicolon => ?_) fun _ => stating ready fits
  exact .passed ready (by simp [Cursor.isMark_iff.1 semicolon]) fun _ _ => rfl

def asyncSample (newline : Bool) (behind : List Token) : Cursor :=
  ⟨0, ⟨.word "async", 0, 0, newline⟩, behind ++ [⟨.finish, 0, 0, false⟩]⟩

theorem ended_asyncSample {newline : Bool} {behind : List Token}
    (live : ∀ t ∈ behind, t.kind ≠ .finish) : (asyncSample newline behind).Ended :=
  ⟨_ :: behind, _, rfl, rfl, List.forall_mem_cons.2 ⟨by simp [asyncSample], live⟩⟩

theorem functioning_asyncSample (newline : Bool) :
    Parser.functioning 60 (asyncSample newline [⟨.word "function", 0, 0, false⟩]) =
      .error ⟨.identifier, ⟨.finish, 0, 0, false⟩⟩ := rfl

theorem acting_asyncSample : ∀ newline : Bool,
    (Parser.acting 60 (asyncSample newline [])).toOption.map (fun r => r.2.rest.length) =
      some 0 := by
  decide +kernel

theorem statement_succ (ih : StatementLockstep fuel) (ready : c.Ready)
    (fits : 16 * c.rest.length + 8 ≤ fuel + 1) :
    Tracks Stmt.blurred 8 c Parser.statement (Parser.statement (fuel + 1) c) := by
  rw [Parser.statement_eq]
  refine .call Parser.statement_eq ?_
  refine .congr (fun n c' like => by rw [Cursor.declarationKind?_congr like]) ?_
  cases declares : c.declarationKind? with
  | some kind =>
    have live : c.current.kind ≠ .finish := by
      intro finish
      simp [Cursor.declarationKind?, finish] at declares
    exact (tracks_declaration ready live (by omega)).mono (by omega)
  | none =>
    cases async : c.isWord "async" with
    | false =>
      refine .ite (fun like => ?_) (fun _ => ih.functioning ready (by omega))
        fun _ => ih.acting ready (by omega)
      rw [Cursor.startsFunction_of_not_async async, Cursor.startsFunction_of_not_async,
        Cursor.isWord_congr like]
      rw [Cursor.isWord_congr like, async]
    | true =>
      have kind := Cursor.isWord_iff.1 async
      have agree : ∀ c' : Cursor, c'.Ended → c'.current.sign = c.current.sign →
          c'.advance.current.sign = c.advance.current.sign → c'.startsFunction = c.startsFunction := by
        intro c' ended like next
        rw [Cursor.startsFunction_of_async ready.ended async,
          Cursor.startsFunction_of_async ended (by rw [Cursor.isWord_congr like, async]),
          Cursor.isWord_congr next, Cursor.newlineBefore_congr next]
      have like : ∀ behind, (asyncSample c.current.newlineBefore behind).current.sign =
          c.current.sign := by
        intro behind
        rw [Token.sign, Token.sign, kind]
        rfl
      cases starts : c.startsFunction with
      | true =>
        refine .congrNext (ih.functioning ready (by omega))
          (asyncSample c.current.newlineBefore [⟨.word "function", 0, 0, false⟩]) 60 (like _)
          (ended_asyncSample (by simp)) (by simp [asyncSample]) ?_ ?_ ?_
        · simp [functioning_asyncSample]
        · intro expected same
          rw [functioning_asyncSample] at same
          cases same
        · intro n c' ended same next
          simp only [agree c' ended same next, starts, if_true]
      | false =>
        refine .congrNext (ih.acting ready (by omega)) (asyncSample c.current.newlineBefore []) 60
          (like _) (ended_asyncSample (by simp)) (by simp [asyncSample]) ?_ ?_ ?_
        · intro b same
          have left := acting_asyncSample c.current.newlineBefore
          rw [same] at left
          cases left
        · intro expected same
          have left := acting_asyncSample c.current.newlineBefore
          rw [same] at left
          cases left
        · intro n c' ended same next
          simp only [agree c' ended same next, starts, Bool.false_eq_true, if_false]

theorem block_succ (ih : StatementLockstep fuel) (ready : c.Ready)
    (fits : 16 * c.rest.length + 1 ≤ fuel + 1) :
    Tracks (Prod.map Place.blurred (List.map Stmt.blurred)) 1 c Parser.block
      (Parser.block (fuel + 1) c) := by
  rw [Parser.block_succ]
  refine .call Parser.block_succ ?_
  refine .ite (Cursor.isMark_congr · .openBrace) (fun opening => ?_) fun _ => .stuck
  obtain ⟨live, -, behind, length⟩ := ready.next (by simp [Cursor.isMark_iff.1 opening])
  refine .bindPast ready live ((ih.blockBody behind (by omega)).mono (by omega))
    fun list d ts _ passes twins c' all => ?_
  refine .ite (Cursor.isMark_congr · .closeBrace) (fun closing => ?_) fun _ => .stuck
  refine .passed (passes.ready behind) (by simp [Cursor.isMark_iff.1 closing]) fun _ _ => ?_
  simp [all]

theorem blockBody_succ (ih : StatementLockstep fuel) (ready : c.Ready)
    (fits : 16 * c.rest.length + 9 ≤ fuel + 1) :
    Tracks (List.map Stmt.blurred) 9 c Parser.blockBody (Parser.blockBody (fuel + 1) c) := by
  rw [Parser.blockBody_succ]
  refine .call Parser.blockBody_succ ?_
  refine .ite (Cursor.isMark_congr · .closeBrace) (fun _ => .here fun _ _ => rfl) fun _ => ?_
  refine .ite (Cursor.atEnd_congr ·) (fun _ => .stuck) fun _ => ?_
  refine .bind ready (ih.statement ready (by omega)) fun first d ts read passes twin c' same => ?_
  have there := passes.ready ready
  have shorter := passes.progress ready read
  refine .bind there ((ih.blockBody there (by omega)).mono (by omega))
    fun list f us _ _ twins d' all => ?_
  exact .here fun _ _ => by simp [same, all]

end StatementLockstep

theorem statementLockstep (fuel : Nat) : StatementLockstep fuel := by
  induction fuel with
  | zero => constructor <;> intros <;> omega
  | succ fuel ih => exact ⟨ih.statement_succ, ih.block_succ, ih.blockBody_succ⟩

theorem tracks_body (fuel : Nat) {c : Cursor} (ready : c.Ready)
    (fits : 16 * c.rest.length + 9 ≤ fuel) :
    Tracks (List.map Stmt.blurred) 9 c Parser.body (Parser.body fuel c) := by
  induction fuel generalizing c with
  | zero => omega
  | succ fuel ih =>
    rw [Parser.body_succ]
    refine .call Parser.body_succ ?_
    refine .ite (Cursor.atEnd_congr ·) (fun _ => .here fun _ _ => rfl) fun _ => ?_
    refine .bind ready ((statementLockstep fuel).statement ready (by omega))
      fun first d ts read passes twin c' same => ?_
    have there := passes.ready ready
    have shorter := passes.progress ready read
    refine .bind there ((ih there (by omega)).mono (by omega)) fun list f us _ _ twins d' all => ?_
    exact .here fun _ _ => by simp [same, all]

section Programs

theorem tokens_ofTokens {tokens : List Token} (filled : tokens ≠ []) :
    (Cursor.ofTokens tokens).tokens = tokens := by
  obtain ⟨t, rest, rfl⟩ := List.exists_cons_of_ne_nil filled
  rfl

theorem live_of_scan {text : List Char} {inner : List Token} {last : Token}
    (scanned : Token.scan text = .ok (inner ++ [last])) : ∀ t ∈ inner, t.kind ≠ .finish := by
  obtain ⟨others, final, shape, -, spelled⟩ := Token.spelled_of_scanFrom scanned
  obtain ⟨rfl, -⟩ := List.append_inj' shape rfl
  intro t member ends
  have own := spelled t member
  rw [ends] at own
  exact own

theorem ready_of_scan {text : List Char} {tokens : List Token}
    (scanned : Token.scan text = .ok tokens) :
    (Cursor.ofTokens tokens).Ready ∧ (Cursor.ofTokens tokens).tokens = tokens := by
  obtain ⟨inner, last, rfl, finish, -⟩ := Token.spelled_of_scanFrom scanned
  have live := live_of_scan scanned
  have laid := (Token.scanned_of_scan scanned).laid
  have apart : inner.Nodup := by
    refine laid.apart.imp_of_mem fun {a b} first _ behind same => ?_
    have solid := laid.solid a first
    rw [← same] at behind
    omega
  have tokens := tokens_ofTokens (show inner ++ [last] ≠ [] by simp)
  refine ⟨⟨⟨inner, last, tokens, finish, live⟩, ?_⟩, tokens⟩
  rw [tokens, List.nodup_append]
  refine ⟨apart, List.nodup_singleton last, fun t member u among same => ?_⟩
  rw [List.mem_singleton] at among
  exact live t member (by rw [same, among, finish])

theorem trails_of_tokens {c' : Cursor} {ts us rest : List Token} {next u : Token}
    (ended : c'.Ended) (tokens : c'.tokens = us ++ u :: rest)
    (same : us.map Token.sign = ts.map Token.sign) (sign : u.sign = next.sign) :
    ∃ d', Trails ts next c' d' ∧ d'.current = u :=
  ⟨⟨(us.getLast?.map Token.stop).getD c'.previousEnd, u, rest⟩,
    ⟨⟨us, ⟨tokens, rfl⟩, same⟩, sign, ended⟩, rfl⟩

theorem fuel_of_tokens {c : Cursor} {tokens : List Token} (here : c.tokens = tokens) :
    16 * c.rest.length + 9 ≤ 16 * (tokens.length + 1) := by
  subst here
  simp only [Cursor.tokens, List.length_cons]
  omega

variable {text other : List Char} {tokens others : List Token}

theorem accepted_again (scanned : Token.scan text = .ok tokens)
    (rescanned : Token.scan other = .ok others)
    (same : others.map Token.sign = tokens.map Token.sign) {body : List (Stmt Place)}
    (accepted : Parser.program tokens = .ok body) :
    ∃ list, Parser.program others = .ok list ∧
      list.map Stmt.blurred = body.map Stmt.blurred := by
  obtain ⟨ready, here⟩ := ready_of_scan scanned
  obtain ⟨ready', here'⟩ := ready_of_scan rescanned
  have tracks := tracks_body _ ready (fuel_of_tokens here)
  rw [Parser.program_run] at accepted ⊢
  obtain ⟨⟨list, d⟩, read, done⟩ := Parser.bind_eq_ok.1 accepted
  obtain rfl : list = body := by simpa using done
  rw [read] at tracks
  cases tracks with
  | @ok _ _ ts passes again =>
    rw [← here, passes.tokens, List.map_append] at same
    obtain ⟨us, vs, rfl, first, second⟩ := List.map_eq_append_iff.1 same
    obtain ⟨u, rest, rfl⟩ : ∃ u rest, vs = u :: rest := List.exists_cons_of_ne_nil (by
      rintro rfl
      simp [Cursor.tokens] at second)
    obtain ⟨d', trails, -⟩ := trails_of_tokens ready'.ended here' first (List.cons.inj second).1
    obtain ⟨list, read, blurred⟩ := again _ _ _ trails (fuel_of_tokens here')
    exact ⟨list, by rw [read, Parser.ok_bind], blurred⟩

theorem body_of_refused {surprise : Surprise} (refused : Parser.program tokens = .error surprise) :
    Parser.body (16 * (tokens.length + 1)) (Cursor.ofTokens tokens) = .error surprise := by
  rw [Parser.program_run] at refused
  cases run : Parser.body (16 * (tokens.length + 1)) (Cursor.ofTokens tokens) with
  | ok r => simp [run, Parser.ok_bind] at refused
  | error found => simpa [run, Parser.error_bind] using refused

/-- What is refused is refused at one of its tokens, and so is all that begins with the tokens up to
that one, in any layout. -/
theorem refused_again (scanned : Token.scan text = .ok tokens) {surprise : Surprise}
    (refused : Parser.program tokens = .error surprise) :
    ∃ front rest, tokens = front ++ surprise.found :: rest ∧
      ∀ {other : List Char} {before : List Token} {t : Token} {behind : List Token},
        Token.scan other = .ok (before ++ t :: behind) →
        before.map Token.sign = front.map Token.sign → t.sign = surprise.found.sign →
        Parser.program (before ++ t :: behind) = .error ⟨surprise.expected, t⟩ := by
  obtain ⟨ready, here⟩ := ready_of_scan scanned
  have tracks := tracks_body _ ready (fuel_of_tokens here)
  rw [body_of_refused refused] at tracks
  cases tracks with
  | @error _ d ts passes found again =>
    refine ⟨ts, d.rest, ?_, fun {other before t behind} rescanned same sign => ?_⟩
    · rw [← here, passes.tokens, found]
      rfl
    · obtain ⟨ready', here'⟩ := ready_of_scan rescanned
      rw [found] at sign
      obtain ⟨d', trails, rfl⟩ := trails_of_tokens ready'.ended here' same sign
      rw [Parser.program_run, again _ _ _ trails (fuel_of_tokens here')]
      rfl

end Programs

section Trees

open Value (mapNodesFields)

theorem Place.isSome_blurred (place : Place) :
    place.blurred.paren.isSome = place.paren.isSome := by
  rw [Place.blurred, Option.isSome_map]

variable {lines others : LineIndex} {body list : List (Stmt Place)}

theorem unplaced_encodeList (same : list.map Stmt.blurred = body.map Stmt.blurred) :
    (Value.list (Stmt.encodeList others list)).mapNodes Fields.unplaced =
      (Value.list (Stmt.encodeList lines body)).mapNodes Fields.unplaced := by
  have erased : ∀ (index : LineIndex) (statements : List (Stmt Place)),
      (Value.list (Stmt.encodeList index statements)).mapNodes Fields.unplaced =
        (Value.list (Stmt.encodeList lines (statements.map Stmt.blurred))).mapNodes
          Fields.unplaced := by
    intro index statements
    rw [Stmt.encodeList_eq_map, Stmt.encodeList_eq_map, List.map_map]
    exact unplaced_list fun s _ => (Stmt.unplaced_mapNote Place.isSome_blurred s).symm
  rw [erased, same, ← erased]

theorem unplaced_fileFields (same : list.map Stmt.blurred = body.map Stmt.blurred)
    (length size : Nat) :
    (Value.object (fileFields others length list)).unplaced =
      (Value.object (fileFields lines size body)).unplaced := by
  have program : (Value.object (programFields others length list)).unplaced =
      (Value.object (programFields lines size body)).unplaced := by
    have statements := @unplaced_encodeList lines others body list same
    rw [programFields, programFields, unplaced_nodeFields, unplaced_nodeFields]
    simp only [mapNodesFields, statements]
  rw [fileFields, fileFields, unplaced_nodeFields, unplaced_nodeFields]
  simp only [Value.unplaced] at program
  simp only [mapNodesFields, program]

end Trees

section Texts

variable {text : String} {tokens : List Token} (scanned : Token.scan text.toList = .ok tokens)

include scanned

theorem parseFile_of_accepted {body : List (Stmt Place)}
    (accepted : Parser.program tokens = .ok body) :
    parseFile text =
      .ok (fileFields (LineIndex.ofText text.toList) (Text.byteLength text.toList) body) := by
  have read : (Source.ofString text).statements = .ok body := by
    unfold Source.statements Source.tokens
    rw [show Token.scan (Source.ofString text).text = _ from scanned]
    simp only [accepted]
  rw [parseFile, read]
  rfl

theorem parseFile_of_refused {surprise : Surprise}
    (refused : Parser.program tokens = .error surprise) :
    parseFile text = .error (.unexpected surprise.expected surprise.found.kind
      ((LineIndex.ofText text.toList).position surprise.found.start)) := by
  have read : (Source.ofString text).statements = .error (.unexpected surprise.expected
      surprise.found.kind ((LineIndex.ofText text.toList).position surprise.found.start)) := by
    unfold Source.statements Source.tokens
    rw [show Token.scan (Source.ofString text).text = _ from scanned]
    simp only [refused]
    rfl
  rw [parseFile, read]
  rfl

end Texts

/-- Layout and comments do not matter. Two texts whose tokens are of the same kinds, with line breaks
before the same ones, are both accepted, with trees that are equal but for the places in them, or both
refused: for the same reason, at tokens of the same kind. -/
theorem parse_of_same_signs {text other : String} {tokens others : List Token}
    (scanned : Token.scan text.toList = .ok tokens)
    (rescanned : Token.scan other.toList = .ok others)
    (same : others.map Token.sign = tokens.map Token.sign) :
    (∃ tree twin, parseFile text = .ok tree ∧ parseFile other = .ok twin ∧
      (Value.object twin).unplaced = (Value.object tree).unplaced) ∨
    ∃ expected found position place, parseFile text = .error (.unexpected expected found position) ∧
      parseFile other = .error (.unexpected expected found place) := by
  cases run : Parser.program tokens with
  | ok body =>
    obtain ⟨list, again, blurred⟩ := accepted_again scanned rescanned same run
    exact .inl ⟨_, _, parseFile_of_accepted scanned run, parseFile_of_accepted rescanned again,
      unplaced_fileFields blurred _ _⟩
  | error surprise =>
    obtain ⟨front, rest, rfl, again⟩ := refused_again scanned run
    rw [List.map_append, List.map_cons] at same
    obtain ⟨before, more, rfl, first, second⟩ := List.map_eq_append_iff.1 same
    obtain ⟨t, behind, rfl, sign, -⟩ := List.map_eq_cons_iff.1 second
    have kind : t.kind = surprise.found.kind := congrArg Prod.fst sign
    have twin := parseFile_of_refused rescanned (again rescanned first sign)
    rw [kind] at twin
    exact .inr ⟨_, _, _, _, parseFile_of_refused scanned run, twin⟩

/-- A comment before a line feed, and one in place of a blank. -/
theorem parse_of_same_signs_comment :
    let text := "if (a) // why\nb(x)"
    let other := "if(a)\n\n  b ( /* c */ x )"
    ∃ tokens others, Token.scan text.toList = .ok tokens ∧ Token.scan other.toList = .ok others ∧
      others.map Token.sign = tokens.map Token.sign ∧
      ((∃ tree twin, parseFile text = .ok tree ∧ parseFile other = .ok twin ∧
        (Value.object twin).unplaced = (Value.object tree).unplaced) ∨
      ∃ expected found position place,
        parseFile text = .error (.unexpected expected found position) ∧
        parseFile other = .error (.unexpected expected found place)) := by
  intro text other
  have signs : (Token.scan other.toList).toOption.map (List.map Token.sign) =
      (Token.scan text.toList).toOption.map (List.map Token.sign) := by decide +kernel
  have accepted : (Token.scan text.toList).toOption.isSome = true ∧
      (Token.scan other.toList).toOption.isSome = true := by decide +kernel
  cases scanned : Token.scan text.toList with
  | error => simp [scanned, Except.toOption] at accepted
  | ok tokens =>
    cases rescanned : Token.scan other.toList with
    | error => simp [rescanned, Except.toOption] at accepted
    | ok others =>
      have same : others.map Token.sign = tokens.map Token.sign := by
        simpa [scanned, rescanned, Except.toOption] using signs
      exact ⟨tokens, others, rfl, rfl, same, parse_of_same_signs scanned rescanned same⟩

end Arborist.Script

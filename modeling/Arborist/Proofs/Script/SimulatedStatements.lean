import Mathlib
import Arborist.Proofs.Script.Simulated
import Arborist.Proofs.Script.StatementLockstep

/-!
An index and a cursor, for statements. A declaration passes its first token before it looks at what
that was, so at the end of the text nothing is passed. Wherever a machine for statements begins, it
answers as the parser does.
-/

namespace Arborist.Script

open Cursor (Passes Advances)

variable {tokens ts : List Token} {fuel depth i : Nat} {c d f : Cursor}

namespace Cursor

theorem Advances.behind (passes : Passes c d ts) (advances : Advances d f) : Advances c f := by
  obtain ⟨us, filled, further⟩ := advances
  exact ⟨_, by simp [filled], passes.trans further⟩

theorem Ended.advance (ended : c.Ended) : c.advance.Ended ∧ ∃ ts, Passes c c.advance ts := by
  cases ahead : c.rest with
  | nil =>
    have stays : c.advance = c := by simp [Cursor.advance, ahead]
    exact stays.symm ▸ ⟨ended, [], .refl c⟩
  | cons next rest =>
    have one : Passes c c.advance [c.current] := by
      constructor <;> simp [Cursor.tokens, Cursor.advance, ahead]
    exact ⟨one.ended ended, _, one⟩

end Cursor

theorem DeclaresAll.ne_nil {list : List (Declarator Place)} {next : Token}
    (declares : DeclaresAll list ts next) : ts ≠ [] := by
  cases declares with
  | last one => exact one.ne_nil
  | more => simp

theorem advances_declaration {kind : DeclarationKind} {s : Stmt Place} (ended : c.Ended)
    (h : Parser.declaration fuel kind c = .ok (s, d)) : Advances c d := by
  rw [Parser.declaration_run] at h
  obtain ⟨-, h⟩ := Parser.ite_error_eq_ok.mp h
  obtain ⟨⟨list, b⟩, read, h⟩ := Parser.bind_eq_ok.mp h
  obtain ⟨there, front, skipped⟩ := ended.advance
  obtain ⟨ts, passes, declares⟩ := declarators_sound fuel there read
  obtain ⟨us, further, -, -⟩ := terminated_of_semicolon
    (fun f => Stmt.declaration (f.place c.current.start) kind list) (passes.ended there) h
  exact .behind skipped ⟨_, by simp [declares.ne_nil], passes.trans further⟩

theorem advances_named {isAsync isGenerator : Bool} {head : FunctionHead Place} (ended : c.Ended)
    (h : Parser.named isAsync isGenerator fuel c = .ok (head, d)) : Advances c d := by
  obtain ⟨⟨name, b⟩, read, h⟩ := Parser.bind_eq_ok.mp h
  have first := advances_identifier ended read
  obtain ⟨ts, -, passes⟩ := first
  have here := passes.ended ended
  obtain ⟨opening, h⟩ := Parser.ite_error_eq_ok.mp h
  have opened : b.current.kind = .mark .openParen := Cursor.isMark_iff.mp opening
  have two := here.passes_advance (by simp [opened])
  obtain ⟨⟨list, g⟩, more, h⟩ := Parser.bind_eq_ok.mp h
  obtain ⟨us, inside, -⟩ := parameters_sound fuel (two.ended here) more
  obtain ⟨closing, h⟩ := Parser.ite_error_eq_ok.mp h
  have closed : g.current.kind = .mark .closeParen := Cursor.isMark_iff.mp closing
  have three := (inside.ended (two.ended here)).passes_advance (by simp [closed])
  obtain ⟨-, rfl⟩ := Parser.ok_eq_ok.mp h
  exact .behind passes ⟨_, by simp, two.trans (inside.trans three)⟩

theorem advances_starred {isAsync : Bool} {head : FunctionHead Place} (ended : c.Ended)
    (h : Parser.starred isAsync fuel c = .ok (head, d)) : Advances c d := by
  rw [Parser.starred] at h
  split at h
  · obtain ⟨there, front, skipped⟩ := ended.advance
    exact .behind skipped (advances_named there h)
  · exact advances_named ended h

theorem advances_headed {isAsync : Bool} {head : FunctionHead Place} (ended : c.Ended)
    (h : Parser.headed isAsync fuel c = .ok (head, d)) : Advances c d := by
  obtain ⟨-, h⟩ := Parser.ite_error_eq_ok.mp h
  obtain ⟨there, front, skipped⟩ := ended.advance
  exact .behind skipped (advances_starred there h)

theorem advances_functionHead {head : FunctionHead Place} (ended : c.Ended)
    (h : Parser.functionHead fuel c = .ok (head, d)) : Advances c d := by
  rw [Parser.functionHead_eq] at h
  split at h
  · obtain ⟨there, front, skipped⟩ := ended.advance
    exact .behind skipped (advances_headed there h)
  · exact advances_headed ended h

theorem advances_block {block : Place × List (Stmt Place)} (ended : c.Ended)
    (h : Parser.block fuel c = .ok (block, d)) : Advances c d := by
  obtain ⟨ts, filled, passes, -⟩ := (statementsSound fuel).block ended h
  exact ⟨ts, filled, passes⟩

theorem advances_statement {s : Stmt Place} (ended : c.Ended)
    (h : Parser.statement fuel c = .ok (s, d)) : Advances c d := by
  obtain ⟨ts, filled, passes, -⟩ := (statementsSound fuel).statement ended h
  exact ⟨ts, filled, passes⟩

theorem advances_functioning {s : Stmt Place} (ended : c.Ended)
    (h : Parser.functioning fuel c = .ok (s, d)) : Advances c d := by
  obtain ⟨⟨head, b⟩, readHead, h⟩ := Parser.bind_eq_ok.mp h
  obtain ⟨⟨body, g⟩, readBody, h⟩ := Parser.bind_eq_ok.mp h
  obtain ⟨-, rfl⟩ := Parser.ok_eq_ok.mp h
  obtain ⟨ts, -, passes⟩ := advances_functionHead ended readHead
  exact .behind passes (advances_block (passes.ended ended) readBody)

theorem Points.startsFunction_run (stands : Points tokens i c) :
    Machine.startsFunction tokens i = .ok (c.startsFunction, i) := by
  rw [Machine.startsFunction, Machine.bind_ok stands.sight_run, Cursor.alone_isWord,
    Cursor.alone_isWord, Cursor.startsFunction]
  cases c.isWord "function" with
  | true => rfl
  | false =>
    cases async : c.isWord "async" with
    | false => rfl
    | true =>
      simp only [Bool.false_eq_true, if_false, if_true]
      rw [Machine.bind_ok stands.peekNext_run]
      cases c.rest with
      | cons => rfl
      | nil =>
        have kind := Cursor.isWord_iff.1 async
        simp [kind]
        rfl

theorem matches_initial (stands : Points tokens i c) (deep : 16 * c.rest.length ≤ depth)
    (fits : 16 * c.rest.length ≤ fuel) :
    Matches (Arrives tokens) (Machine.initial tokens depth i) (Parser.initial fuel c) := by
  refine .eatMark stands (fun j there shorter => ?_) (.done stands)
  exact .bind ((simulates tokens depth).assignment there (by omega) (by omega))
    fun value k d _ beyond => .done beyond

theorem passes_initial {value : Option (Expr Place)} (ended : c.Ended)
    (h : Parser.initial fuel c = .ok (value, d)) : d.rest.length ≤ c.rest.length := by
  rw [Parser.initial] at h
  split at h
  · rename_i mark
    obtain ⟨⟨e, b⟩, read, h⟩ := Parser.bind_eq_ok.mp h
    obtain ⟨-, rfl : b = d⟩ := Parser.ok_eq_ok.mp h
    have one := ended.passes_advance (by simp [Cursor.isMark_iff.mp mark])
    have shorter := (advances_of_took ((sound fuel).assignment (one.ended ended) read)).shorter
    have := one.length_eq
    omega
  · obtain ⟨-, rfl⟩ := Parser.ok_eq_ok.mp h
    exact Nat.le_refl _

theorem matches_declarators (stands : Points tokens i c) (deep : 16 * c.rest.length ≤ depth)
    (fits : 16 * c.rest.length + 1 ≤ fuel) :
    Matches (Arrives tokens) (Machine.declarators tokens depth i) (Parser.declarators fuel c) := by
  rw [← behind_nil (Parser.declarators fuel c), Machine.declarators]
  refine matches_loop (fun fuel list d => behind list (Parser.declarators fuel d)) 0
    (fun {fuel list i c} stands within fits => ?_) stands (Nat.le_refl _) fits stands.rounds
  rw [Parser.declarators_succ, behind_bind]
  refine .peek stands (.bind (matches_identifier stands) fun target j d read there => ?_)
  have shorter := (advances_identifier stands.ended read).shorter
  rw [behind_bind]
  dsimp only
  refine .bind (matches_initial there (by omega) (by omega)) fun value k f initial beyond => ?_
  have less := passes_initial there.ended initial
  rw [behind_ite]
  refine .placeFrom beyond (.eatMark beyond (fun l last least => ?_) ?_)
  · rw [behind_cons]
    exact .turn last (by omega) rfl
  · exact .leave beyond

theorem matches_declaration {kind : DeclarationKind} (stands : Points tokens i c)
    (deep : 16 * c.rest.length ≤ depth) (fits : 16 * c.rest.length + 1 ≤ fuel) :
    Matches (Arrives tokens) (Machine.declaration tokens depth kind i)
      (Parser.declaration fuel kind c) := by
  rw [Parser.declaration_run, Machine.declaration]
  refine .sight stands (.skip stands fun j ts there passes => ?_)
  have := passes.length_eq
  refine .ite (fun _ => ?_) fun _ => .stuck there .declarationWord
  refine .bind (matches_declarators there (by omega) (by omega)) fun list k d _ beyond => ?_
  exact .semicolon beyond (fun l last => .placeFrom last (.done last))
    (.placeFrom beyond (.done beyond))

theorem matches_parameters (stands : Points tokens i c) (fits : 16 * c.rest.length + 1 ≤ fuel) :
    Matches (Arrives tokens) (Machine.separated tokens .closeParen (Machine.identifier tokens) i)
      (Parser.parameters fuel c) :=
  matches_separated (fun _ => Parser.identifier) Parser.parameters 0
    Parser.parameters_succ (fun there _ _ => matches_identifier there) advances_identifier stands
    (Nat.le_refl _) fits

theorem matches_named {isAsync isGenerator : Bool} (stands : Points tokens i c)
    (fits : 16 * c.rest.length + 1 ≤ fuel) :
    Matches (Arrives tokens) ((do
        let name ← Machine.identifier tokens
        Machine.expectMark tokens .openParen
        let list ← Machine.separated tokens .closeParen (Machine.identifier tokens)
        Machine.expectMark tokens .closeParen
        return (⟨isAsync, isGenerator, name, list⟩ : FunctionHead Place)) i)
      (Parser.named isAsync isGenerator fuel c) := by
  refine .bind (matches_identifier stands) fun name j d read there => ?_
  have shorter := (advances_identifier stands.ended read).shorter
  dsimp only
  refine .expectMark there fun k beyond less => ?_
  refine .bind (matches_parameters beyond (by omega)) fun list l f _ last => ?_
  exact .expectMark last fun m final _ => .done final

theorem matches_starred {isAsync : Bool} (stands : Points tokens i c)
    (fits : 16 * c.rest.length + 1 ≤ fuel) :
    Matches (Arrives tokens) ((do
        let isGenerator ← Machine.eatMark tokens .times
        let name ← Machine.identifier tokens
        Machine.expectMark tokens .openParen
        let list ← Machine.separated tokens .closeParen (Machine.identifier tokens)
        Machine.expectMark tokens .closeParen
        return (⟨isAsync, isGenerator, name, list⟩ : FunctionHead Place)) i)
      (Parser.starred isAsync fuel c) :=
  .eatMark stands (fun _ there shorter => matches_named there (by omega))
    (matches_named stands fits)

theorem matches_headed {isAsync : Bool} (stands : Points tokens i c)
    (fits : 16 * c.rest.length + 1 ≤ fuel) :
    Matches (Arrives tokens) ((do
        if ← Machine.eatWord tokens "function" then
          let isGenerator ← Machine.eatMark tokens .times
          let name ← Machine.identifier tokens
          Machine.expectMark tokens .openParen
          let list ← Machine.separated tokens .closeParen (Machine.identifier tokens)
          Machine.expectMark tokens .closeParen
          return (⟨isAsync, isGenerator, name, list⟩ : FunctionHead Place)
        else Machine.fail tokens .functionWord) i)
      (Parser.headed isAsync fuel c) :=
  .eatWord stands (fun _ there shorter => matches_starred there (by omega))
    (.stuck stands .functionWord)

theorem matches_functionHead (stands : Points tokens i c) (fits : 16 * c.rest.length + 1 ≤ fuel) :
    Matches (Arrives tokens) (Machine.functionHead tokens i) (Parser.functionHead fuel c) := by
  rw [Parser.functionHead_eq, Machine.functionHead]
  exact .eatWord stands (fun _ there shorter => matches_headed there (by omega))
    (matches_headed stands fits)

structure StatementSimulates (tokens : List Token) (depth : Nat) : Prop where
  statement {fuel i : Nat} {c : Cursor} (stands : Points tokens i c)
    (deep : 16 * c.rest.length + 8 ≤ depth) (fits : 16 * c.rest.length + 8 ≤ fuel) :
    Matches (Arrives tokens) (Machine.statement tokens depth i) (Parser.statement fuel c)
  function {fuel i : Nat} {c : Cursor} (stands : Points tokens i c)
    (deep : 16 * c.rest.length + 2 ≤ depth) (fits : 16 * c.rest.length + 1 ≤ fuel) :
    Matches (Arrives tokens) (Machine.function tokens depth i) (Parser.functioning fuel c)
  block {fuel i : Nat} {c : Cursor} (stands : Points tokens i c)
    (deep : 16 * c.rest.length + 1 ≤ depth) (fits : 16 * c.rest.length + 1 ≤ fuel) :
    Matches (Arrives tokens) (Machine.block tokens depth i) (Parser.block fuel c)

namespace StatementSimulates

theorem function_succ (ih : StatementSimulates tokens depth) (stands : Points tokens i c)
    (deep : 16 * c.rest.length + 2 ≤ depth + 1) (fits : 16 * c.rest.length + 1 ≤ fuel) :
    Matches (Arrives tokens) (Machine.function tokens (depth + 1) i)
      (Parser.functioning fuel c) := by
  rw [Parser.functioning, Machine.function]
  refine .peek stands (.bind (matches_functionHead stands fits) fun head j d read there => ?_)
  have shorter := (advances_functionHead stands.ended read).shorter
  dsimp only
  exact .bind (ih.block there (by omega) (by omega)) fun body k f _ beyond =>
    .placeFrom beyond (.done beyond)

theorem leaving {start : Nat} (stands : Points tokens i c)
    (deep : 16 * c.rest.length + 7 ≤ depth) (fits : 16 * c.rest.length + 7 ≤ fuel) :
    Matches (Arrives tokens) ((do
        let after ← Machine.sight tokens
        if after.isMark .semicolon || after.endsStatement then
          Machine.semicolon tokens
          return Stmt.ret (← Machine.placeFrom tokens start) none
        else
          let argument ← Machine.expression tokens depth
          Machine.semicolon tokens
          return Stmt.ret (← Machine.placeFrom tokens start) (some argument)) i)
      (Parser.leaving fuel start c) := by
  have bare : Matches (Arrives tokens) ((do
        Machine.semicolon tokens
        return Stmt.ret (← Machine.placeFrom tokens start) none) i)
      (if c.isMark .semicolon then .ok (.ret (c.advance.place start) none, c.advance)
        else if c.endsStatement then .ok (.ret (c.place start) none, c)
        else .error ⟨.mark .semicolon, c.current⟩) :=
    .semicolon stands (fun j there => .placeFrom there (.done there))
      (.placeFrom stands (.done stands))
  refine .sight stands ?_
  rw [Parser.leaving, Cursor.alone_isMark, Cursor.alone_endsStatement]
  cases semicolon : c.isMark .semicolon with
  | true => simpa only [semicolon, Bool.true_or, if_true] using bare
  | false =>
  cases ends : c.endsStatement with
  | true =>
    simpa only [semicolon, ends, Bool.or_true, Bool.false_eq_true, if_true, if_false] using bare
  | false =>
    simp only [Bool.or_self, Bool.false_eq_true, if_false]
    refine .bind ((simulates tokens depth).expression stands deep fits)
      fun argument j d _ there => ?_
    exact .semicolon there (fun k beyond => .placeFrom beyond (.done beyond))
      (.placeFrom there (.done there))

theorem branching (ih : StatementSimulates tokens depth) {start : Nat} (stands : Points tokens i c)
    (deep : 16 * c.rest.length ≤ depth) (fits : 16 * c.rest.length ≤ fuel) :
    Matches (Arrives tokens) ((do
        Machine.expectMark tokens .openParen
        let test ← Machine.expression tokens depth
        Machine.expectMark tokens .closeParen
        let consequent ← Machine.statement tokens depth
        if ← Machine.eatWord tokens "else" then
          let alternate ← Machine.statement tokens depth
          return Stmt.branch (← Machine.placeFrom tokens start) test consequent (some alternate)
        else return Stmt.branch (← Machine.placeFrom tokens start) test consequent none) i)
      (Parser.branching fuel start c) := by
  refine .expectMark stands fun j there shorter => ?_
  refine .bind ((simulates tokens depth).expression there (by omega) (by omega))
    fun test k d read beyond => ?_
  have less := (advances_of_took ((sound fuel).expression there.ended read)).shorter
  dsimp only
  refine .expectMark beyond fun l last least => ?_
  refine .bind (ih.statement last (by omega) (by omega)) fun consequent m f read' after => ?_
  have fewer := (advances_statement last.ended read').shorter
  dsimp only
  refine .eatWord after (fun n further fewest => ?_) (.placeFrom after (.done after))
  exact .bind (ih.statement further (by omega) (by omega)) fun alternate o g _ final =>
    .placeFrom final (.done final)

theorem statement_succ (ih : StatementSimulates tokens depth) (stands : Points tokens i c)
    (deep : 16 * c.rest.length + 8 ≤ depth + 1) (fits : 16 * c.rest.length + 8 ≤ fuel + 1) :
    Matches (Arrives tokens) (Machine.statement tokens (depth + 1) i)
      (Parser.statement (fuel + 1) c) := by
  rw [Parser.statement_eq, Machine.statement]
  refine .sight stands ?_
  simp only [Cursor.alone_declarationKind?, Cursor.alone_current, Cursor.alone_isMark]
  cases c.declarationKind? with
  | some kind => exact matches_declaration stands (by omega) (by omega)
  | none =>
    dsimp only
    rw [Machine.bind_ok stands.startsFunction_run]
    refine .ite (fun _ => ih.function stands (by omega) (by omega)) fun _ => ?_
    refine .eatWord stands (fun j there shorter => leaving there (by omega) (by omega)) ?_
    refine .eatWord stands (fun j there shorter => ih.branching there (by omega) (by omega)) ?_
    simp only [Bool.false_eq_true, if_false]
    refine .ite (fun _ => ?_) fun _ => ?_
    · exact .bind (ih.block stands (by omega) (by omega)) fun body j d _ there => .done there
    refine .eatMark stands (fun j there _ => .placeFrom there (.done there)) ?_
    refine .bind ((simulates tokens depth).expression stands (by omega) (by omega))
      fun body j d _ there => ?_
    exact .semicolon there (fun k beyond => .placeFrom beyond (.done beyond))
      (.placeFrom there (.done there))

theorem statements (ih : StatementSimulates tokens depth) (stands : Points tokens i c)
    (deep : 16 * c.rest.length + 8 ≤ depth) (fits : 16 * c.rest.length + 9 ≤ fuel) :
    Matches (Arrives tokens) (Machine.loop (fun list => do
        let here ← Machine.sight tokens
        if here.isMark .closeBrace then return .inr list
        else if here.atEnd then Machine.fail tokens (.mark .closeBrace)
        else
          let next ← Machine.statement tokens depth
          return .inl (list ++ [next])) tokens.length [] i)
      (Parser.blockBody fuel c) := by
  rw [← behind_nil (Parser.blockBody fuel c)]
  refine matches_loop (fun fuel list d => behind list (Parser.blockBody fuel d)) 8
    (fun {fuel list i d} stands within fits => ?_) stands (Nat.le_refl _) fits stands.rounds
  rw [Parser.blockBody_succ, behind_ite, behind_ite]
  refine .sight stands (.ite (fun _ => ?_) fun _ => .ite (fun _ => .stuck stands _) fun _ => ?_)
  · rw [behind_done]
    exact .leave stands
  · rw [behind_bind]
    refine .bind (ih.statement stands (by omega) (by omega)) fun next j f read there => ?_
    rw [behind_cons]
    exact .turn there (advances_statement stands.ended read).shorter rfl

theorem block_succ (ih : StatementSimulates tokens depth) (stands : Points tokens i c)
    (deep : 16 * c.rest.length + 1 ≤ depth + 1) (fits : 16 * c.rest.length + 1 ≤ fuel + 1) :
    Matches (Arrives tokens) (Machine.block tokens (depth + 1) i) (Parser.block (fuel + 1) c) := by
  rw [Parser.block_succ, Machine.block]
  refine .peek stands (.expectMark stands fun j there shorter => ?_)
  refine .bind (ih.statements there (by omega) (by omega)) fun body k d _ beyond => ?_
  exact .expectMark beyond fun l last _ => .placeFrom last (.done last)

end StatementSimulates

/-- With sixteen levels for a token that is left, machines for statements do what parsers do. -/
theorem statementSimulates (tokens : List Token) (depth : Nat) :
    StatementSimulates tokens depth := by
  induction depth with
  | zero => constructor <;> intros <;> omega
  | succ depth ih =>
    refine ⟨?_, ih.function_succ, ?_⟩ <;> intro fuel <;> cases fuel
    case refine_1.succ => exact ih.statement_succ
    case refine_2.succ => exact ih.block_succ
    all_goals
      intros
      omega

theorem matches_program (stands : Points tokens i c) (deep : 16 * c.rest.length + 8 ≤ depth)
    (fits : 16 * c.rest.length + 9 ≤ fuel) :
    Matches (Arrives tokens) (Machine.program tokens depth i) (Parser.body fuel c) := by
  rw [← behind_nil (Parser.body fuel c), Machine.program]
  refine matches_loop (fun fuel list d => behind list (Parser.body fuel d)) 8
    (fun {fuel list i d} stands within fits => ?_) stands (Nat.le_refl _) fits stands.rounds
  rw [Parser.body_succ, behind_ite]
  refine .sight stands (.ite (fun _ => ?_) fun _ => ?_)
  · rw [behind_done]
    exact .leave stands
  · rw [behind_bind]
    refine .bind ((statementSimulates tokens depth).statement stands (by omega) (by omega))
      fun next j f read there => ?_
    rw [behind_cons]
    exact .turn there (advances_statement stands.ended read).shorter rfl

end Arborist.Script

import Mathlib
import Arborist.Proofs.Script.Matched

/-!
Machines for expressions answer as the parsers do, wherever they begin, if their depth is enough for
the tokens that are left: they never look for a token that is not there, and their loops end before
their rounds do.
-/

namespace Arborist.Script

open Cursor (Passes Advances)

variable {tokens : List Token} {fuel depth i : Nat} {c d : Cursor} {e : Expr Place}

theorem advances_of_took {least : Level} (took : Took c d least e) : Advances c d := by
  obtain ⟨ts, passes, derives, -⟩ := took
  exact ⟨ts, derives.ne_nil, passes⟩

theorem advances_identifier (ended : c.Ended) (h : Parser.identifier c = .ok (e, d)) :
    Advances c d := by
  obtain ⟨t, passes, -⟩ := named_of_identifier ended h
  exact ⟨[t], by simp, passes⟩

theorem passes_binaryFrom {start least : Nat} {left : Expr Place} (ended : c.Ended)
    (h : Parser.binaryFrom fuel start least left c = .ok (e, d)) : ∃ ts, Passes c d ts := by
  induction fuel generalizing c left with
  | zero => simp [Parser.binaryFrom, Parser.fail] at h
  | succ fuel ih =>
    rw [Parser.binaryFrom_succ] at h
    cases found : c.binaryOperator? with
    | none =>
      simp only [found, Except.ok.injEq, Prod.mk.injEq] at h
      exact ⟨[], h.2 ▸ .refl c⟩
    | some operator =>
      obtain ⟨notComma, mark⟩ := Cursor.binaryOperator?_eq_some.mp found
      simp only [found] at h
      split at h
      · simp only [Except.ok.injEq, Prod.mk.injEq] at h
        exact ⟨[], h.2 ▸ .refl c⟩
      · obtain ⟨⟨right, b⟩, read, h⟩ := Parser.bind_eq_ok.mp h
        have one := ended.passes_advance (by simp [mark, operator.kind_ne_finish])
        obtain ⟨atLeast, atMost⟩ := rightLeast_bounds notComma
        obtain ⟨us, further, -⟩ := (sound fuel).binary (one.ended ended) atLeast atMost read
        obtain ⟨vs, last⟩ := ih (further.ended (one.ended ended)) h
        exact ⟨_, one.trans (further.trans last)⟩

theorem matches_identifier (stands : Points tokens i c) :
    Matches (Arrives tokens) (Machine.identifier tokens i) (Parser.identifier c) := by
  rw [Parser.identifier_run, Machine.identifier]
  refine .peek stands ?_
  cases kind : c.current.kind with
  | word name =>
    refine .ite (fun _ => .stuck stands _) fun _ => ?_
    exact .pass stands (by simp [kind]) fun j there _ => .placeFrom there (.done there)
  | _ => exact .stuck stands _

theorem advances_binary {least : Nat} (ended : c.Ended)
    (h : Parser.binary fuel least c = .ok (e, d)) : Advances c d := by
  cases fuel with
  | zero => simp [Parser.binary, Parser.fail] at h
  | succ fuel =>
    rw [Parser.binary_succ, Parser.bind_eq_ok] at h
    obtain ⟨⟨left, b⟩, read, h⟩ := h
    obtain ⟨ts, passes, derives, -⟩ := (sound fuel).unary ended read
    obtain ⟨us, further⟩ := passes_binaryFrom (passes.ended ended) h
    exact ⟨_, by simp [derives.ne_nil], passes.trans further⟩

theorem advances_primary (ended : c.Ended) (h : Parser.primary fuel c = .ok (e, d)) :
    Advances c d := by
  obtain ⟨ts, passes, derives⟩ := (sound fuel).primary ended h
  exact ⟨ts, derives.ne_nil, passes⟩

/-- What machines for expressions do with some depth, beside parsers with enough fuel. -/
structure Simulates (tokens : List Token) (depth : Nat) : Prop where
  expression {fuel i : Nat} {c : Cursor} (stands : Points tokens i c)
    (deep : 16 * c.rest.length + 7 ≤ depth) (fits : 16 * c.rest.length + 7 ≤ fuel) :
    Matches (Arrives tokens) (Machine.expression tokens depth i) (Parser.expression fuel c)
  assignment {fuel i : Nat} {c : Cursor} (stands : Points tokens i c)
    (deep : 16 * c.rest.length + 6 ≤ depth) (fits : 16 * c.rest.length + 6 ≤ fuel) :
    Matches (Arrives tokens) (Machine.assignment tokens depth i) (Parser.assignment fuel c)
  conditional {fuel i : Nat} {c : Cursor} (stands : Points tokens i c)
    (deep : 16 * c.rest.length + 5 ≤ depth) (fits : 16 * c.rest.length + 5 ≤ fuel) :
    Matches (Arrives tokens) (Machine.conditional tokens depth i) (Parser.conditional fuel c)
  binary {fuel i least : Nat} {c : Cursor} (stands : Points tokens i c)
    (deep : 16 * c.rest.length + 4 ≤ depth) (fits : 16 * c.rest.length + 4 ≤ fuel) :
    Matches (Arrives tokens) (Machine.binary tokens depth least i) (Parser.binary fuel least c)
  unary {fuel i : Nat} {c : Cursor} (stands : Points tokens i c)
    (deep : 16 * c.rest.length + 3 ≤ depth) (fits : 16 * c.rest.length + 3 ≤ fuel) :
    Matches (Arrives tokens) (Machine.unary tokens depth i) (Parser.unary fuel c)
  chain {fuel i : Nat} {c : Cursor} (stands : Points tokens i c)
    (deep : 16 * c.rest.length + 2 ≤ depth) (fits : 16 * c.rest.length + 2 ≤ fuel) :
    Matches (Arrives tokens) (Machine.chain tokens depth i) (Parser.chain fuel c)
  primary {fuel i : Nat} {c : Cursor} (stands : Points tokens i c)
    (deep : 16 * c.rest.length + 1 ≤ depth) (fits : 16 * c.rest.length + 1 ≤ fuel) :
    Matches (Arrives tokens) (Machine.primary tokens depth i) (Parser.primary fuel c)

namespace Simulates

theorem parts (ih : Simulates tokens depth) {first : Expr Place} (stands : Points tokens i c)
    (deep : 16 * c.rest.length ≤ depth) (fits : 16 * c.rest.length + 1 ≤ fuel) :
    Matches (Arrives tokens) (Machine.loop (fun list => do
        if ← Machine.eatMark tokens .comma then
          let part ← Machine.assignment tokens depth
          return .inl (list ++ [part])
        else return .inr list) tokens.length [first] i)
      (behind [first] (Parser.commaParts fuel c)) := by
  refine matches_loop (fun fuel list d => behind list (Parser.commaParts fuel d)) 0
    (fun {fuel list i d} stands within fits => ?_) stands (Nat.le_refl _) fits stands.rounds
  rw [Parser.commaParts_succ, behind_ite]
  refine .eatMark stands (fun j there shorter => ?_) ?_
  · rw [behind_bind]
    refine .bind (ih.assignment there (by omega) (by omega)) fun part k f read beyond => ?_
    have less := (advances_of_took ((sound fuel).assignment there.ended read)).shorter
    rw [behind_cons]
    exact .turn beyond (less.trans shorter) rfl
  · rw [behind_done]
    exact .leave stands

theorem expression_succ (ih : Simulates tokens depth) (stands : Points tokens i c)
    (deep : 16 * c.rest.length + 7 ≤ depth + 1) (fits : 16 * c.rest.length + 7 ≤ fuel + 1) :
    Matches (Arrives tokens) (Machine.expression tokens (depth + 1) i)
      (Parser.expression (fuel + 1) c) := by
  rw [Parser.expression_succ, Machine.expression]
  refine .peek stands (.bind (ih.assignment stands (by omega) (by omega))
    fun first j d read there => ?_)
  have shorter := (advances_of_took ((sound fuel).assignment stands.ended read)).shorter
  refine .sight there (.ite (fun _ => ?_) fun _ => .done there)
  have joined : (Parser.commaParts fuel d >>= fun s =>
        .ok (Expr.sequence (s.2.place c.current.start) (first :: s.1), s.2)) =
      behind [first] (Parser.commaParts fuel d) >>= fun r =>
        .ok (Expr.sequence (r.2.place c.current.start) r.1, r.2) := by
    rw [behind, bind_assoc]
    rfl
  dsimp only
  rw [joined]
  exact .bind (ih.parts there (by omega) (by omega)) fun list k f _ beyond =>
    .placeFrom beyond (.done beyond)

theorem assignment_succ (ih : Simulates tokens depth) (stands : Points tokens i c)
    (deep : 16 * c.rest.length + 6 ≤ depth + 1) (fits : 16 * c.rest.length + 6 ≤ fuel + 1) :
    Matches (Arrives tokens) (Machine.assignment tokens (depth + 1) i)
      (Parser.assignment (fuel + 1) c) := by
  rw [Parser.assignment_succ, Machine.assignment]
  refine .peek stands (.bind (ih.conditional stands (by omega) (by omega))
    fun target j d read there => ?_)
  have shorter := (advances_of_took ((sound fuel).conditional stands.ended read)).shorter
  dsimp only
  refine .sight there ?_
  rw [Cursor.alone_assignmentOperator?]
  cases found : d.assignmentOperator? with
  | none => exact .done there
  | some operator =>
    have mark := Cursor.assignmentOperator?_eq_some.mp found
    refine .ite (fun _ => ?_) fun _ => .stuck there _
    refine .pass there (by simp [mark, operator.kind_ne_finish]) fun k beyond less => ?_
    exact .bind (ih.assignment beyond (by omega) (by omega)) fun value l f _ last =>
      .placeFrom last (.done last)

theorem conditional_succ (ih : Simulates tokens depth) (stands : Points tokens i c)
    (deep : 16 * c.rest.length + 5 ≤ depth + 1) (fits : 16 * c.rest.length + 5 ≤ fuel + 1) :
    Matches (Arrives tokens) (Machine.conditional tokens (depth + 1) i)
      (Parser.conditional (fuel + 1) c) := by
  rw [Parser.conditional_succ, Machine.conditional]
  refine .peek stands (.bind (ih.binary stands (by omega) (by omega))
    fun test j d read there => ?_)
  have shorter := (advances_binary stands.ended read).shorter
  dsimp only
  refine .eatMark there (fun k beyond less => ?_) (.done there)
  refine .bind (ih.assignment beyond (by omega) (by omega)) fun consequent l f read' last => ?_
  have fewer := (advances_of_took ((sound fuel).assignment beyond.ended read')).shorter
  dsimp only
  refine .expectMark last fun m after least => ?_
  exact .bind (ih.assignment after (by omega) (by omega)) fun alternate n g _ final =>
    .placeFrom final (.done final)

theorem operands (ih : Simulates tokens depth) {start least : Nat} {first : Expr Place}
    (stands : Points tokens i c) (deep : 16 * c.rest.length ≤ depth)
    (fits : 16 * c.rest.length + 1 ≤ fuel) :
    Matches (Arrives tokens) (Machine.loop (fun left => do
        match (← Machine.sight tokens).binaryOperator? with
        | none => return .inr left
        | some operator =>
          if operator.precedence < least then return .inr left
          else
            Machine.advance tokens
            let right ← Machine.binary tokens depth
              (if operator = .power then operator.precedence else operator.precedence + 1)
            return .inl (.binary (← Machine.placeFrom tokens start) operator left right))
        tokens.length first i)
      (Parser.binaryFrom fuel start least first c) := by
  refine matches_loop (fun fuel left d => Parser.binaryFrom fuel start least left d) 0
    (fun {fuel left i d} stands within fits => ?_) stands (Nat.le_refl _) fits stands.rounds
  rw [Parser.binaryFrom_succ]
  refine .sight stands ?_
  rw [Cursor.alone_binaryOperator?]
  cases found : d.binaryOperator? with
  | none => exact .leave stands
  | some operator =>
    have mark := (Cursor.binaryOperator?_eq_some.mp found).2
    dsimp only
    split
    · exact .leave stands
    · refine .pass stands (by simp [mark, operator.kind_ne_finish]) fun j there shorter => ?_
      refine .bind (ih.binary there (by omega) (by omega)) fun right k f read beyond => ?_
      have less := (advances_binary there.ended read).shorter
      exact .placeFrom beyond (.turn beyond (less.trans shorter) rfl)

theorem binary_succ (ih : Simulates tokens depth) {least : Nat} (stands : Points tokens i c)
    (deep : 16 * c.rest.length + 4 ≤ depth + 1) (fits : 16 * c.rest.length + 4 ≤ fuel + 1) :
    Matches (Arrives tokens) (Machine.binary tokens (depth + 1) least i)
      (Parser.binary (fuel + 1) least c) := by
  rw [Parser.binary_succ, Machine.binary]
  refine .peek stands (.bind (ih.unary stands (by omega) (by omega))
    fun first j d read there => ?_)
  have shorter := (advances_of_took ((sound fuel).unary stands.ended read)).shorter
  dsimp only
  exact ih.operands there (by omega) (by omega)

theorem unary_succ (ih : Simulates tokens depth) (stands : Points tokens i c)
    (deep : 16 * c.rest.length + 3 ≤ depth + 1) (fits : 16 * c.rest.length + 3 ≤ fuel + 1) :
    Matches (Arrives tokens) (Machine.unary tokens (depth + 1) i) (Parser.unary (fuel + 1) c) := by
  rw [Parser.unary_succ, Machine.unary]
  refine .peek stands (.sight stands ?_)
  rw [Cursor.alone_unaryOperator?, Cursor.alone_updateOperator?]
  cases found : c.unaryOperator? with
  | some operator =>
    have mark := Cursor.unaryOperator?_eq_some.mp found
    refine .pass stands (by simp [mark, operator.kind_ne_finish]) fun j there shorter => ?_
    exact .bind (ih.unary there (by omega) (by omega)) fun argument k d _ last =>
      .placeFrom last (.done last)
  | none =>
  cases prior : c.updateOperator? with
  | some operator =>
    have mark := Cursor.updateOperator?_eq_some.mp prior
    refine .pass stands (by simp [mark, operator.kind_ne_finish]) fun j there shorter => ?_
    exact .bind (ih.unary there (by omega) (by omega)) fun argument k d _ last =>
      .placeFrom last (.done last)
  | none =>
    refine .bind (ih.chain stands (by omega) (by omega)) fun argument j d read there => ?_
    refine .sight there ?_
    rw [Cursor.alone_updateOperator?, Cursor.alone_current]
    cases behind : d.updateOperator? with
    | none => exact .done there
    | some operator =>
      have mark := Cursor.updateOperator?_eq_some.mp behind
      refine .ite (fun _ => .done there) fun _ => ?_
      exact .pass there (by simp [mark, operator.kind_ne_finish]) fun k last _ =>
        .placeFrom last (.done last)

theorem items (ih : Simulates tokens depth) {closing : Mark} (stands : Points tokens i c)
    (deep : 16 * c.rest.length + 6 ≤ depth) (fits : 16 * c.rest.length + 7 ≤ fuel) :
    Matches (Arrives tokens)
      (Machine.separated tokens closing (Machine.assignment tokens depth) i)
      (Parser.items fuel closing c) :=
  matches_separated Parser.assignment (fun fuel => Parser.items fuel closing) 6
    (fun fuel c => Parser.items_succ fuel closing c)
    (fun there within fits => ih.assignment there (by omega) fits)
    (fun ended read => advances_of_took ((sound _).assignment ended read))
    stands (Nat.le_refl _) fits

theorem passes_items {closing : Mark} {list : List (Expr Place)} (ended : c.Ended)
    (h : Parser.items fuel closing c = .ok (list, d)) : d.rest.length ≤ c.rest.length := by
  obtain ⟨ts, passes, -⟩ := (sound fuel).items ended h
  have := passes.length_eq
  omega

theorem links (ih : Simulates tokens depth) {start : Nat} {first : Expr Place}
    (stands : Points tokens i c) (deep : 16 * c.rest.length ≤ depth)
    (fits : 16 * c.rest.length + 1 ≤ fuel) :
    Matches (Arrives tokens) (Machine.loop (fun inner => do
        if ← Machine.eatMark tokens .dot then
          let token ← Machine.peek tokens
          match token.kind with
          | .word name =>
            Machine.advance tokens
            let property := Expr.name (← Machine.placeFrom tokens token.start) name
            return .inl (.member (← Machine.placeFrom tokens start) inner property false)
          | _ => Machine.fail tokens .propertyName
        else if ← Machine.eatMark tokens .openBracket then
          let property ← Machine.expression tokens depth
          Machine.expectMark tokens .closeBracket
          return .inl (.member (← Machine.placeFrom tokens start) inner property true)
        else if ← Machine.eatMark tokens .openParen then
          let arguments ← Machine.separated tokens .closeParen (Machine.assignment tokens depth)
          Machine.expectMark tokens .closeParen
          return .inl (.call (← Machine.placeFrom tokens start) inner arguments)
        else return .inr inner) tokens.length first i)
      (Parser.chainFrom fuel start first c) := by
  refine matches_loop (fun fuel inner d => Parser.chainFrom fuel start inner d) 0
    (fun {fuel inner i d} stands within fits => ?_) stands (Nat.le_refl _) fits stands.rounds
  rw [Parser.chainFrom_succ]
  refine .eatMark stands (fun j there shorter => .peek there ?_) ?_
  · cases word : d.advance.current.kind with
    | word name =>
      refine .pass there (by simp [word]) fun k beyond less => ?_
      exact .placeFrom beyond (.placeFrom beyond (.turn beyond (less.trans shorter) rfl))
    | _ => exact .stuck there _
  refine .eatMark stands (fun j there shorter => ?_) ?_
  · refine .bind (ih.expression there (by omega) (by omega)) fun property k f read beyond => ?_
    have less := (advances_of_took ((sound fuel).expression there.ended read)).shorter
    refine .expectMark beyond fun l last least => ?_
    exact .placeFrom last (.turn last (least.trans (less.trans shorter)) rfl)
  refine .eatMark stands (fun j there shorter => ?_) (.leave stands)
  refine .bind (ih.items there (by omega) (by omega)) fun arguments k f read beyond => ?_
  have less := passes_items there.ended read
  refine .expectMark beyond fun l last least => ?_
  exact .placeFrom last (.turn last (by omega) rfl)

theorem chain_succ (ih : Simulates tokens depth) (stands : Points tokens i c)
    (deep : 16 * c.rest.length + 2 ≤ depth + 1) (fits : 16 * c.rest.length + 2 ≤ fuel + 1) :
    Matches (Arrives tokens) (Machine.chain tokens (depth + 1) i) (Parser.chain (fuel + 1) c) := by
  rw [Parser.chain_succ, Machine.chain]
  refine .peek stands (.bind (ih.primary stands (by omega) (by omega))
    fun first j d read there => ?_)
  have shorter := (advances_primary stands.ended read).shorter
  dsimp only
  exact ih.links there (by omega) (by omega)

theorem primary_succ (ih : Simulates tokens depth) (stands : Points tokens i c)
    (deep : 16 * c.rest.length + 1 ≤ depth + 1) (fits : 16 * c.rest.length + 1 ≤ fuel + 1) :
    Matches (Arrives tokens) (Machine.primary tokens (depth + 1) i)
      (Parser.primary (fuel + 1) c) := by
  rw [Parser.primary_succ, Machine.primary]
  refine .peek stands ?_
  cases kind : c.current.kind with
  | number | string =>
    exact .pass stands (by simp [kind]) fun j there _ => .placeFrom there (.done there)
  | finish => exact .stuck stands _
  | word name =>
    have live : c.current.kind ≠ .finish := by simp [kind]
    dsimp only
    split
    · exact .pass stands live fun j there _ => .placeFrom there (.done there)
    split
    · exact .pass stands live fun j there _ => .placeFrom there (.done there)
    · exact matches_identifier stands
  | mark m =>
    have live : c.current.kind ≠ .finish := by simp [kind]
    cases m with
    | openParen =>
      refine .pass stands live fun j there shorter => ?_
      refine .bind (ih.expression there (by omega) (by omega)) fun inner k d _ beyond => ?_
      exact .expectMark beyond fun l last _ => .done last
    | openBracket =>
      refine .pass stands live fun j there shorter => ?_
      refine .bind (ih.items there (by omega) (by omega)) fun elements k d _ beyond => ?_
      exact .expectMark beyond fun l last _ => .placeFrom last (.done last)
    | _ => exact .stuck stands _

end Simulates

/-- With sixteen levels for a token that is left, machines for expressions do what parsers do. -/
theorem simulates (tokens : List Token) (depth : Nat) : Simulates tokens depth := by
  induction depth with
  | zero => constructor <;> intros <;> omega
  | succ depth ih =>
    constructor <;> intro fuel <;> cases fuel
    case expression.succ => exact ih.expression_succ
    case assignment.succ => exact ih.assignment_succ
    case conditional.succ => exact ih.conditional_succ
    case binary.succ => exact ih.binary_succ
    case unary.succ => exact ih.unary_succ
    case chain.succ => exact ih.chain_succ
    case primary.succ => exact ih.primary_succ
    -- without fuel nothing can be left
    all_goals
      intros
      omega

end Arborist.Script

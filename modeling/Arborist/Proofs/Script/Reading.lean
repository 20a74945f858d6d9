import Mathlib
import Arborist.Proofs.Script.Grammar

/-!
What each parser does at a cursor, one equation for each. The equations turn the do blocks into
plain case distinctions on the current token, and everything that is said about the parsers later
starts from them.
-/

namespace Arborist.Script

namespace Cursor

def place (c : Cursor) (start : Nat) : Place := ⟨⟨start, max c.previousEnd start⟩, none⟩

end Cursor

namespace Parser

section Combinators

variable {α β ε : Type}

theorem bind_run (p : Parser α) (f : α → Parser β) (c : Cursor) :
    (p >>= f) c = p c >>= fun r => f r.1 r.2 := rfl

theorem map_run (f : α → β) (p : Parser α) (c : Cursor) :
    (f <$> p) c = p c >>= fun r => .ok (f r.1, r.2) := rfl

theorem pure_run (a : α) (c : Cursor) : (pure a : Parser α) c = .ok (a, c) := rfl

theorem get_run (c : Cursor) : (get : Parser Cursor) c = .ok (c, c) := rfl

theorem skip_run (c : Cursor) : skip c = .ok ((), c.advance) := rfl

theorem fail_run (expected : Expectation) (c : Cursor) :
    (fail expected : Parser α) c = .error ⟨expected, c.current⟩ := rfl

theorem placeFrom_run (start : Nat) (c : Cursor) :
    placeFrom start c = .ok (c.place start, c) := rfl

theorem eatMark_run (m : Mark) (c : Cursor) :
    eatMark m c = .ok (c.isMark m, if c.isMark m then c.advance else c) := by
  simp only [eatMark]
  split <;> simp_all

theorem eatWord_run (name : String) (c : Cursor) :
    eatWord name c = .ok (c.isWord name, if c.isWord name then c.advance else c) := by
  simp only [eatWord]
  split <;> simp_all

theorem ok_bind (a : α) (f : α → Except ε β) : (Except.ok a >>= f) = f a := rfl

theorem error_bind (e : ε) (f : α → Except ε β) : (Except.error e >>= f) = .error e := rfl

theorem ite_run (b : Prop) [Decidable b] (p q : Parser α) (c : Cursor) :
    (if b then p else q) c = if b then p c else q c := by
  split <;> rfl

theorem expectMark_bind (m : Mark) (c : Cursor) (f : Unit × Cursor → Except Surprise β) :
    (expectMark m c >>= f) =
      if c.isMark m then f ((), c.advance) else .error ⟨.mark m, c.current⟩ := by
  simp only [expectMark]
  split <;> rfl

theorem bind_eq_ok {x : Except ε α} {f : α → Except ε β} {b : β} :
    (x >>= f) = .ok b ↔ ∃ a, x = .ok a ∧ f a = .ok b := by
  cases x with
  | error e => simp [error_bind]
  | ok a => simp [ok_bind]

theorem ok_eq_ok {a a' : α} {b b' : β} :
    (Except.ok (a, b) : Except ε (α × β)) = .ok (a', b') ↔ a = a' ∧ b = b' := by
  rw [Except.ok.injEq, Prod.mk.injEq]

theorem ite_error_eq_ok {b : Prop} [Decidable b] {x : Except ε α} {e : ε} {a : α} :
    (if b then x else .error e) = .ok a ↔ b ∧ x = .ok a := by
  split <;> simp_all

end Combinators

theorem identifier_run (c : Cursor) :
    identifier c =
      match c.current.kind with
      | .word name =>
        if isReserved name then .error ⟨.identifier, c.current⟩
        else .ok (.name (c.advance.place c.current.start) name, c.advance)
      | _ => .error ⟨.identifier, c.current⟩ := by
  simp only [identifier, bind_run, get_run, ok_bind]
  cases c.current.kind <;> simp only [ite_run, bind_run, skip_run, ok_bind, placeFrom_run, pure_run,
    fail_run]

theorem semicolon_bind {β : Type} (c : Cursor) (f : Unit × Cursor → Except Surprise β) :
    (semicolon c >>= f) =
      if c.isMark .semicolon then f ((), c.advance)
      else if c.endsStatement then f ((), c)
      else .error ⟨.mark .semicolon, c.current⟩ := by
  simp only [semicolon]
  split
  · rfl
  · split <;> rfl

theorem expression_succ (fuel : Nat) (c : Cursor) :
    expression (fuel + 1) c = (assignment fuel c >>= fun r =>
      if r.2.isMark .comma then
        commaParts fuel r.2 >>= fun s =>
          .ok (.sequence (s.2.place c.current.start) (r.1 :: s.1), s.2)
      else .ok r) := by
  simp only [expression, bind_run, pure_run, get_run, placeFrom_run, ok_bind, ite_run]

theorem commaParts_succ (fuel : Nat) (c : Cursor) :
    commaParts (fuel + 1) c =
      if c.isMark .comma then
        assignment fuel c.advance >>= fun r =>
          commaParts fuel r.2 >>= fun s => .ok (r.1 :: s.1, s.2)
      else .ok ([], c) := by
  simp only [commaParts, bind_run, eatMark_run, pure_run, ok_bind, ite_run]
  cases c.isMark .comma <;> rfl

theorem assignment_succ (fuel : Nat) (c : Cursor) :
    assignment (fuel + 1) c = (conditional fuel c >>= fun r =>
      match r.2.assignmentOperator? with
      | none => .ok r
      | some operator =>
        if r.1.isAssignable then
          assignment fuel r.2.advance >>= fun s =>
            .ok (.assignment (s.2.place c.current.start) operator r.1 s.1, s.2)
        else .error ⟨.assignmentTarget, r.2.current⟩) := by
  simp only [assignment, bind_run, get_run, ok_bind]
  congr 1
  funext r
  cases r.2.assignmentOperator? <;>
    simp only [ite_run, bind_run, skip_run, ok_bind, placeFrom_run, pure_run, fail_run]

theorem conditional_succ (fuel : Nat) (c : Cursor) :
    conditional (fuel + 1) c = (binary fuel 1 c >>= fun r =>
      if r.2.isMark .question then
        assignment fuel r.2.advance >>= fun s =>
          if s.2.isMark .colon then
            assignment fuel s.2.advance >>= fun u =>
              .ok (.conditional (u.2.place c.current.start) r.1 s.1 u.1, u.2)
          else .error ⟨.mark .colon, s.2.current⟩
      else .ok r) := by
  simp only [conditional, bind_run, get_run, ok_bind, eatMark_run, ite_run, expectMark_bind,
    placeFrom_run, pure_run]
  congr 1
  funext r
  cases r.2.isMark .question <;> rfl

theorem binary_succ (fuel least : Nat) (c : Cursor) :
    binary (fuel + 1) least c = (unary fuel c >>= fun r =>
      binaryFrom fuel c.current.start least r.1 r.2) := by
  simp only [binary, bind_run, get_run, ok_bind]

def rightLeast (operator : BinaryOperator) : Nat :=
  if operator = .power then operator.precedence else operator.precedence + 1

theorem binaryFrom_succ (fuel start least : Nat) (left : Expr Place) (c : Cursor) :
    binaryFrom (fuel + 1) start least left c =
      match c.binaryOperator? with
      | none => .ok (left, c)
      | some operator =>
        if operator.precedence < least then .ok (left, c)
        else
          binary fuel (rightLeast operator) c.advance >>= fun r =>
            binaryFrom fuel start least (.binary (r.2.place start) operator left r.1) r.2 := by
  simp only [binaryFrom, bind_run, get_run, ok_bind]
  cases c.binaryOperator? <;>
    simp only [ite_run, bind_run, skip_run, ok_bind, placeFrom_run, pure_run, rightLeast]

theorem unary_succ (fuel : Nat) (c : Cursor) :
    unary (fuel + 1) c =
      match c.unaryOperator?, c.updateOperator? with
      | some operator, _ => unary fuel c.advance >>= fun r =>
          .ok (.unary (r.2.place c.current.start) operator r.1, r.2)
      | none, some operator => unary fuel c.advance >>= fun r =>
          .ok (.update (r.2.place c.current.start) operator true r.1, r.2)
      | none, none => chain fuel c >>= fun r =>
          match r.2.updateOperator? with
          | some operator =>
            if r.2.current.newlineBefore then .ok r
            else .ok (.update (r.2.advance.place c.current.start) operator false r.1, r.2.advance)
          | none => .ok r := by
  simp only [unary, bind_run, get_run, ok_bind]
  cases c.unaryOperator? <;> cases c.updateOperator? <;>
    simp only [bind_run, skip_run, ok_bind, placeFrom_run, pure_run, get_run]
  congr 1
  funext r
  cases r.2.updateOperator? <;>
    simp only [ite_run, bind_run, skip_run, ok_bind, placeFrom_run, pure_run]

theorem chain_succ (fuel : Nat) (c : Cursor) :
    chain (fuel + 1) c = (primary fuel c >>= fun r =>
      chainFrom fuel c.current.start r.1 r.2) := by
  simp only [chain, bind_run, get_run, ok_bind]

theorem chainFrom_succ (fuel start : Nat) (inner : Expr Place) (c : Cursor) :
    chainFrom (fuel + 1) start inner c =
      if c.isMark .dot then
        match c.advance.current.kind with
        | .word name => chainFrom fuel start (.member (c.advance.advance.place start) inner
            (.name (c.advance.advance.place c.advance.current.start) name) false) c.advance.advance
        | _ => .error ⟨.propertyName, c.advance.current⟩
      else if c.isMark .openBracket then
        expression fuel c.advance >>= fun r =>
          if r.2.isMark .closeBracket then
            chainFrom fuel start (.member (r.2.advance.place start) inner r.1 true) r.2.advance
          else .error ⟨.mark .closeBracket, r.2.current⟩
      else if c.isMark .openParen then
        items fuel .closeParen c.advance >>= fun r =>
          if r.2.isMark .closeParen then
            chainFrom fuel start (.call (r.2.advance.place start) inner r.1) r.2.advance
          else .error ⟨.mark .closeParen, r.2.current⟩
      else .ok (inner, c) := by
  simp only [chainFrom, bind_run, eatMark_run, ok_bind, ite_run, pure_run, expectMark_bind,
    placeFrom_run, get_run]
  cases c.isMark .dot with
  | true =>
    simp only [if_true]
    cases c.advance.current.kind <;> rfl
  | false =>
    simp only [Bool.false_eq_true, if_false]
    cases c.isMark .openBracket with
    | true => simp only [if_true]
    | false =>
      simp only [Bool.false_eq_true, if_false]
      cases c.isMark .openParen <;> simp

theorem items_succ (fuel : Nat) (closing : Mark) (c : Cursor) :
    items (fuel + 1) closing c =
      if c.isMark closing then .ok ([], c)
      else
        assignment fuel c >>= fun r =>
          if r.2.isMark .comma then
            items fuel closing r.2.advance >>= fun s => .ok (r.1 :: s.1, s.2)
          else .ok ([r.1], r.2) := by
  simp only [items, bind_run, get_run, eatMark_run, ok_bind, ite_run, pure_run]
  congr 2
  funext r
  cases r.2.isMark .comma <;> rfl

theorem primary_succ (fuel : Nat) (c : Cursor) :
    primary (fuel + 1) c =
      match c.current.kind with
      | .number value raw =>
        .ok (.number (c.advance.place c.current.start) value (some raw), c.advance)
      | .string value raw =>
        .ok (.string (c.advance.place c.current.start) value (some raw), c.advance)
      | .word name =>
        if name = "true" ∨ name = "false" then
          .ok (.boolean (c.advance.place c.current.start) (name == "true"), c.advance)
        else if name = "null" then .ok (.null (c.advance.place c.current.start), c.advance)
        else identifier c
      | .mark .openParen =>
        expression fuel c.advance >>= fun r =>
          if r.2.isMark .closeParen then
            .ok (r.1.withNote ⟨r.1.note.span, some c.current.start⟩, r.2.advance)
          else .error ⟨.mark .closeParen, r.2.current⟩
      | .mark .openBracket =>
        items fuel .closeBracket c.advance >>= fun r =>
          if r.2.isMark .closeBracket then
            .ok (.array (r.2.advance.place c.current.start) (r.1.map some), r.2.advance)
          else .error ⟨.mark .closeBracket, r.2.current⟩
      | _ => .error ⟨.expression, c.current⟩ := by
  simp only [primary, bind_run, get_run, ok_bind]
  cases c.current.kind with
  | word name => simp only [bind_run, skip_run, ok_bind, ite_run, placeFrom_run, pure_run]
  | number value raw => rfl
  | string value raw => rfl
  | finish => rfl
  | mark m =>
    cases m with
    | openParen => simp only [bind_run, skip_run, ok_bind, expectMark_bind, pure_run]
    | openBracket =>
      simp only [bind_run, skip_run, ok_bind, expectMark_bind, placeFrom_run, pure_run]
    | _ => rfl

theorem parameters_succ (fuel : Nat) (c : Cursor) :
    parameters (fuel + 1) c =
      if c.isMark .closeParen then .ok ([], c)
      else
        identifier c >>= fun r =>
          if r.2.isMark .comma then
            parameters fuel r.2.advance >>= fun s => .ok (r.1 :: s.1, s.2)
          else .ok ([r.1], r.2) := by
  simp only [parameters, bind_run, get_run, eatMark_run, ok_bind, ite_run, pure_run]
  congr 2
  funext r
  cases r.2.isMark .comma <;> rfl

def initial (fuel : Nat) (c : Cursor) : Except Surprise (Option (Expr Place) × Cursor) :=
  if c.isMark .assign then
    assignment fuel c.advance >>= fun r => .ok (some r.1, r.2)
  else .ok (none, c)

theorem declarators_succ (fuel : Nat) (c : Cursor) :
    declarators (fuel + 1) c = (identifier c >>= fun r =>
      initial fuel r.2 >>= fun s =>
        if s.2.isMark .comma then
          declarators fuel s.2.advance >>= fun u =>
            .ok (⟨s.2.place c.current.start, r.1, s.1⟩ :: u.1, u.2)
        else .ok ([⟨s.2.place c.current.start, r.1, s.1⟩], s.2)) := by
  simp only [declarators, bind_run, get_run, eatMark_run, ok_bind, initial]
  congr 1
  funext r
  cases r.2.isMark .assign with
  | true =>
    simp only [if_true, map_run, bind_assoc, ok_bind, ite_run, bind_run, placeFrom_run, pure_run,
      eatMark_run]
    congr 1
    funext s
    cases s.2.isMark .comma <;> rfl
  | false =>
    simp only [Bool.false_eq_true, if_false, ok_bind, ite_run, bind_run, placeFrom_run, pure_run,
      eatMark_run]
    cases r.2.isMark .comma <;> rfl

theorem declaration_run (fuel : Nat) (kind : DeclarationKind) (c : Cursor) :
    declaration fuel kind c =
      if c.atWord then
        declarators fuel c.advance >>= fun r =>
          if r.2.isMark .semicolon then
            .ok (.declaration (r.2.advance.place c.current.start) kind r.1, r.2.advance)
          else if r.2.endsStatement then .ok (.declaration (r.2.place c.current.start) kind r.1, r.2)
          else .error ⟨.mark .semicolon, r.2.current⟩
      else .error ⟨.declarationWord, c.advance.current⟩ := by
  simp only [declaration, bind_run, get_run, skip_run, ok_bind, ite_run, semicolon_bind,
    placeFrom_run, pure_run, fail_run]

def behindAsync (c : Cursor) : Cursor := if c.isWord "async" then c.advance else c

def behindStar (c : Cursor) : Cursor := if c.isMark .times then c.advance else c

theorem functionHead_run (fuel : Nat) (c : Cursor) :
    functionHead fuel c =
      if (behindAsync c).isWord "function" then
        identifier (behindStar (behindAsync c).advance) >>= fun r =>
          if r.2.isMark .openParen then
            parameters fuel r.2.advance >>= fun s =>
              if s.2.isMark .closeParen then
                .ok (⟨c.isWord "async", (behindAsync c).advance.isMark .times, r.1, s.1⟩,
                  s.2.advance)
              else .error ⟨.mark .closeParen, s.2.current⟩
          else .error ⟨.mark .openParen, r.2.current⟩
      else .error ⟨.functionWord, (behindAsync c).current⟩ := by
  have async : eatWord "async" c = .ok (c.isWord "async", behindAsync c) := eatWord_run ..
  simp only [functionHead, bind_run, async, ok_bind, eatWord_run]
  cases (behindAsync c).isWord "function" with
  | false => rfl
  | true =>
    simp only [if_true, bind_run, eatMark_run, ok_bind, expectMark_bind, pure_run, behindStar]

theorem block_succ (fuel : Nat) (c : Cursor) :
    block (fuel + 1) c =
      if c.isMark .openBrace then
        blockBody fuel c.advance >>= fun r =>
          if r.2.isMark .closeBrace then
            .ok ((r.2.advance.place c.current.start, r.1), r.2.advance)
          else .error ⟨.mark .closeBrace, r.2.current⟩
      else .error ⟨.mark .openBrace, c.current⟩ := by
  simp only [block, bind_run, get_run, ok_bind, expectMark_bind, placeFrom_run, pure_run]

theorem blockBody_succ (fuel : Nat) (c : Cursor) :
    blockBody (fuel + 1) c =
      if c.isMark .closeBrace then .ok ([], c)
      else if c.atEnd then .error ⟨.mark .closeBrace, c.current⟩
      else
        statement fuel c >>= fun r => blockBody fuel r.2 >>= fun s => .ok (r.1 :: s.1, s.2) := by
  simp only [blockBody, bind_run, get_run, ok_bind, ite_run, pure_run, fail_run]

theorem body_succ (fuel : Nat) (c : Cursor) :
    body (fuel + 1) c =
      if c.atEnd then .ok ([], c)
      else statement fuel c >>= fun r => body fuel r.2 >>= fun s => .ok (r.1 :: s.1, s.2) := by
  simp only [body, bind_run, get_run, ok_bind, ite_run, pure_run]

def leaving (fuel start : Nat) (c : Cursor) : Except Surprise (Stmt Place × Cursor) :=
  if c.isMark .semicolon then .ok (.ret (c.advance.place start) none, c.advance)
  else if c.endsStatement then .ok (.ret (c.place start) none, c)
  else
    expression fuel c >>= fun r =>
      if r.2.isMark .semicolon then .ok (.ret (r.2.advance.place start) (some r.1), r.2.advance)
      else if r.2.endsStatement then .ok (.ret (r.2.place start) (some r.1), r.2)
      else .error ⟨.mark .semicolon, r.2.current⟩

def branching (fuel start : Nat) (c : Cursor) : Except Surprise (Stmt Place × Cursor) :=
  if c.isMark .openParen then
    expression fuel c.advance >>= fun r =>
      if r.2.isMark .closeParen then
        statement fuel r.2.advance >>= fun s =>
          if s.2.isWord "else" then
            statement fuel s.2.advance >>= fun u =>
              .ok (.branch (u.2.place start) r.1 s.1 (some u.1), u.2)
          else .ok (.branch (s.2.place start) r.1 s.1 none, s.2)
      else .error ⟨.mark .closeParen, r.2.current⟩
  else .error ⟨.mark .openParen, c.current⟩

def stating (fuel : Nat) (c : Cursor) : Except Surprise (Stmt Place × Cursor) :=
  expression fuel c >>= fun r =>
    if r.2.isMark .semicolon then
      .ok (.expression (r.2.advance.place c.current.start) r.1, r.2.advance)
    else if r.2.endsStatement then .ok (.expression (r.2.place c.current.start) r.1, r.2)
    else .error ⟨.mark .semicolon, r.2.current⟩

theorem statement_succ (fuel : Nat) (c : Cursor) :
    statement (fuel + 1) c =
      match c.declarationKind? with
      | some kind => declaration fuel kind c
      | none =>
        if c.startsFunction then
          functionHead fuel c >>= fun r =>
            block fuel r.2 >>= fun s =>
              .ok (.function (s.2.place c.current.start) r.1 s.1.1 s.1.2, s.2)
        else if c.isWord "return" then leaving fuel c.current.start c.advance
        else if c.isWord "if" then branching fuel c.current.start c.advance
        else if c.isMark .openBrace then
          block fuel c >>= fun r => .ok (.block r.1.1 r.1.2, r.2)
        else if c.isMark .semicolon then
          .ok (.empty (c.advance.place c.current.start), c.advance)
        else stating fuel c := by
  simp only [statement, bind_run, get_run, ok_bind]
  cases c.declarationKind? with
  | some kind => rfl
  | none =>
    simp only [ite_run, bind_run, eatWord_run, eatMark_run, ok_bind, get_run, placeFrom_run,
      pure_run, expectMark_bind, semicolon_bind]
    cases c.startsFunction with
    | true => rfl
    | false =>
    simp only [Bool.false_eq_true, if_false]
    cases c.isWord "return" with
    | true =>
      simp only [if_true, leaving]
      cases semicolon : c.advance.isMark .semicolon <;> cases ends : c.advance.endsStatement <;>
        simp
    | false =>
    simp only [Bool.false_eq_true, if_false]
    cases c.isWord "if" with
    | true =>
      simp only [if_true, branching]
      congr 2
      funext r
      congr 2
      funext s
      cases s.2.isWord "else" <;> rfl
    | false =>
    simp only [Bool.false_eq_true, if_false]
    cases c.isMark .openBrace with
    | true => rfl
    | false =>
    simp only [Bool.false_eq_true, if_false]
    cases c.isMark .semicolon with
    | true => rfl
    | false => rfl

theorem program_run (tokens : List Token) :
    program tokens = (body (16 * (tokens.length + 1)) (Cursor.ofTokens tokens) >>= fun r =>
      .ok r.1) := by
  simp only [program, StateT.run']
  cases body (16 * (tokens.length + 1)) (Cursor.ofTokens tokens) <;> rfl

end Parser

end Arborist.Script

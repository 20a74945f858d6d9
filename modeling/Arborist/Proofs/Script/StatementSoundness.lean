import Mathlib
import Arborist.Proofs.Script.Soundness

/-!
Whatever the parsers of statements accept is a passage of the grammar, before the token at which
they stop. A whole list of tokens is read up to the end of the text.
-/

namespace Arborist.Script

open Token (Kind)
open Cursor (Passes)

theorem terminated_of_semicolon {α : Type} (build : Cursor → α) {c d : Cursor} {a : α}
    {surprise : Surprise} (ended : c.Ended)
    (h : (if c.isMark .semicolon then .ok (build c.advance, c.advance)
      else if c.endsStatement then .ok (build c, c)
      else .error surprise) = Except.ok (a, d)) :
    ∃ us, Passes c d us ∧ Terminated us d.current ∧ a = build d := by
  simp only [Cursor.isMark_iff] at h
  split at h
  · rename_i mark
    obtain ⟨rfl, rfl⟩ := Parser.ok_eq_ok.mp h
    exact ⟨_, ended.passes_advance (by simp [mark]), .semicolon mark, rfl⟩
  · rename_i bare
    obtain ⟨ends, h⟩ := Parser.ite_error_eq_ok.mp h
    obtain ⟨rfl, rfl⟩ := Parser.ok_eq_ok.mp h
    exact ⟨[], .refl c, .free bare (Cursor.endsStatement_iff.mp ends), rfl⟩

theorem parameters_sound (fuel : Nat) {c d : Cursor} {list : List (Expr Place)} (ended : c.Ended)
    (h : Parser.parameters fuel c = .ok (list, d)) :
    ∃ ts, Passes c d ts ∧ Parameters list ts := by
  induction fuel generalizing c list with
  | zero => simp [Parser.parameters, Parser.fail] at h
  | succ fuel ih =>
    rw [Parser.parameters_succ] at h
    split at h
    · obtain ⟨rfl, rfl⟩ := Parser.ok_eq_ok.mp h
      exact ⟨[], .refl c, .none⟩
    · obtain ⟨⟨name, b⟩, read, h⟩ := Parser.bind_eq_ok.mp h
      obtain ⟨t, passes, named⟩ := named_of_identifier ended read
      have here := passes.ended ended
      simp only [Cursor.isMark_iff] at h
      split at h
      · rename_i comma
        obtain ⟨⟨rest, g⟩, more, h⟩ := Parser.bind_eq_ok.mp h
        obtain ⟨rfl, rfl⟩ := Parser.ok_eq_ok.mp h
        have one := here.passes_advance (by simp [comma])
        obtain ⟨ts, further, others⟩ := ih (one.ended here) more
        exact ⟨_, passes.trans (one.trans further), .more named comma others⟩
      · obtain ⟨rfl, rfl⟩ := Parser.ok_eq_ok.mp h
        exact ⟨_, passes, .one named⟩

theorem declares_of_initial {fuel : Nat} {c b d : Cursor} {name : Expr Place} {t : Token}
    {value : Option (Expr Place)} (ended : b.Ended) (passes : Passes c b [t]) (named : Named name t)
    (h : Parser.initial fuel b = .ok (value, d)) :
    ∃ ts, ts ≠ [] ∧ Passes c d ts ∧
      Declares ⟨d.place c.current.start, name, value⟩ ts d.current := by
  simp only [Parser.initial, Cursor.isMark_iff] at h
  split at h
  · rename_i mark
    obtain ⟨⟨e, g⟩, read, h⟩ := Parser.bind_eq_ok.mp h
    obtain ⟨rfl, rfl⟩ := Parser.ok_eq_ok.mp h
    have one := ended.passes_advance (by simp [mark])
    obtain ⟨ts, further, inner, stops⟩ := (sound fuel).assignment (one.ended ended) read
    have all := passes.trans (one.trans further)
    refine ⟨_, by simp, all, ?_⟩
    rw [all.place_of_ne_nil (by simp)]
    exact .initial named mark inner stops
  · rename_i bare
    obtain ⟨rfl, rfl⟩ := Parser.ok_eq_ok.mp h
    refine ⟨_, by simp, passes, ?_⟩
    rw [passes.place_of_ne_nil (by simp)]
    exact .plain named bare

theorem declarators_sound (fuel : Nat) {c d : Cursor} {list : List (Declarator Place)}
    (ended : c.Ended) (h : Parser.declarators fuel c = .ok (list, d)) :
    ∃ ts, Passes c d ts ∧ DeclaresAll list ts d.current := by
  induction fuel generalizing c list with
  | zero => simp [Parser.declarators, Parser.fail] at h
  | succ fuel ih =>
    rw [Parser.declarators_succ, Parser.bind_eq_ok] at h
    obtain ⟨⟨name, b⟩, read, h⟩ := h
    obtain ⟨t, first, named⟩ := named_of_identifier ended read
    obtain ⟨⟨value, g⟩, initial, h⟩ := Parser.bind_eq_ok.mp h
    obtain ⟨ts, -, passes, declares⟩ := declares_of_initial (first.ended ended) first named initial
    have here := passes.ended ended
    simp only [Cursor.isMark_iff] at h
    split at h
    · rename_i comma
      obtain ⟨⟨rest, i⟩, more, h⟩ := Parser.bind_eq_ok.mp h
      obtain ⟨rfl, rfl⟩ := Parser.ok_eq_ok.mp h
      have one := here.passes_advance (by simp [comma])
      obtain ⟨us, further, others⟩ := ih (one.ended here) more
      exact ⟨_, passes.trans (one.trans further), .more declares comma others⟩
    · rename_i bare
      obtain ⟨rfl, rfl⟩ := Parser.ok_eq_ok.mp h
      exact ⟨ts, passes, .last declares bare⟩

theorem declaration_sound {fuel : Nat} {kind : DeclarationKind} {c d : Cursor} {s : Stmt Place}
    (ended : c.Ended) (word : c.current.kind = .word kind.text)
    (h : Parser.declaration fuel kind c = .ok (s, d)) :
    ∃ ts, ts ≠ [] ∧ Passes c d ts ∧ Forms (.statement s) ts d.current := by
  rw [Parser.declaration_run] at h
  obtain ⟨-, h⟩ := Parser.ite_error_eq_ok.mp h
  obtain ⟨⟨list, b⟩, read, h⟩ := Parser.bind_eq_ok.mp h
  have one := ended.passes_advance (by simp [word])
  obtain ⟨ts, passes, declarators⟩ := declarators_sound fuel (one.ended ended) read
  obtain ⟨us, further, ends, rfl⟩ := terminated_of_semicolon
    (fun f => Stmt.declaration (f.place c.current.start) kind list)
    (passes.ended (one.ended ended)) h
  have all : Passes c d (c.current :: (ts ++ us)) := one.trans (passes.trans further)
  refine ⟨_, by simp, all, ?_⟩
  rw [all.place_eq]
  rw [further.head_eq] at declarators
  exact .declaration word declarators ends

theorem heads_of_word {fuel : Nat} {c d f : Cursor} {front : List Token} {isAsync : Bool}
    {head : FunctionHead Place} (ended : d.Ended) (passes : Passes c d front)
    (word : d.current.kind = .word "function")
    (async : if isAsync then ∃ t : Token, front = [t] ∧ t.kind = .word "async" ∧
        d.current.newlineBefore = false else front = [])
    (h : (Parser.identifier (Parser.behindStar d.advance) >>= fun r =>
        if r.2.isMark .openParen then
          Parser.parameters fuel r.2.advance >>= fun s =>
            if s.2.isMark .closeParen then
              .ok (⟨isAsync, d.advance.isMark .times, r.1, s.1⟩, s.2.advance)
            else .error ⟨.mark .closeParen, s.2.current⟩
        else .error ⟨.mark .openParen, r.2.current⟩) = .ok (head, f)) :
    ∃ ts, ts ≠ [] ∧ Passes c f ts ∧ Heads head ts := by
  have one := ended.passes_advance (by simp [word])
  have here := one.ended ended
  obtain ⟨star, behind, marked⟩ : ∃ star, Passes d.advance (Parser.behindStar d.advance) star ∧
      if d.advance.isMark .times then ∃ t : Token, star = [t] ∧ t.kind = .mark .times
      else star = [] := by
    rw [Parser.behindStar]
    cases mark : d.advance.isMark .times with
    | true =>
      have times := Cursor.isMark_iff.mp mark
      exact ⟨_, here.passes_advance (by simp [times]), _, rfl, times⟩
    | false => exact ⟨[], .refl _, rfl⟩
  obtain ⟨⟨name, b⟩, read, h⟩ := Parser.bind_eq_ok.mp h
  obtain ⟨n, further, named⟩ := named_of_identifier (behind.ended here) read
  have there := further.ended (behind.ended here)
  obtain ⟨opening, h⟩ := Parser.ite_error_eq_ok.mp h
  have opened : b.current.kind = .mark .openParen := Cursor.isMark_iff.mp opening
  have two := there.passes_advance (by simp [opened])
  obtain ⟨⟨list, g⟩, more, h⟩ := Parser.bind_eq_ok.mp h
  obtain ⟨ts, inside, parameters⟩ := parameters_sound fuel (two.ended there) more
  obtain ⟨closing, h⟩ := Parser.ite_error_eq_ok.mp h
  have closed : g.current.kind = .mark .closeParen := Cursor.isMark_iff.mp closing
  have three := (inside.ended (two.ended there)).passes_advance (by simp [closed])
  obtain ⟨rfl, rfl⟩ := Parser.ok_eq_ok.mp h
  exact ⟨_, by simp, passes.trans (one.trans (behind.trans (further.trans (two.trans
    (inside.trans three))))), .intro async word marked named opened parameters closed⟩

theorem functionHead_sound {fuel : Nat} {c d : Cursor} {head : FunctionHead Place}
    (ended : c.Ended) (starts : c.startsFunction = true)
    (h : Parser.functionHead fuel c = .ok (head, d)) :
    ∃ ts, ts ≠ [] ∧ Passes c d ts ∧ Heads head ts := by
  rw [Parser.functionHead_run, Parser.behindAsync] at h
  obtain ⟨-, h⟩ := Parser.ite_error_eq_ok.mp h
  cases isAsync : c.isWord "async" with
  | false =>
    have word : c.current.kind = .word "function" := by
      rw [Cursor.startsFunction, isAsync, Bool.false_and, Bool.or_false] at starts
      exact Cursor.isWord_iff.mp starts
    simp only [isAsync, Bool.false_eq_true, if_false] at h
    exact heads_of_word ended (.refl c) word (by simp) h
  | true =>
    have async := Cursor.isWord_iff.mp isAsync
    have one := ended.passes_advance (by simp [async])
    simp only [isAsync, if_true] at h
    -- the word behind `async` is looked at before it is reached
    have behind : c.advance.current.kind = .word "function" ∧
        c.advance.current.newlineBefore = false := by
      have other : c.isWord "function" = false := by simp [Cursor.isWord, async]
      simp only [Cursor.startsFunction, other, isAsync, Bool.false_or, Bool.true_and] at starts
      cases ahead : c.rest with
      | nil => simp [ahead] at starts
      | cons next rest => simpa [ahead, Cursor.advance] using starts
    exact heads_of_word (one.ended ended) one behind.1 (by simp [async, behind.2]) h

structure StatementsSound (fuel : Nat) : Prop where
  statement {c d : Cursor} {s : Stmt Place} (ended : c.Ended)
    (h : Parser.statement fuel c = .ok (s, d)) :
    ∃ ts, ts ≠ [] ∧ Passes c d ts ∧ Forms (.statement s) ts d.current
  block {c d : Cursor} {place : Place} {list : List (Stmt Place)} (ended : c.Ended)
    (h : Parser.block fuel c = .ok ((place, list), d)) :
    ∃ ts, ts ≠ [] ∧ Passes c d ts ∧ Forms (.block place list) ts d.current
  blockBody {c d : Cursor} {list : List (Stmt Place)} (ended : c.Ended)
    (h : Parser.blockBody fuel c = .ok (list, d)) :
    ∃ ts, Passes c d ts ∧ Forms (.body list) ts d.current

namespace StatementsSound

variable {fuel : Nat} {c d b : Cursor} {s : Stmt Place} {list : List (Stmt Place)} {place : Place}

theorem leaving_sound (ended : b.Ended) (one : Passes c b [c.current])
    (word : c.current.kind = .word "return")
    (h : Parser.leaving fuel c.current.start b = .ok (s, d)) :
    ∃ ts, ts ≠ [] ∧ Passes c d ts ∧ Forms (.statement s) ts d.current := by
  rw [Parser.leaving] at h
  simp only [Cursor.isMark_iff] at h
  split at h
  · rename_i mark
    obtain ⟨rfl, rfl⟩ := Parser.ok_eq_ok.mp h
    have all : Passes c b.advance [c.current, b.current] :=
      one.trans (ended.passes_advance (by simp [mark]))
    refine ⟨_, by simp, all, ?_⟩
    rw [all.place_eq]
    exact .leave word (.semicolon mark)
  split at h
  · rename_i bare ends
    obtain ⟨rfl, rfl⟩ := Parser.ok_eq_ok.mp h
    refine ⟨_, by simp, one, ?_⟩
    rw [one.place_eq]
    exact .leave word (.free bare (Cursor.endsStatement_iff.mp ends))
  · rename_i going
    obtain ⟨⟨argument, g⟩, read, h⟩ := Parser.bind_eq_ok.mp h
    simp only [← Cursor.isMark_iff] at h
    obtain ⟨ts, passes, inner, stops⟩ := (sound fuel).expression ended read
    obtain ⟨us, further, ends, rfl⟩ := terminated_of_semicolon
      (fun f => Stmt.ret (f.place c.current.start) (some argument)) (passes.ended ended) h
    have all : Passes c d (c.current :: (ts ++ us)) := one.trans (passes.trans further)
    refine ⟨_, by simp, all, ?_⟩
    rw [all.place_eq]
    rw [further.head_eq] at stops
    refine .ret word inner ?_ stops ends
    intro first member
    have current : b.current = first := by
      rw [passes.head_eq, List.headD_eq_head?_getD, Option.mem_def.mp member, Option.getD_some]
    simp only [Cursor.endsStatement_iff, MayEnd, not_or] at going
    simpa [current] using going.1

theorem branching_sound (ih : StatementsSound fuel) (ended : b.Ended) (one : Passes c b [c.current])
    (word : c.current.kind = .word "if")
    (h : Parser.branching fuel c.current.start b = .ok (s, d)) :
    ∃ ts, ts ≠ [] ∧ Passes c d ts ∧ Forms (.statement s) ts d.current := by
  rw [Parser.branching] at h
  obtain ⟨opening, h⟩ := Parser.ite_error_eq_ok.mp h
  have opened : b.current.kind = .mark .openParen := Cursor.isMark_iff.mp opening
  have two := ended.passes_advance (by simp [opened])
  obtain ⟨⟨test, g⟩, readTest, h⟩ := Parser.bind_eq_ok.mp h
  obtain ⟨ts, passes, condition, -⟩ := (sound fuel).expression (two.ended ended) readTest
  have here := passes.ended (two.ended ended)
  obtain ⟨closing, h⟩ := Parser.ite_error_eq_ok.mp h
  have closed : g.current.kind = .mark .closeParen := Cursor.isMark_iff.mp closing
  have three := here.passes_advance (by simp [closed])
  obtain ⟨⟨consequent, i⟩, readPositive, h⟩ := Parser.bind_eq_ok.mp h
  obtain ⟨us, -, further, positive⟩ := ih.statement (three.ended here) readPositive
  have there := further.ended (three.ended here)
  have front : Passes c i (c.current :: b.current :: (ts ++ g.current :: us)) :=
    one.trans (two.trans (passes.trans (three.trans further)))
  simp only [Cursor.isWord_iff] at h
  split at h
  · rename_i other
    obtain ⟨⟨alternate, j⟩, readNegative, h⟩ := Parser.bind_eq_ok.mp h
    obtain ⟨rfl, rfl⟩ := Parser.ok_eq_ok.mp h
    have four := there.passes_advance (by simp [other])
    obtain ⟨vs, -, last, negative⟩ := ih.statement (four.ended there) readNegative
    have all : Passes c j
        (c.current :: b.current :: (ts ++ g.current :: (us ++ i.current :: vs))) :=
      one.trans (two.trans (passes.trans (three.trans (further.trans (four.trans last)))))
    refine ⟨_, by simp, all, ?_⟩
    rw [all.place_eq]
    exact .choice word opened condition closed positive other negative
  · rename_i bare
    obtain ⟨rfl, rfl⟩ := Parser.ok_eq_ok.mp h
    refine ⟨_, by simp, front, ?_⟩
    rw [front.place_eq]
    exact .branch word opened condition closed positive bare

theorem stating_sound (ended : c.Ended) (h : Parser.stating fuel c = .ok (s, d)) :
    ∃ ts, ts ≠ [] ∧ Passes c d ts ∧ Forms (.statement s) ts d.current := by
  rw [Parser.stating, Parser.bind_eq_ok] at h
  obtain ⟨⟨e, g⟩, read, h⟩ := h
  obtain ⟨ts, passes, inner, stops⟩ := (sound fuel).expression ended read
  obtain ⟨us, further, ends, rfl⟩ := terminated_of_semicolon
    (fun f => Stmt.expression (f.place c.current.start) e) (passes.ended ended) h
  have all := passes.trans further
  have filled : ts ++ us ≠ [] := by simp [inner.ne_nil]
  refine ⟨_, filled, all, ?_⟩
  rw [all.place_of_ne_nil filled]
  rw [further.head_eq] at stops
  exact .expression inner stops ends

theorem statement_succ (ih : StatementsSound fuel) (ended : c.Ended)
    (h : Parser.statement (fuel + 1) c = .ok (s, d)) :
    ∃ ts, ts ≠ [] ∧ Passes c d ts ∧ Forms (.statement s) ts d.current := by
  rw [Parser.statement_succ] at h
  cases declares : c.declarationKind? with
  | some kind =>
    simp only [declares] at h
    exact declaration_sound ended (Cursor.declarationKind?_eq_some.mp declares) h
  | none =>
  simp only [declares] at h
  split at h
  · rename_i starts
    obtain ⟨⟨head, b⟩, readHead, h⟩ := Parser.bind_eq_ok.mp h
    obtain ⟨⟨⟨place, body⟩, g⟩, readBody, h⟩ := Parser.bind_eq_ok.mp h
    obtain ⟨rfl, rfl⟩ := Parser.ok_eq_ok.mp h
    obtain ⟨ts, filled, passes, front⟩ := functionHead_sound ended starts readHead
    obtain ⟨us, -, further, inner⟩ := ih.block (passes.ended ended) readBody
    have all := passes.trans further
    refine ⟨_, by simp [filled], all, ?_⟩
    rw [all.place_of_ne_nil (by simp [filled])]
    exact .function front inner
  split at h
  · rename_i returns
    have word := Cursor.isWord_iff.mp returns
    have one := ended.passes_advance (by simp [word])
    exact leaving_sound (one.ended ended) one word h
  split at h
  · rename_i branches
    have word := Cursor.isWord_iff.mp branches
    have one := ended.passes_advance (by simp [word])
    exact branching_sound ih (one.ended ended) one word h
  split at h
  · obtain ⟨⟨⟨place, body⟩, g⟩, read, h⟩ := Parser.bind_eq_ok.mp h
    obtain ⟨rfl, rfl⟩ := Parser.ok_eq_ok.mp h
    obtain ⟨ts, filled, passes, inner⟩ := ih.block ended read
    exact ⟨ts, filled, passes, .block inner⟩
  split at h
  · rename_i empties
    have mark := Cursor.isMark_iff.mp empties
    have one := ended.passes_advance (by simp [mark])
    obtain ⟨rfl, rfl⟩ := Parser.ok_eq_ok.mp h
    refine ⟨_, by simp, one, ?_⟩
    rw [one.place_eq]
    exact .empty mark
  · exact stating_sound ended h

theorem block_succ (ih : StatementsSound fuel) (ended : c.Ended)
    (h : Parser.block (fuel + 1) c = .ok ((place, list), d)) :
    ∃ ts, ts ≠ [] ∧ Passes c d ts ∧ Forms (.block place list) ts d.current := by
  rw [Parser.block_succ] at h
  obtain ⟨opening, h⟩ := Parser.ite_error_eq_ok.mp h
  have opened := Cursor.isMark_iff.mp opening
  have one := ended.passes_advance (by simp [opened])
  obtain ⟨⟨body, b⟩, read, h⟩ := Parser.bind_eq_ok.mp h
  obtain ⟨ts, passes, inner⟩ := ih.blockBody (one.ended ended) read
  obtain ⟨closing, h⟩ := Parser.ite_error_eq_ok.mp h
  have closed : b.current.kind = .mark .closeBrace := Cursor.isMark_iff.mp closing
  have two := (passes.ended (one.ended ended)).passes_advance (by simp [closed])
  obtain ⟨⟨rfl, rfl⟩, rfl⟩ := Parser.ok_eq_ok.mp h
  have all : Passes c b.advance (c.current :: (ts ++ [b.current])) :=
    one.trans (passes.trans two)
  refine ⟨_, by simp, all, ?_⟩
  rw [all.place_eq]
  exact .braces opened inner closed

theorem blockBody_succ (ih : StatementsSound fuel) (ended : c.Ended)
    (h : Parser.blockBody (fuel + 1) c = .ok (list, d)) :
    ∃ ts, Passes c d ts ∧ Forms (.body list) ts d.current := by
  rw [Parser.blockBody_succ] at h
  split at h
  · obtain ⟨rfl, rfl⟩ := Parser.ok_eq_ok.mp h
    exact ⟨[], .refl c, .done⟩
  split at h
  · simp at h
  · obtain ⟨⟨first, b⟩, read, h⟩ := Parser.bind_eq_ok.mp h
    obtain ⟨⟨rest, g⟩, more, h⟩ := Parser.bind_eq_ok.mp h
    obtain ⟨rfl, rfl⟩ := Parser.ok_eq_ok.mp h
    obtain ⟨ts, -, passes, one⟩ := ih.statement ended read
    obtain ⟨us, further, others⟩ := ih.blockBody (passes.ended ended) more
    rw [further.head_eq] at one
    exact ⟨_, passes.trans further, .more one others⟩

end StatementsSound

theorem statementsSound (fuel : Nat) : StatementsSound fuel := by
  induction fuel with
  | zero =>
    constructor <;> intros <;> rename_i h <;>
      simp [Parser.statement, Parser.block, Parser.blockBody, Parser.fail] at h
  | succ fuel ih => exact ⟨ih.statement_succ, ih.block_succ, ih.blockBody_succ⟩

theorem body_sound (fuel : Nat) {c d : Cursor} {list : List (Stmt Place)} (ended : c.Ended)
    (h : Parser.body fuel c = .ok (list, d)) :
    ∃ ts, Passes c d ts ∧ d.current.kind = .finish ∧ Forms (.body list) ts d.current := by
  induction fuel generalizing c list with
  | zero => simp [Parser.body, Parser.fail] at h
  | succ fuel ih =>
    rw [Parser.body_succ] at h
    split at h
    · rename_i finished
      obtain ⟨rfl, rfl⟩ := Parser.ok_eq_ok.mp h
      exact ⟨[], .refl c, Cursor.atEnd_iff.mp finished, .done⟩
    · obtain ⟨⟨first, b⟩, read, h⟩ := Parser.bind_eq_ok.mp h
      obtain ⟨⟨rest, g⟩, more, h⟩ := Parser.bind_eq_ok.mp h
      obtain ⟨rfl, rfl⟩ := Parser.ok_eq_ok.mp h
      obtain ⟨ts, -, passes, one⟩ := (statementsSound fuel).statement ended read
      obtain ⟨us, further, finished, others⟩ := ih (passes.ended ended) more
      rw [further.head_eq] at one
      exact ⟨_, passes.trans further, finished, .more one others⟩

/-- The statements of a program are spelled by its tokens, all of them before the end. -/
theorem forms_of_program {inner : List Token} {last : Token} {list : List (Stmt Place)}
    (finish : last.kind = .finish) (live : ∀ t ∈ inner, t.kind ≠ .finish)
    (h : Parser.program (inner ++ [last]) = .ok list) : Forms (.body list) inner last := by
  obtain ⟨c, start, tokens⟩ : ∃ c, Cursor.ofTokens (inner ++ [last]) = c ∧
      c.tokens = inner ++ [last] := by
    refine ⟨_, rfl, ?_⟩
    cases inner <;> rfl
  have ended : c.Ended := ⟨inner, last, tokens, finish, live⟩
  rw [Parser.program_run, start, Parser.bind_eq_ok] at h
  obtain ⟨⟨body, d⟩, read, h⟩ := h
  simp only [Except.ok.injEq] at h
  subst h
  obtain ⟨ts, passes, finished, forms⟩ := body_sound _ ended read
  obtain ⟨rest, final, shape, -, others⟩ := passes.ended ended
  have alone : rest = [] := by
    cases rest with
    | nil => rfl
    | cons t rest =>
      simp only [Cursor.tokens, List.cons_append, List.cons.injEq] at shape
      exact absurd (shape.1 ▸ finished) (others t (by simp))
  subst alone
  have both : ts ++ [final] = inner ++ [last] := by
    rw [← tokens, passes.tokens, shape]
    rfl
  obtain ⟨rfl, same⟩ := List.append_inj' both rfl
  simp only [Cursor.tokens, List.nil_append, List.cons.injEq] at same shape
  rw [shape.1, same.1] at forms
  exact forms

end Arborist.Script

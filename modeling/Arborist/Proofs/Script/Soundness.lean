import Mathlib
import Arborist.Proofs.Script.Lookahead

/-!
Whatever the parsers accept is a phrase of the grammar. Each parser leaves the cursor behind the
tokens of the phrase, before a token that cannot belong to it. The proof is an induction on the
fuel: what holds of all parsers with some fuel holds of each with one unit more.
-/

namespace Arborist.Script

open Token (Kind)
open Cursor (Passes)

theorem Derives.lower {more least : Level} {e : Expr Place} {ts : List Token}
    (derives : Derives (.expr more e) ts) (le : least ≤ more) : Derives (.expr least e) ts := by
  induction le with
  | refl => exact derives
  | step _ ih => exact ih (.looser derives)

theorem Derives.ne_nil {least : Level} {e : Expr Place} {ts : List Token}
    (derives : Derives (.expr least e) ts) : ts ≠ [] := by
  generalize same : Phrase.expr least e = phrase at derives
  induction derives generalizing least e with
  | sequence _ _ _ ih => simp [ih rfl]
  | looser _ ih => exact ih rfl
  | _ => simp_all

theorem Derives.endsInUpdate {least : Level} {e : Expr Place} {ts : List Token}
    (derives : Derives (.expr least e) ts) (le : Level.member ≤ least) :
    endsInUpdate ts = false := by
  generalize same : Phrase.expr least e = phrase at derives
  induction derives generalizing least e with
  | looser _ ih =>
    cases same
    exact ih (Nat.le_succ_of_le le) rfl
  | name word | number word | string word | boolean word | null word =>
    simp [Script.endsInUpdate, word]
  | paren _ _ closing | array _ _ closing | bracket _ _ _ closing | call _ _ _ closing =>
    simp [Script.endsInUpdate, List.getLast?_cons, closing]
  | dot _ _ property => simp [Script.endsInUpdate, property]
  | binary notComma =>
    cases same
    exact absurd (lt_of_le_of_lt le (BinaryOperator.level_bounds notComma).2) (by decide)
  | _ => cases same <;> exact absurd le (by decide)

def Took (c d : Cursor) (least : Level) (e : Expr Place) : Prop :=
  ∃ ts, Passes c d ts ∧ Derives (.expr least e) ts ∧ Stops ts d.current least

def leftLevel (operator : BinaryOperator) : Level :=
  if operator = .power then Level.unary else Level.ofBinary operator

/-- An expression was read from `c` to `d` that can be the left operand of what stands there, while
operators of at least some precedence are taken. -/
structure Leads (c d : Cursor) (least : Nat) (left : Expr Place) (front : List Token) : Prop where
  passes : Passes c d front
  derives : Derives (.expr (least + 2) left) front
  ready : ∀ operator : BinaryOperator, operator ≠ .comma → d.current.kind = operator.kind →
    least ≤ operator.precedence → Derives (.expr (leftLevel operator) left) front
  stops : Stops front d.current Level.unary

theorem rightLeast_bounds {operator : BinaryOperator} (notComma : operator ≠ .comma) :
    1 ≤ Parser.rightLeast operator ∧ Parser.rightLeast operator ≤ 11 := by
  cases operator <;> first | exact absurd rfl notComma | decide

/-- What an operator leaves behind its right operand is looser than the operator itself, or as loose
where the operator goes on to the left. -/
theorem precedence_of_stops {operator other : BinaryOperator} (notComma : operator ≠ .comma)
    (otherNotComma : other ≠ .comma)
    (below : Level.ofBinary other < Parser.rightLeast operator + 2) :
    leftLevel other ≤ Level.ofBinary operator := by
  cases operator <;> cases other <;>
    first
      | exact absurd rfl notComma
      | exact absurd rfl otherNotComma
      | exact absurd below (by decide)
      | decide

theorem Derives.joined {ts us : List Token} {t : Token} {operator : BinaryOperator}
    {left right : Expr Place} (notComma : operator ≠ .comma)
    (first : Derives (.expr (leftLevel operator) left) ts) (mark : t.kind = operator.kind)
    (second : Derives (.expr (Parser.rightLeast operator + 2) right) us) :
    Derives (.expr (Level.ofBinary operator)
      (.binary (Place.over (ts ++ t :: us)) operator left right)) (ts ++ t :: us) := by
  by_cases isPower : operator = .power
  · subst isPower
    exact .power first mark second
  · rw [leftLevel, if_neg isPower] at first
    rw [Parser.rightLeast, if_neg isPower] at second
    rw [show operator.precedence + 1 + 2 = Level.ofBinary operator + 1 by
      rw [(BinaryOperator.level_eq notComma).1]] at second
    exact .binary notComma isPower first mark second

theorem Leads.binary {c d f : Cursor} {least : Nat} {left right : Expr Place}
    {front us : List Token} {operator : BinaryOperator} (leads : Leads c d least left front)
    (notComma : operator ≠ .comma) (mark : d.current.kind = operator.kind)
    (high : least ≤ operator.precedence) (passes : Passes c f (front ++ d.current :: us))
    (second : Derives (.expr (Parser.rightLeast operator + 2) right) us)
    (stops : Stops us f.current (Parser.rightLeast operator + 2)) :
    Leads c f least (.binary (Place.over (front ++ d.current :: us)) operator left right)
      (front ++ d.current :: us) := by
  have whole := Derives.joined notComma (leads.ready operator notComma mark high) mark second
  have ends : Stops (front ++ d.current :: us) f.current (Parser.rightLeast operator + 2) := by
    rw [stops_append (by simp), stops_cons second.ne_nil]
    exact stops
  refine ⟨passes, whole.lower ?_, ?_, ends.mono ?_⟩
  · rw [(BinaryOperator.level_eq notComma).1]
    exact Nat.add_le_add_right high 2
  · intro other otherNotComma otherMark _
    refine whole.lower (precedence_of_stops notComma otherNotComma (ends _ ?_))
    exact binds_operator otherNotComma otherMark
  · exact (Nat.add_le_add_right (rightLeast_bounds notComma).2 2).trans (by decide)

/-- What the parsers of expressions do with some fuel, where they succeed. -/
structure Sound (fuel : Nat) : Prop where
  expression {c d : Cursor} {e : Expr Place} (ended : c.Ended)
    (h : Parser.expression fuel c = .ok (e, d)) : Took c d Level.sequence e
  commaParts {c d : Cursor} {list : List (Expr Place)} {front : List Token} (ended : c.Ended)
    (stops : Stops front c.current Level.assignment)
    (h : Parser.commaParts fuel c = .ok (list, d)) :
    ∃ ts, Passes c d ts ∧ Derives (.parts list) ts ∧ Stops (front ++ ts) d.current Level.sequence
  assignment {c d : Cursor} {e : Expr Place} (ended : c.Ended)
    (h : Parser.assignment fuel c = .ok (e, d)) : Took c d Level.assignment e
  conditional {c d : Cursor} {e : Expr Place} (ended : c.Ended)
    (h : Parser.conditional fuel c = .ok (e, d)) : Took c d Level.conditional e
  binary {c d : Cursor} {least : Nat} {e : Expr Place} (ended : c.Ended) (pos : 1 ≤ least)
    (le : least ≤ 11) (h : Parser.binary fuel least c = .ok (e, d)) : Took c d (least + 2) e
  binaryFrom {c d f : Cursor} {least : Nat} {left e : Expr Place} {front : List Token}
    (ended : d.Ended) (pos : 1 ≤ least) (le : least ≤ 11) (leads : Leads c d least left front)
    (h : Parser.binaryFrom fuel c.current.start least left d = .ok (e, f)) : Took c f (least + 2) e
  unary {c d : Cursor} {e : Expr Place} (ended : c.Ended)
    (h : Parser.unary fuel c = .ok (e, d)) : Took c d Level.unary e
  chain {c d : Cursor} {e : Expr Place} (ended : c.Ended)
    (h : Parser.chain fuel c = .ok (e, d)) : Took c d Level.member e
  chainFrom {c d f : Cursor} {inner e : Expr Place} {front : List Token} (ended : d.Ended)
    (passes : Passes c d front) (derives : Derives (.expr Level.member inner) front)
    (h : Parser.chainFrom fuel c.current.start inner d = .ok (e, f)) : Took c f Level.member e
  items {c d : Cursor} {closing : Mark} {list : List (Expr Place)} (ended : c.Ended)
    (h : Parser.items fuel closing c = .ok (list, d)) :
    ∃ ts, Passes c d ts ∧ Derives (.items list) ts
  primary {c d : Cursor} {e : Expr Place} (ended : c.Ended)
    (h : Parser.primary fuel c = .ok (e, d)) :
    ∃ ts, Passes c d ts ∧ Derives (.expr Level.primary e) ts

theorem named_of_identifier {c d : Cursor} {e : Expr Place} (ended : c.Ended)
    (h : Parser.identifier c = .ok (e, d)) : ∃ t, Passes c d [t] ∧ Named e t := by
  rw [Parser.identifier_run] at h
  split at h
  · rename_i name word
    split at h
    · simp at h
    · rename_i free
      have one := ended.passes_advance (by simp [word])
      obtain ⟨rfl, rfl⟩ := Parser.ok_eq_ok.mp h
      rw [one.place_of_ne_nil (by simp)]
      exact ⟨_, one, .intro word (by simpa using free)⟩
  · simp at h

theorem update_of_chain {c d f : Cursor} {argument e : Expr Place} {ts : List Token}
    (ended : d.Ended) (passes : Passes c d ts) (derives : Derives (.expr Level.member argument) ts)
    (stops : Stops ts d.current Level.member)
    (h : (match d.updateOperator? with
      | some operator =>
        if d.current.newlineBefore then .ok (argument, d)
        else .ok (.update (d.advance.place c.current.start) operator false argument, d.advance)
      | none => .ok (argument, d) : Except Surprise (Expr Place × Cursor)) = .ok (e, f)) :
    Took c f Level.unary e := by
  cases found : d.updateOperator? with
  | none =>
    simp only [found, Except.ok.injEq, Prod.mk.injEq] at h
    obtain ⟨rfl, rfl⟩ := h
    refine ⟨ts, passes, derives.lower (by decide), Stops.unary (stops.of_succ fun binds => ?_)⟩
    obtain ⟨-, operator, mark⟩ := updated_of_binds binds
    simp [Cursor.updateOperator?_eq_some.mpr mark] at found
  | some operator =>
    have mark := Cursor.updateOperator?_eq_some.mp found
    simp only [found] at h
    split at h
    · rename_i otherLine
      obtain ⟨rfl, rfl⟩ := Parser.ok_eq_ok.mp h
      refine ⟨ts, passes, derives.lower (by decide), Stops.unary (stops.of_succ fun binds => ?_)⟩
      simp [(updated_of_binds binds).1] at otherLine
    · rename_i sameLine
      obtain ⟨rfl, rfl⟩ := Parser.ok_eq_ok.mp h
      have one := ended.passes_advance (by simp [mark, operator.kind_ne_finish])
      have all := passes.trans one
      refine ⟨_, all, ?_, ?_⟩
      · rw [all.place_of_ne_nil (by simp)]
        exact (Derives.updated derives mark (by simpa using sameLine)).lower (by decide)
      · refine (stops_of_endsInUpdate ?_).unary
        cases operator <;> simp [endsInUpdate, mark, UpdateOperator.kind]

namespace Sound

variable {fuel : Nat} {c d f : Cursor} {e inner left : Expr Place} {list : List (Expr Place)}
  {front : List Token}

theorem expression_succ (ih : Sound fuel) (ended : c.Ended)
    (h : Parser.expression (fuel + 1) c = .ok (e, d)) : Took c d Level.sequence e := by
  rw [Parser.expression_succ, Parser.bind_eq_ok] at h
  obtain ⟨⟨first, b⟩, read, h⟩ := h
  obtain ⟨ts, passes, derives, stops⟩ := ih.assignment ended read
  simp only [Cursor.isMark_iff] at h
  split at h
  · rename_i comma
    obtain ⟨⟨rest, g⟩, more, h⟩ := Parser.bind_eq_ok.mp h
    obtain ⟨rfl, rfl⟩ := Parser.ok_eq_ok.mp h
    obtain ⟨us, further, parts, stopsAll⟩ :=
      ih.commaParts (passes.ended ended) stops more
    have all := passes.trans further
    refine ⟨ts ++ us, all, ?_, stopsAll⟩
    rw [all.place_of_ne_nil (by simp [derives.ne_nil])]
    refine .sequence derives parts ?_
    rintro rfl
    -- without parts the cursor would still stand before the comma
    cases parts
    rw [further.eq_of_nil] at stopsAll
    exact absurd (stopsAll Level.sequence (by simp [binds, comma])) (by decide)
  · rename_i bare
    obtain ⟨rfl, rfl⟩ := Parser.ok_eq_ok.mp h
    exact ⟨ts, passes, derives.lower (by decide),
      stops.of_succ fun binds => bare (comma_of_binds binds)⟩

theorem commaParts_succ (ih : Sound fuel) (ended : c.Ended)
    (stops : Stops front c.current Level.assignment)
    (h : Parser.commaParts (fuel + 1) c = .ok (list, d)) :
    ∃ ts, Passes c d ts ∧ Derives (.parts list) ts ∧
      Stops (front ++ ts) d.current Level.sequence := by
  rw [Parser.commaParts_succ] at h
  simp only [Cursor.isMark_iff] at h
  split at h
  · rename_i comma
    obtain ⟨⟨part, b⟩, read, h⟩ := Parser.bind_eq_ok.mp h
    obtain ⟨⟨rest, g⟩, more, h⟩ := Parser.bind_eq_ok.mp h
    obtain ⟨rfl, rfl⟩ := Parser.ok_eq_ok.mp h
    have one := ended.passes_advance (by simp [comma])
    obtain ⟨ts, passes, derives, inner⟩ := ih.assignment (one.ended ended) read
    obtain ⟨us, further, parts, outer⟩ :=
      ih.commaParts (passes.ended (one.ended ended)) inner more
    refine ⟨c.current :: (ts ++ us), one.trans (passes.trans further),
      .moreParts comma derives parts, ?_⟩
    have filled : ts ++ us ≠ [] := by simp [derives.ne_nil]
    rw [stops_append (by simp), stops_cons filled]
    exact outer
  · rename_i bare
    obtain ⟨rfl, rfl⟩ := Parser.ok_eq_ok.mp h
    refine ⟨[], .refl c, .noParts, ?_⟩
    rw [List.append_nil]
    exact stops.of_succ fun binds => bare (comma_of_binds binds)

theorem assignment_succ (ih : Sound fuel) (ended : c.Ended)
    (h : Parser.assignment (fuel + 1) c = .ok (e, d)) : Took c d Level.assignment e := by
  rw [Parser.assignment_succ, Parser.bind_eq_ok] at h
  obtain ⟨⟨target, b⟩, read, h⟩ := h
  obtain ⟨ts, passes, derives, stops⟩ := ih.conditional ended read
  cases found : b.assignmentOperator? with
  | none =>
    simp only [found, Except.ok.injEq, Prod.mk.injEq] at h
    obtain ⟨rfl, rfl⟩ := h
    refine ⟨ts, passes, derives.lower (by decide), stops.of_succ fun binds => ?_⟩
    obtain ⟨operator, mark⟩ := assigned_of_binds binds
    simp [Cursor.assignmentOperator?_eq_some.mpr mark] at found
  | some operator =>
    simp only [found] at h
    have mark := Cursor.assignmentOperator?_eq_some.mp found
    obtain ⟨assignable, h⟩ := Parser.ite_error_eq_ok.mp h
    obtain ⟨⟨value, g⟩, more, h⟩ := Parser.bind_eq_ok.mp h
    obtain ⟨rfl, rfl⟩ := Parser.ok_eq_ok.mp h
    have one := (passes.ended ended).passes_advance (by simp [mark, operator.kind_ne_finish])
    obtain ⟨us, further, right, outer⟩ :=
      ih.assignment (one.ended (passes.ended ended)) more
    have all := passes.trans (one.trans further)
    refine ⟨_, all, ?_, ?_⟩
    · rw [all.place_of_ne_nil (by simp)]
      exact .assignment derives assignable mark right
    · rw [stops_append (by simp), List.singleton_append, stops_cons right.ne_nil]
      exact outer

theorem conditional_succ (ih : Sound fuel) (ended : c.Ended)
    (h : Parser.conditional (fuel + 1) c = .ok (e, d)) : Took c d Level.conditional e := by
  rw [Parser.conditional_succ, Parser.bind_eq_ok] at h
  obtain ⟨⟨test, b⟩, read, h⟩ := h
  obtain ⟨ts, passes, condition, stops⟩ := ih.binary ended (by decide) (by decide) read
  have here := passes.ended ended
  simp only [Cursor.isMark_iff] at h
  split at h
  · rename_i question
    obtain ⟨⟨consequent, g⟩, readPositive, h⟩ := Parser.bind_eq_ok.mp h
    have one := here.passes_advance (by simp [question])
    obtain ⟨us, further, positive, -⟩ := ih.assignment (one.ended here) readPositive
    have there := further.ended (one.ended here)
    obtain ⟨colon, h⟩ := Parser.ite_error_eq_ok.mp h
    obtain ⟨⟨alternate, i⟩, readNegative, h⟩ := Parser.bind_eq_ok.mp h
    obtain ⟨rfl, rfl⟩ := Parser.ok_eq_ok.mp h
    have two : Passes g g.advance [g.current] := there.passes_advance (by rw [colon]; decide)
    obtain ⟨vs, last, negative, outer⟩ := ih.assignment (two.ended there) readNegative
    have all := passes.trans (one.trans (further.trans (two.trans last)))
    refine ⟨_, all, ?_, ?_⟩
    · rw [all.place_of_ne_nil (by simp)]
      exact .conditional condition question positive colon negative
    · rw [stops_append (by simp), stops_append (by simp), stops_append (by simp),
        stops_append negative.ne_nil]
      exact outer.mono (by decide)
  · rename_i bare
    obtain ⟨rfl, rfl⟩ := Parser.ok_eq_ok.mp h
    exact ⟨ts, passes, condition.lower (by decide),
      stops.of_succ fun binds => bare (question_of_binds binds)⟩

theorem binary_succ (ih : Sound fuel) {least : Nat} (ended : c.Ended) (pos : 1 ≤ least)
    (le : least ≤ 11) (h : Parser.binary (fuel + 1) least c = .ok (e, d)) :
    Took c d (least + 2) e := by
  rw [Parser.binary_succ, Parser.bind_eq_ok] at h
  obtain ⟨⟨left, b⟩, read, h⟩ := h
  obtain ⟨ts, passes, derives, stops⟩ := ih.unary ended read
  refine ih.binaryFrom (passes.ended ended) pos le
    ⟨passes, derives.lower (Nat.add_le_add_right (le.trans (by decide)) 2), ?_, stops⟩ h
  intro operator notComma _ _
  refine derives.lower ?_
  unfold leftLevel
  split
  · exact le_refl _
  · exact (BinaryOperator.level_bounds notComma).2.le

theorem binaryFrom_succ (ih : Sound fuel) {least : Nat} (ended : d.Ended) (pos : 1 ≤ least)
    (le : least ≤ 11) (leads : Leads c d least left front)
    (h : Parser.binaryFrom (fuel + 1) c.current.start least left d = .ok (e, f)) :
    Took c f (least + 2) e := by
  rw [Parser.binaryFrom_succ] at h
  cases found : d.binaryOperator? with
  | none =>
    simp only [found, Except.ok.injEq, Prod.mk.injEq] at h
    obtain ⟨rfl, rfl⟩ := h
    refine ⟨front, leads.passes, leads.derives, stops_of_operators pos leads.stops ?_⟩
    intro operator notComma mark
    simp [Cursor.binaryOperator?_eq_some.mpr ⟨notComma, mark⟩] at found
  | some operator =>
    obtain ⟨notComma, mark⟩ := Cursor.binaryOperator?_eq_some.mp found
    simp only [found] at h
    split at h
    · rename_i low
      obtain ⟨rfl, rfl⟩ := Parser.ok_eq_ok.mp h
      refine ⟨front, leads.passes, leads.derives, stops_of_operators pos leads.stops ?_⟩
      intro other otherNotComma otherMark
      have same := Cursor.binaryOperator?_eq_some.mpr ⟨otherNotComma, otherMark⟩
      rw [found, Option.some.injEq] at same
      exact same ▸ low
    · rename_i high
      obtain ⟨⟨right, b⟩, read, h⟩ := Parser.bind_eq_ok.mp h
      have one := ended.passes_advance (by simp [mark, operator.kind_ne_finish])
      obtain ⟨us, further, second, stops⟩ := ih.binary (one.ended ended)
        (rightLeast_bounds notComma).1 (rightLeast_bounds notComma).2 read
      have all := leads.passes.trans (one.trans further)
      have whole := Leads.binary leads notComma mark (Nat.le_of_not_lt high) all second stops
      rw [all.place_of_ne_nil (by simp)] at h
      exact ih.binaryFrom (further.ended (one.ended ended)) pos le whole h

theorem operand (ih : Sound fuel) (ended : c.Ended) (further : c.current.kind ≠ .finish)
    (h : Parser.unary fuel c.advance = .ok (e, d)) :
    ∃ ts, Passes c d (c.current :: ts) ∧ Derives (.expr Level.unary e) ts ∧
      Stops (c.current :: ts) d.current Level.unary := by
  have one := ended.passes_advance further
  obtain ⟨ts, passes, derives, stops⟩ := ih.unary (one.ended ended) h
  exact ⟨ts, one.trans passes, derives, (stops_cons derives.ne_nil).2 stops⟩

theorem unary_succ (ih : Sound fuel) (ended : c.Ended)
    (h : Parser.unary (fuel + 1) c = .ok (e, d)) : Took c d Level.unary e := by
  rw [Parser.unary_succ] at h
  cases found : c.unaryOperator? with
  | some operator =>
    have mark := Cursor.unaryOperator?_eq_some.mp found
    simp only [found] at h
    obtain ⟨⟨argument, b⟩, read, h⟩ := Parser.bind_eq_ok.mp h
    obtain ⟨rfl, rfl⟩ := Parser.ok_eq_ok.mp h
    obtain ⟨ts, all, derives, stops⟩ :=
      ih.operand ended (by simp [mark, operator.kind_ne_finish]) read
    refine ⟨_, all, ?_, stops⟩
    rw [all.place_of_ne_nil (by simp)]
    exact .unary mark derives
  | none =>
  cases prior : c.updateOperator? with
  | some operator =>
    have mark := Cursor.updateOperator?_eq_some.mp prior
    simp only [found, prior] at h
    obtain ⟨⟨argument, b⟩, read, h⟩ := Parser.bind_eq_ok.mp h
    obtain ⟨rfl, rfl⟩ := Parser.ok_eq_ok.mp h
    obtain ⟨ts, all, derives, stops⟩ :=
      ih.operand ended (by simp [mark, operator.kind_ne_finish]) read
    refine ⟨_, all, ?_, stops⟩
    rw [all.place_of_ne_nil (by simp)]
    exact .updating mark derives
  | none =>
    simp only [found, prior] at h
    obtain ⟨⟨argument, b⟩, read, h⟩ := Parser.bind_eq_ok.mp h
    obtain ⟨ts, passes, derives, stops⟩ := ih.chain ended read
    exact update_of_chain (passes.ended ended) passes derives stops h

theorem chain_succ (ih : Sound fuel) (ended : c.Ended)
    (h : Parser.chain (fuel + 1) c = .ok (e, d)) : Took c d Level.member e := by
  rw [Parser.chain_succ, Parser.bind_eq_ok] at h
  obtain ⟨⟨inner, b⟩, read, h⟩ := h
  obtain ⟨ts, passes, derives⟩ := ih.primary ended read
  exact ih.chainFrom (passes.ended ended) passes (derives.lower (by decide)) h

theorem chainFrom_succ (ih : Sound fuel) (ended : d.Ended) (passes : Passes c d front)
    (derives : Derives (.expr Level.member inner) front)
    (h : Parser.chainFrom (fuel + 1) c.current.start inner d = .ok (e, f)) :
    Took c f Level.member e := by
  rw [Parser.chainFrom_succ] at h
  simp only [Cursor.isMark_iff] at h
  split at h
  · rename_i dot
    have one := ended.passes_advance (by simp [dot])
    have here := one.ended ended
    split at h
    · rename_i name word
      have two := here.passes_advance (by simp [word])
      have all := passes.trans (one.trans two)
      rw [all.place_of_ne_nil (by simp), two.place_of_ne_nil (by simp)] at h
      exact ih.chainFrom (two.ended here) all (.dot derives dot word) h
    · simp at h
  split at h
  · rename_i opening
    have one := ended.passes_advance (by simp [opening])
    have here := one.ended ended
    obtain ⟨⟨property, b⟩, read, h⟩ := Parser.bind_eq_ok.mp h
    obtain ⟨closing, h⟩ := Parser.ite_error_eq_ok.mp h
    obtain ⟨ts, further, index, -⟩ := ih.expression here read
    have two : Passes b b.advance [b.current] :=
      (further.ended here).passes_advance (by rw [closing]; decide)
    have all := passes.trans (one.trans (further.trans two))
    rw [all.place_of_ne_nil (by simp)] at h
    exact ih.chainFrom (two.ended (further.ended here)) all
      (.bracket derives opening index closing) h
  split at h
  · rename_i opening
    have one := ended.passes_advance (by simp [opening])
    have here := one.ended ended
    obtain ⟨⟨arguments, b⟩, read, h⟩ := Parser.bind_eq_ok.mp h
    obtain ⟨closing, h⟩ := Parser.ite_error_eq_ok.mp h
    obtain ⟨ts, further, list⟩ := ih.items here read
    have two : Passes b b.advance [b.current] :=
      (further.ended here).passes_advance (by rw [closing]; decide)
    have all := passes.trans (one.trans (further.trans two))
    rw [all.place_of_ne_nil (by simp)] at h
    exact ih.chainFrom (two.ended (further.ended here)) all (.call derives opening list closing) h
  · rename_i noDot noBracket noParen
    obtain ⟨rfl, rfl⟩ := Parser.ok_eq_ok.mp h
    refine ⟨front, passes, derives, (stops_primary _ _).of_succ fun binds => ?_⟩
    rcases chained_of_binds binds with mark | mark | mark
    · exact noDot mark
    · exact noBracket mark
    · exact noParen mark

theorem items_succ (ih : Sound fuel) {closing : Mark} (ended : c.Ended)
    (h : Parser.items (fuel + 1) closing c = .ok (list, d)) :
    ∃ ts, Passes c d ts ∧ Derives (.items list) ts := by
  rw [Parser.items_succ] at h
  split at h
  · obtain ⟨rfl, rfl⟩ := Parser.ok_eq_ok.mp h
    exact ⟨[], .refl c, .noItems⟩
  · obtain ⟨⟨item, b⟩, read, h⟩ := Parser.bind_eq_ok.mp h
    obtain ⟨ts, passes, derives, -⟩ := ih.assignment ended read
    simp only [Cursor.isMark_iff] at h
    split at h
    · rename_i comma
      obtain ⟨⟨rest, g⟩, more, h⟩ := Parser.bind_eq_ok.mp h
      obtain ⟨rfl, rfl⟩ := Parser.ok_eq_ok.mp h
      have here := passes.ended ended
      have one := here.passes_advance (by simp [comma])
      obtain ⟨us, further, others⟩ := ih.items (one.ended here) more
      exact ⟨_, passes.trans (one.trans further), .moreItems derives comma others⟩
    · obtain ⟨rfl, rfl⟩ := Parser.ok_eq_ok.mp h
      exact ⟨ts, passes, .oneItem derives⟩

theorem primary_succ (ih : Sound fuel) (ended : c.Ended)
    (h : Parser.primary (fuel + 1) c = .ok (e, d)) :
    ∃ ts, Passes c d ts ∧ Derives (.expr Level.primary e) ts := by
  rw [Parser.primary_succ] at h
  simp only [Cursor.isMark_iff] at h
  split at h
  · rename_i value raw literal
    have one := ended.passes_advance (by simp [literal])
    obtain ⟨rfl, rfl⟩ := Parser.ok_eq_ok.mp h
    rw [one.place_of_ne_nil (by simp)]
    exact ⟨_, one, .number literal⟩
  · rename_i value raw literal
    have one := ended.passes_advance (by simp [literal])
    obtain ⟨rfl, rfl⟩ := Parser.ok_eq_ok.mp h
    rw [one.place_of_ne_nil (by simp)]
    exact ⟨_, one, .string literal⟩
  · rename_i name word
    have one := ended.passes_advance (by simp [word])
    split at h
    · rename_i truth
      obtain ⟨rfl, rfl⟩ := Parser.ok_eq_ok.mp h
      rw [one.place_of_ne_nil (by simp)]
      refine ⟨_, one, .boolean ?_⟩
      rcases truth with rfl | rfl <;> exact word
    · split at h
      · rename_i isNull
        obtain ⟨rfl, rfl⟩ := Parser.ok_eq_ok.mp h
        rw [one.place_of_ne_nil (by simp)]
        exact ⟨_, one, .null (isNull ▸ word)⟩
      · obtain ⟨t, passes, named⟩ := named_of_identifier ended h
        cases named with
        | intro word free => exact ⟨_, passes, .name word free⟩
  · rename_i opening
    have one := ended.passes_advance (by simp [opening])
    have here := one.ended ended
    obtain ⟨⟨inner, b⟩, read, h⟩ := Parser.bind_eq_ok.mp h
    obtain ⟨closing, h⟩ := Parser.ite_error_eq_ok.mp h
    obtain ⟨rfl, rfl⟩ := Parser.ok_eq_ok.mp h
    obtain ⟨ts, further, derives, -⟩ := ih.expression here read
    have two : Passes b b.advance [b.current] :=
      (further.ended here).passes_advance (by rw [closing]; decide)
    exact ⟨_, one.trans (further.trans two), .paren opening derives closing⟩
  · rename_i opening
    have one := ended.passes_advance (by simp [opening])
    have here := one.ended ended
    obtain ⟨⟨elements, b⟩, read, h⟩ := Parser.bind_eq_ok.mp h
    obtain ⟨closing, h⟩ := Parser.ite_error_eq_ok.mp h
    obtain ⟨rfl, rfl⟩ := Parser.ok_eq_ok.mp h
    obtain ⟨ts, further, list⟩ := ih.items here read
    have two : Passes b b.advance [b.current] :=
      (further.ended here).passes_advance (by rw [closing]; decide)
    have all := one.trans (further.trans two)
    rw [all.place_of_ne_nil (by simp)]
    exact ⟨_, all, .array opening list closing⟩
  · simp at h

end Sound

theorem sound (fuel : Nat) : Sound fuel := by
  induction fuel with
  | zero =>
    constructor <;> intros <;> rename_i h <;>
      simp [Parser.expression, Parser.commaParts, Parser.assignment, Parser.conditional,
        Parser.binary, Parser.binaryFrom, Parser.unary, Parser.chain, Parser.chainFrom,
        Parser.items, Parser.primary, Parser.fail] at h
  | succ fuel ih =>
    exact ⟨ih.expression_succ, ih.commaParts_succ, ih.assignment_succ, ih.conditional_succ,
      ih.binary_succ, ih.binaryFrom_succ, ih.unary_succ, ih.chain_succ, ih.chainFrom_succ,
      ih.items_succ, ih.primary_succ⟩

end Arborist.Script

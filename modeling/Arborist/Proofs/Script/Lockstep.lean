import Mathlib
import Arborist.Proofs.Script.Moved
import Arborist.Proofs.Script.StatementSoundness

/-!
Parsers see the signs of tokens and nothing else, and no further than to the token where they stop.
So two runs over tokens of the same signs go in lockstep: they succeed together, with trees that
differ in their places alone, or both stop at the same token for the same reason. What comes behind
that token has no part in it, and neither has the fuel as long as there is enough for what is left.
-/

namespace Arborist

/-- What a parser sees of a token: its kind, and whether a line feed lies before it. -/
def Token.sign (t : Token) : Token.Kind × Bool := (t.kind, t.newlineBefore)

namespace Script

open Cursor (Passes)

/-- What is left of a place: whether there are parentheses around it. -/
def Place.blurred (place : Place) : Place := ⟨⟨0, 0⟩, place.paren.map fun _ => 0⟩

@[simp] theorem Place.blurred_place (c : Cursor) (start : Nat) :
    (c.place start).blurred = ⟨⟨0, 0⟩, none⟩ := rfl

abbrev Expr.blurred (e : Expr Place) : Expr Place := e.mapNote Place.blurred

abbrev Declarator.blurred (d : Declarator Place) : Declarator Place := d.mapNote Place.blurred

abbrev FunctionHead.blurred (head : FunctionHead Place) : FunctionHead Place :=
  head.mapNote Place.blurred

abbrev Stmt.blurred (s : Stmt Place) : Stmt Place := s.mapNote Place.blurred

namespace Cursor

/-- A cursor on tokens that are all different, the last of which alone is the end of the text. -/
structure Ready (c : Cursor) : Prop where
  ended : c.Ended
  apart : c.tokens.Nodup

theorem Passes.length_eq {c d : Cursor} {ts : List Token} (passes : Passes c d ts) :
    c.rest.length = ts.length + d.rest.length := by
  have lengths := congrArg List.length passes.tokens
  simp only [Cursor.tokens, List.length_append, List.length_cons] at lengths
  omega

theorem Passes.ready {c d : Cursor} {ts : List Token} (passes : Passes c d ts) (ready : c.Ready) :
    d.Ready := by
  refine ⟨passes.ended ready.ended, ?_⟩
  have apart := ready.apart
  rw [passes.tokens] at apart
  exact apart.of_append_right

theorem Ready.next {c : Cursor} (ready : c.Ready) (live : c.current.kind ≠ .finish) :
    c.current.kind ≠ .finish ∧ Passes c c.advance [c.current] ∧ c.advance.Ready ∧
      c.rest.length = 1 + c.advance.rest.length := by
  have one := ready.ended.passes_advance live
  exact ⟨live, one, one.ready ready, one.length_eq⟩

theorem Passes.unique {c d e : Cursor} {ts us : List Token} (first : Passes c d ts)
    (second : Passes c e us) (apart : c.tokens.Nodup) (same : d.current = e.current) :
    ts = us ∧ d = e := by
  have both : ts ++ d.current :: d.rest = us ++ e.current :: e.rest :=
    first.tokens.symm.trans second.tokens
  have fronts : ts = us := by
    rw [first.tokens, Cursor.tokens, List.nodup_middle, List.nodup_cons] at apart
    rw [← same] at both
    rcases List.append_eq_append_iff.1 both with ⟨middle, rfl, inner⟩ | ⟨middle, rfl, inner⟩
    all_goals
      cases middle with
      | nil => simp
      | cons t middle =>
        exfalso
        simp only [List.cons_append, List.cons.injEq] at inner
        refine apart.1 ?_
        simp [inner.1, inner.2]
  subst fronts
  refine ⟨rfl, ?_⟩
  obtain ⟨inner, previous⟩ := first
  obtain ⟨inner', previous'⟩ := second
  have tails := List.append_cancel_left both
  cases d
  cases e
  simp_all

section Signs

variable {c c' : Cursor} (same : c'.current.sign = c.current.sign)

include same

theorem kind_congr : c'.current.kind = c.current.kind := congrArg Prod.fst same

theorem newlineBefore_congr : c'.current.newlineBefore = c.current.newlineBefore :=
  congrArg Prod.snd same

theorem isMark_congr (m : Mark) : c'.isMark m = c.isMark m := by
  simp only [isMark, kind_congr same]

theorem isWord_congr (name : String) : c'.isWord name = c.isWord name := by
  simp only [isWord, kind_congr same]

theorem atWord_congr : c'.atWord = c.atWord := by
  simp only [atWord, kind_congr same]

theorem atEnd_congr : c'.atEnd = c.atEnd := by
  simp only [atEnd, kind_congr same]

theorem endsStatement_congr : c'.endsStatement = c.endsStatement := by
  simp only [endsStatement, atEnd_congr same, isMark_congr same, newlineBefore_congr same]

theorem declarationKind?_congr : c'.declarationKind? = c.declarationKind? := by
  simp only [declarationKind?, kind_congr same]

theorem binaryOperator?_congr : c'.binaryOperator? = c.binaryOperator? := by
  simp only [binaryOperator?, kind_congr same]

theorem unaryOperator?_congr : c'.unaryOperator? = c.unaryOperator? := by
  simp only [unaryOperator?, kind_congr same]

theorem updateOperator?_congr : c'.updateOperator? = c.updateOperator? := by
  simp only [updateOperator?, kind_congr same]

theorem assignmentOperator?_congr : c'.assignmentOperator? = c.assignmentOperator? := by
  simp only [assignmentOperator?, kind_congr same]

end Signs

/-- The second cursor stands behind the first by tokens with the signs of the given ones, at one with
the sign of the given next. -/
structure Trails (ts : List Token) (next : Token) (c d : Cursor) : Prop where
  passes : ∃ us, Passes c d us ∧ us.map Token.sign = ts.map Token.sign
  current : d.current.sign = next.sign
  ended : c.Ended

theorem Trails.length_eq {ts : List Token} {next : Token} {c d : Cursor}
    (trails : Trails ts next c d) : c.rest.length = ts.length + d.rest.length := by
  obtain ⟨us, passes, same⟩ := trails.passes
  have length : us.length = ts.length := by simpa using congrArg List.length same
  rw [passes.length_eq, length]

theorem Trails.head {ts : List Token} {c d c' d' : Cursor} (trails : Trails ts d.current c' d')
    (passes : Passes c d ts) : c'.current.sign = c.current.sign := by
  obtain ⟨us, behind, same⟩ := trails.passes
  rw [behind.head_eq, passes.head_eq]
  cases ts with
  | nil =>
    obtain rfl : us = [] := by simpa using same
    exact trails.current
  | cons t ts =>
    obtain ⟨u, rest, rfl⟩ : ∃ u rest, us = u :: rest := List.exists_cons_of_ne_nil (by
      rintro rfl
      simp at same)
    simpa using (List.cons.inj same).1

theorem Trails.split {ts us : List Token} {d f c' f' : Cursor}
    (trails : Trails (ts ++ us) f.current c' f') (passes : Passes d f us) :
    ∃ d', Trails ts d.current c' d' ∧ Trails us f.current d' f' := by
  obtain ⟨both, behind, same⟩ := trails.passes
  rw [List.map_append] at same
  obtain ⟨vs, ws, rfl, first, second⟩ := List.map_eq_append_iff.1 same
  obtain ⟨d', one, two⟩ := behind.split
  have rest : Trails us f.current d' f' :=
    ⟨⟨ws, two, second⟩, trails.current, one.ended trails.ended⟩
  exact ⟨d', ⟨⟨vs, one, first⟩, rest.head passes, trails.ended⟩, rest⟩

end Cursor

open Cursor (Ready Trails)

/-- A run from `c` that another follows wherever the tokens have the same signs up to where the run
ends, with sixteen units of fuel for every token that is left and a few more. -/
inductive Tracks {α β : Type} (blur : α → β) (cost : Nat) (c : Cursor)
    (other : Nat → Cursor → Except Surprise (α × Cursor)) : Except Surprise (α × Cursor) → Prop where
  | ok {a : α} {d : Cursor} {ts : List Token} (passes : Passes c d ts)
      (again : ∀ fuel c' d', Trails ts d.current c' d' → 16 * c'.rest.length + cost ≤ fuel →
        ∃ b, other fuel c' = .ok (b, d') ∧ blur b = blur a) : Tracks blur cost c other (.ok (a, d))
  | error {surprise : Surprise} {d : Cursor} {ts : List Token} (passes : Passes c d ts)
      (found : surprise.found = d.current)
      (again : ∀ fuel c' d', Trails ts d.current c' d' → 16 * c'.rest.length + cost ≤ fuel →
        other fuel c' = .error ⟨surprise.expected, d'.current⟩) :
      Tracks blur cost c other (.error surprise)

namespace Tracks

variable {α β γ δ : Type} {blur : α → β} {size : γ → δ} {cost more : Nat} {c d : Cursor}
  {ts : List Token} {other next : Nat → Cursor → Except Surprise (α × Cursor)}
  {run : Except Surprise (α × Cursor)} {a : α}

theorem again_of_ok (tracks : Tracks blur cost c other (.ok (a, d))) (ready : c.Ready)
    (passes : Passes c d ts) {fuel : Nat} {c' d' : Cursor} (trails : Trails ts d.current c' d')
    (fits : 16 * c'.rest.length + cost ≤ fuel) :
    ∃ b, other fuel c' = .ok (b, d') ∧ blur b = blur a := by
  cases tracks with
  | ok there again =>
    obtain ⟨rfl, -⟩ := passes.unique there ready.apart rfl
    exact again fuel c' d' trails fits

/-- As the tokens are different, a run can stop at one of them only. -/
theorem again_of_error {surprise : Surprise} (tracks : Tracks blur cost c other (.error surprise))
    (ready : c.Ready) (passes : Passes c d ts) (found : surprise.found = d.current) {fuel : Nat}
    {c' d' : Cursor} (trails : Trails ts d.current c' d')
    (fits : 16 * c'.rest.length + cost ≤ fuel) :
    other fuel c' = .error ⟨surprise.expected, d'.current⟩ := by
  cases tracks with
  | error there stands again =>
    obtain ⟨rfl, rfl⟩ := passes.unique there ready.apart (found.symm.trans stands)
    exact again fuel c' d' trails fits

theorem mono (tracks : Tracks blur cost c other run) (le : cost ≤ more) :
    Tracks blur more c other run := by
  cases tracks with
  | ok passes again =>
    exact .ok passes fun fuel c' d' trails fits => again fuel c' d' trails (by omega)
  | error passes found again =>
    exact .error passes found fun fuel c' d' trails fits => again fuel c' d' trails (by omega)

theorem congr (same : ∀ fuel c', c'.current.sign = c.current.sign → other fuel c' = next fuel c')
    (tracks : Tracks blur cost c next run) : Tracks blur cost c other run := by
  cases tracks with
  | ok passes again =>
    refine .ok passes fun fuel c' d' trails fits => ?_
    rw [same fuel c' (trails.head passes)]
    exact again fuel c' d' trails fits
  | error passes found again =>
    refine .error passes found fun fuel c' d' trails fits => ?_
    rw [same fuel c' (trails.head passes)]
    exact again fuel c' d' trails fits

theorem call (unfolds : ∀ fuel c', other (fuel + 1) c' = next fuel c')
    (tracks : Tracks blur cost c next run) : Tracks blur (cost + 1) c other run := by
  cases tracks with
  | ok passes again =>
    refine .ok passes fun fuel c' d' trails fits => ?_
    obtain ⟨less, rfl⟩ : ∃ less, fuel = less + 1 := ⟨fuel - 1, by omega⟩
    rw [unfolds]
    exact again less c' d' trails (by omega)
  | error passes found again =>
    refine .error passes found fun fuel c' d' trails fits => ?_
    obtain ⟨less, rfl⟩ : ∃ less, fuel = less + 1 := ⟨fuel - 1, by omega⟩
    rw [unfolds]
    exact again less c' d' trails (by omega)

theorem here {b : Nat → Cursor → α} (same : ∀ fuel c', blur (b fuel c') = blur a) :
    Tracks blur cost c (fun fuel c' => .ok (b fuel c', c')) (.ok (a, c)) := by
  refine .ok (.refl c) fun fuel c' d' trails _ => ?_
  obtain ⟨us, passes, none⟩ := trails.passes
  obtain rfl : us = [] := by simpa using none
  rw [passes.eq_of_nil]
  exact ⟨_, rfl, same fuel c'⟩

theorem stuck {expected : Expectation} :
    Tracks blur cost c (fun _ c' => .error ⟨expected, c'.current⟩)
      (.error ⟨expected, c.current⟩) := by
  refine .error (.refl c) rfl fun fuel c' d' trails _ => ?_
  obtain ⟨us, passes, none⟩ := trails.passes
  obtain rfl : us = [] := by simpa using none
  rw [passes.eq_of_nil]

theorem ite {look : Cursor → Bool}
    (agree : ∀ {c' : Cursor}, c'.current.sign = c.current.sign → look c' = look c)
    {first second : Nat → Cursor → Except Surprise (α × Cursor)}
    {one two : Except Surprise (α × Cursor)}
    (yes : look c = true → Tracks blur cost c first one)
    (no : look c = false → Tracks blur cost c second two) :
    Tracks blur cost c (fun fuel c' => if look c' then first fuel c' else second fuel c')
      (if look c then one else two) := by
  cases seen : look c with
  | true => exact congr (fun fuel c' same => by rw [agree same, seen, if_pos rfl]) (yes seen)
  | false =>
    exact congr (fun fuel c' same => by rw [agree same, seen, if_neg Bool.false_ne_true]) (no seen)

theorem past {step : Cursor → Nat → Cursor → Except Surprise (α × Cursor)} (ready : c.Ready)
    (live : c.current.kind ≠ .finish)
    (tracks : ∀ b, Tracks blur (cost + 16) c.advance (step b) run) :
    Tracks blur cost c (fun fuel c' => step c' fuel c'.advance) run := by
  have one := ready.ended.passes_advance live
  have onward : ∀ {ts : List Token} {d c' d' : Cursor}, Passes c.advance d ts →
      Trails ([c.current] ++ ts) d.current c' d' →
      Trails ts d.current c'.advance d' ∧ c'.rest.length = 1 + c'.advance.rest.length := by
    intro ts d c' d' passes trails
    obtain ⟨b, first, rest⟩ := trails.split passes
    have length : c'.rest.length = 1 + b.rest.length := first.length_eq
    obtain ⟨us, behind, same⟩ := first.passes
    obtain ⟨u, rfl⟩ : ∃ u, us = [u] :=
      List.length_eq_one_iff.1 (by simpa using congrArg List.length same)
    rw [behind.advance_eq]
    exact ⟨rest, length⟩
  cases tracks c with
  | ok passes _ =>
    refine .ok (one.trans passes) fun fuel c' d' trails fits => ?_
    obtain ⟨behind, length⟩ := onward passes trails
    exact (tracks c').again_of_ok (one.ready ready) passes behind (by omega)
  | error passes found _ =>
    refine .error (one.trans passes) found fun fuel c' d' trails fits => ?_
    obtain ⟨behind, length⟩ := onward passes trails
    exact (tracks c').again_of_error (one.ready ready) passes found behind (by omega)

theorem bind {p : Nat → Cursor → Except Surprise (α × Cursor)}
    {g : Nat → Cursor → α × Cursor → Except Surprise (γ × Cursor)}
    {f : α × Cursor → Except Surprise (γ × Cursor)} (ready : c.Ready)
    (first : Tracks blur cost c p run)
    (second : ∀ a d ts, run = .ok (a, d) → Passes c d ts → ∀ b c', blur b = blur a →
      Tracks size (cost + 16 * ts.length) d (fun fuel d' => g fuel c' (b, d')) (f (a, d))) :
    Tracks size cost c (fun fuel c' => p fuel c' >>= g fuel c') (run >>= f) := by
  cases first with
  | error passes found again =>
    refine .error passes found fun fuel c' d' trails fits => ?_
    rw [again fuel c' d' trails fits]
    rfl
  | @ok a d ts passes again =>
    have onward := second a d ts rfl passes
    rw [Parser.ok_bind]
    cases outcome : f (a, d) with
    | ok r =>
      obtain ⟨e, h⟩ := r
      rw [outcome] at onward
      obtain ⟨us, further⟩ : ∃ us, Passes d h us := by
        cases onward a c rfl with
        | ok further _ => exact ⟨_, further⟩
      refine .ok (passes.trans further) fun fuel c' h' trails fits => ?_
      obtain ⟨d', one, two⟩ := trails.split further
      obtain ⟨b, read, same⟩ := again fuel c' d' one fits
      have length := one.length_eq
      rw [read, Parser.ok_bind]
      exact (onward b c' same).again_of_ok (passes.ready ready) further two (by omega)
    | error surprise =>
      rw [outcome] at onward
      obtain ⟨h, us, further, found⟩ : ∃ h us, Passes d h us ∧ surprise.found = h.current := by
        cases onward a c rfl with
        | error further found _ => exact ⟨_, _, further, found⟩
      refine .error (passes.trans further) found fun fuel c' h' trails fits => ?_
      obtain ⟨d', one, two⟩ := trails.split further
      obtain ⟨b, read, same⟩ := again fuel c' d' one fits
      have length := one.length_eq
      rw [read, Parser.ok_bind]
      exact (onward b c' same).again_of_error (passes.ready ready) further found two (by omega)

theorem bindPast {q : Nat → Cursor → Except Surprise (α × Cursor)}
    {g : Nat → Cursor → α × Cursor → Except Surprise (γ × Cursor)}
    {f : α × Cursor → Except Surprise (γ × Cursor)} (ready : c.Ready)
    (live : c.current.kind ≠ .finish) (first : Tracks blur (cost + 16) c.advance q run)
    (second : ∀ a d ts, run = .ok (a, d) → Passes c.advance d ts → ∀ b c', blur b = blur a →
      Tracks size (cost + 16 + 16 * ts.length) d (fun fuel d' => g fuel c' (b, d')) (f (a, d))) :
    Tracks size cost c (fun fuel c' => q fuel c'.advance >>= g fuel c') (run >>= f) := by
  refine bind ready (past ready live fun _ => first) fun a d ts read passes b c' same => ?_
  subst read
  cases first with
  | @ok _ _ us behind _ =>
    obtain ⟨rfl, -⟩ :=
      passes.unique ((ready.ended.passes_advance live).trans behind) ready.apart rfl
    refine (second a d us rfl behind b c' same).mono ?_
    simp only [List.length_append, List.length_singleton]
    omega

theorem passed {b : Nat → Cursor → α} (ready : c.Ready) (live : c.current.kind ≠ .finish)
    (same : ∀ fuel c', blur (b fuel c') = blur a) :
    Tracks blur cost c (fun fuel c' => .ok (b fuel c', c'.advance)) (.ok (a, c.advance)) :=
  @past α β blur cost c _ (fun c' fuel d' => .ok (b fuel c', d')) ready live fun c' =>
    here fun fuel _ => same fuel c'

end Tracks

def Parser.naming (start : Nat) (inner : Expr Place) (fuel : Nat) (c : Cursor) :
    Except Surprise (Expr Place × Cursor) :=
  match c.current.kind with
  | .word name => chainFrom fuel start (.member (c.advance.place start) inner
      (.name (c.advance.place c.current.start) name) false) c.advance
  | _ => .error ⟨.propertyName, c.current⟩

theorem tracks_identifier {c : Cursor} {cost : Nat} (ready : c.Ready) :
    Tracks Expr.blurred cost c (fun _ => Parser.identifier) (Parser.identifier c) := by
  rw [Parser.identifier_run]
  refine .congr (fun n c' like => by rw [Parser.identifier_run, Cursor.kind_congr like]) ?_
  cases kind : c.current.kind with
  | word name =>
    dsimp only
    split
    · exact .stuck
    · exact .passed ready (by simp [kind]) fun _ _ => rfl
  | _ => exact .stuck

/-- What the parsers of expressions do with some fuel, seen from every other run. -/
structure Lockstep (fuel : Nat) : Prop where
  expression {c : Cursor} (ready : c.Ready) (fits : 16 * c.rest.length + 7 ≤ fuel) :
    Tracks Expr.blurred 7 c Parser.expression (Parser.expression fuel c)
  commaParts {c : Cursor} (ready : c.Ready) (fits : 16 * c.rest.length + 1 ≤ fuel) :
    Tracks (List.map Expr.blurred) 1 c Parser.commaParts (Parser.commaParts fuel c)
  assignment {c : Cursor} (ready : c.Ready) (fits : 16 * c.rest.length + 6 ≤ fuel) :
    Tracks Expr.blurred 6 c Parser.assignment (Parser.assignment fuel c)
  conditional {c : Cursor} (ready : c.Ready) (fits : 16 * c.rest.length + 5 ≤ fuel) :
    Tracks Expr.blurred 5 c Parser.conditional (Parser.conditional fuel c)
  binary {c : Cursor} {least : Nat} (ready : c.Ready) (fits : 16 * c.rest.length + 4 ≤ fuel) :
    Tracks Expr.blurred 4 c (fun n => Parser.binary n least) (Parser.binary fuel least c)
  binaryFrom {c : Cursor} {start other least : Nat} {left : Expr Place} {twin : Cursor → Expr Place}
    (ready : c.Ready) (fits : 16 * c.rest.length + 1 ≤ fuel)
    (same : ∀ c', (twin c').blurred = left.blurred) :
    Tracks Expr.blurred 1 c (fun n c' => Parser.binaryFrom n other least (twin c') c')
      (Parser.binaryFrom fuel start least left c)
  unary {c : Cursor} (ready : c.Ready) (fits : 16 * c.rest.length + 3 ≤ fuel) :
    Tracks Expr.blurred 3 c Parser.unary (Parser.unary fuel c)
  chain {c : Cursor} (ready : c.Ready) (fits : 16 * c.rest.length + 2 ≤ fuel) :
    Tracks Expr.blurred 2 c Parser.chain (Parser.chain fuel c)
  chainFrom {c : Cursor} {start other : Nat} {inner : Expr Place} {twin : Cursor → Expr Place}
    (ready : c.Ready) (fits : 16 * c.rest.length + 1 ≤ fuel)
    (same : ∀ c', (twin c').blurred = inner.blurred) :
    Tracks Expr.blurred 1 c (fun n c' => Parser.chainFrom n other (twin c') c')
      (Parser.chainFrom fuel start inner c)
  items {c : Cursor} {closing : Mark} (ready : c.Ready) (fits : 16 * c.rest.length + 7 ≤ fuel) :
    Tracks (List.map Expr.blurred) 7 c (fun n => Parser.items n closing)
      (Parser.items fuel closing c)
  primary {c : Cursor} (ready : c.Ready) (fits : 16 * c.rest.length + 1 ≤ fuel) :
    Tracks Expr.blurred 1 c Parser.primary (Parser.primary fuel c)

namespace Lockstep

variable {fuel : Nat} {c : Cursor}

theorem expression_succ (ih : Lockstep fuel) (ready : c.Ready)
    (fits : 16 * c.rest.length + 7 ≤ fuel + 1) :
    Tracks Expr.blurred 7 c Parser.expression (Parser.expression (fuel + 1) c) := by
  rw [Parser.expression_succ]
  refine .call Parser.expression_succ ?_
  refine .bind ready (ih.assignment ready (by omega)) fun e d ts _ passes twin c' same => ?_
  have length := passes.length_eq
  refine .ite (Cursor.isMark_congr · .comma) (fun comma => ?_) fun _ => .here fun _ _ => same
  have there := passes.ready ready
  refine .bind there ((ih.commaParts there (by omega)).mono (by omega))
    fun list f us _ _ twins d' all => ?_
  exact .here fun _ _ => by simp [Expr.mapNote, same, all]

theorem commaParts_succ (ih : Lockstep fuel) (ready : c.Ready)
    (fits : 16 * c.rest.length + 1 ≤ fuel + 1) :
    Tracks (List.map Expr.blurred) 1 c Parser.commaParts (Parser.commaParts (fuel + 1) c) := by
  rw [Parser.commaParts_succ]
  refine .call Parser.commaParts_succ ?_
  refine .ite (Cursor.isMark_congr · .comma) (fun comma => ?_) fun _ => .here fun _ _ => rfl
  obtain ⟨live, one, behind, length⟩ := ready.next (by simp [Cursor.isMark_iff.1 comma])
  refine .bindPast ready live ((ih.assignment behind (by omega)).mono (by omega))
    fun e d ts _ passes twin c' same => ?_
  have there := passes.ready behind
  have shorter := passes.length_eq
  refine .bind there ((ih.commaParts there (by omega)).mono (by omega))
    fun list f us _ _ twins d' all => ?_
  exact .here fun _ _ => by simp [same, all]

theorem assignment_succ (ih : Lockstep fuel) (ready : c.Ready)
    (fits : 16 * c.rest.length + 6 ≤ fuel + 1) :
    Tracks Expr.blurred 6 c Parser.assignment (Parser.assignment (fuel + 1) c) := by
  rw [Parser.assignment_succ]
  refine .call Parser.assignment_succ ?_
  refine .bind ready (ih.conditional ready (by omega)) fun e d ts _ passes twin c' same => ?_
  have there := passes.ready ready
  have shorter := passes.length_eq
  have assignable : twin.isAssignable = e.isAssignable := by
    simpa using congrArg Expr.isAssignable same
  cases found : d.assignmentOperator? with
  | none =>
    refine .congr (fun n d' like => by
      simp only [Cursor.assignmentOperator?_congr like, found]; rfl) ?_
    exact .here fun _ _ => same
  | some operator =>
    refine .congr (fun n d' like => by
      simp only [Cursor.assignmentOperator?_congr like, found]; rfl) ?_
    dsimp only
    rw [assignable]
    split
    · obtain ⟨live, -, behind, length⟩ := there.next (by
        rw [Cursor.assignmentOperator?_eq_some.1 found]
        exact operator.kind_ne_finish)
      refine .bindPast there live ((ih.assignment behind (by omega)).mono (by omega))
        fun value f us _ _ other d' equal => ?_
      exact .here fun _ _ => by simp [Expr.mapNote, same, equal]
    · exact .stuck

theorem conditional_succ (ih : Lockstep fuel) (ready : c.Ready)
    (fits : 16 * c.rest.length + 5 ≤ fuel + 1) :
    Tracks Expr.blurred 5 c Parser.conditional (Parser.conditional (fuel + 1) c) := by
  rw [Parser.conditional_succ]
  refine .call Parser.conditional_succ ?_
  refine .bind ready (ih.binary ready (by omega)) fun e d ts _ passes twin c' same => ?_
  have there := passes.ready ready
  have shorter := passes.length_eq
  refine .ite (Cursor.isMark_congr · .question) (fun question => ?_) fun _ => .here fun _ _ => same
  obtain ⟨live, -, behind, length⟩ := there.next (by simp [Cursor.isMark_iff.1 question])
  refine .bindPast there live ((ih.assignment behind (by omega)).mono (by omega))
    fun first f us _ further other d' equal => ?_
  have far := further.ready behind
  have less := further.length_eq
  refine .ite (Cursor.isMark_congr · .colon) (fun colon => ?_) fun _ => .stuck
  obtain ⟨more, -, beyond, last⟩ := far.next (by simp [Cursor.isMark_iff.1 colon])
  refine .bindPast far more ((ih.assignment beyond (by omega)).mono (by omega))
    fun second g vs _ _ another f' alike => ?_
  exact .here fun _ _ => by simp [Expr.mapNote, same, equal, alike]

theorem binary_succ (ih : Lockstep fuel) {least : Nat} (ready : c.Ready)
    (fits : 16 * c.rest.length + 4 ≤ fuel + 1) :
    Tracks Expr.blurred 4 c (fun n => Parser.binary n least) (Parser.binary (fuel + 1) least c) := by
  rw [Parser.binary_succ]
  refine .call (fun n c' => Parser.binary_succ n least c') ?_
  refine .bind ready (ih.unary ready (by omega)) fun e d ts _ passes twin c' same => ?_
  have shorter := passes.length_eq
  exact (ih.binaryFrom (passes.ready ready) (by omega) fun _ => same).mono (by omega)

theorem binaryFrom_succ (ih : Lockstep fuel) {start other least : Nat} {left : Expr Place}
    {twin : Cursor → Expr Place} (ready : c.Ready) (fits : 16 * c.rest.length + 1 ≤ fuel + 1)
    (same : ∀ c', (twin c').blurred = left.blurred) :
    Tracks Expr.blurred 1 c (fun n c' => Parser.binaryFrom n other least (twin c') c')
      (Parser.binaryFrom (fuel + 1) start least left c) := by
  rw [Parser.binaryFrom_succ]
  refine .call (fun n c' => Parser.binaryFrom_succ n other least (twin c') c') ?_
  cases found : c.binaryOperator? with
  | none =>
    refine .congr (fun n c' like => by simp only [Cursor.binaryOperator?_congr like, found]; rfl) ?_
    exact .here fun _ => same
  | some operator =>
    refine .congr (fun n c' like => by simp only [Cursor.binaryOperator?_congr like, found]; rfl) ?_
    dsimp only
    split
    · exact .here fun _ => same
    · obtain ⟨live, -, behind, length⟩ := ready.next (by
        rw [(Cursor.binaryOperator?_eq_some.1 found).2]
        exact operator.kind_ne_finish)
      refine .bindPast ready live ((ih.binary behind (by omega)).mono (by omega))
        fun right d ts _ passes another c' equal => ?_
      have shorter := passes.length_eq
      refine (ih.binaryFrom (passes.ready behind) (by omega) fun d' => ?_).mono (by omega)
      simp [Expr.mapNote, same, equal]

theorem unary_succ (ih : Lockstep fuel) (ready : c.Ready)
    (fits : 16 * c.rest.length + 3 ≤ fuel + 1) :
    Tracks Expr.blurred 3 c Parser.unary (Parser.unary (fuel + 1) c) := by
  rw [Parser.unary_succ]
  refine .call Parser.unary_succ ?_
  refine .congr (fun n c' like => by
    rw [Cursor.unaryOperator?_congr like, Cursor.updateOperator?_congr like]) ?_
  cases first : c.unaryOperator? with
  | some operator =>
    obtain ⟨live, -, behind, length⟩ := ready.next (by
      rw [Cursor.unaryOperator?_eq_some.1 first]
      exact operator.kind_ne_finish)
    refine .bindPast ready live ((ih.unary behind (by omega)).mono (by omega))
      fun e d ts _ passes twin c' same => ?_
    exact .here fun _ _ => by simp [Expr.mapNote, same]
  | none =>
    cases second : c.updateOperator? with
    | some operator =>
      obtain ⟨live, -, behind, length⟩ := ready.next (by
        rw [Cursor.updateOperator?_eq_some.1 second]
        exact operator.kind_ne_finish)
      refine .bindPast ready live ((ih.unary behind (by omega)).mono (by omega))
        fun e d ts _ passes twin c' same => ?_
      exact .here fun _ _ => by simp [Expr.mapNote, same]
    | none =>
      refine .bind ready (ih.chain ready (by omega)) fun e d ts _ passes twin c' same => ?_
      have there := passes.ready ready
      refine .congr (fun n d' like => by
        simp only [Cursor.updateOperator?_congr like, Cursor.newlineBefore_congr like]; rfl) ?_
      cases found : d.updateOperator? with
      | none => exact .here fun _ _ => same
      | some operator =>
        dsimp only
        split
        · exact .here fun _ _ => same
        · obtain ⟨live, -, -, -⟩ := there.next (by
            rw [Cursor.updateOperator?_eq_some.1 found]
            exact operator.kind_ne_finish)
          exact .passed there live fun _ _ => by simp [Expr.mapNote, same]

theorem chain_succ (ih : Lockstep fuel) (ready : c.Ready)
    (fits : 16 * c.rest.length + 2 ≤ fuel + 1) :
    Tracks Expr.blurred 2 c Parser.chain (Parser.chain (fuel + 1) c) := by
  rw [Parser.chain_succ]
  refine .call Parser.chain_succ ?_
  refine .bind ready (ih.primary ready (by omega)) fun e d ts _ passes twin c' same => ?_
  have shorter := passes.length_eq
  exact (ih.chainFrom (passes.ready ready) (by omega) fun _ => same).mono (by omega)

theorem chainFrom_succ (ih : Lockstep fuel) {start other : Nat} {inner : Expr Place}
    {twin : Cursor → Expr Place} (ready : c.Ready) (fits : 16 * c.rest.length + 1 ≤ fuel + 1)
    (same : ∀ c', (twin c').blurred = inner.blurred) :
    Tracks Expr.blurred 1 c (fun n c' => Parser.chainFrom n other (twin c') c')
      (Parser.chainFrom (fuel + 1) start inner c) := by
  rw [Parser.chainFrom_succ]
  refine .call (fun n c' => Parser.chainFrom_succ n other (twin c') c') ?_
  refine .ite (Cursor.isMark_congr · .dot) (fun dot => ?_) fun _ => ?_
  · obtain ⟨live, -, behind, length⟩ := ready.next (by simp [Cursor.isMark_iff.1 dot])
    change Tracks _ _ _ (fun n c' => Parser.naming other (twin c') n c'.advance) _
    refine .past ready live fun c' => .congr (fun n d' like => by
      simp only [Parser.naming, Cursor.kind_congr like]; rfl) ?_
    cases word : c.advance.current.kind with
    | word name =>
      obtain ⟨more, -, beyond, last⟩ := behind.next (by simp [word])
      refine .past behind more fun d' =>
        (ih.chainFrom beyond (by omega) fun _ => ?_).mono (by omega)
      simp [Expr.mapNote, same]
    | _ => exact .stuck
  refine .ite (Cursor.isMark_congr · .openBracket) (fun opening => ?_) fun _ => ?_
  · obtain ⟨live, -, behind, length⟩ := ready.next (by simp [Cursor.isMark_iff.1 opening])
    refine .bindPast ready live ((ih.expression behind (by omega)).mono (by omega))
      fun property d ts _ passes another c' equal => ?_
    have there := passes.ready behind
    have shorter := passes.length_eq
    refine .ite (Cursor.isMark_congr · .closeBracket) (fun closing => ?_) fun _ => .stuck
    obtain ⟨more, -, beyond, last⟩ := there.next (by simp [Cursor.isMark_iff.1 closing])
    refine .past there more fun d' => (ih.chainFrom beyond (by omega) fun _ => ?_).mono (by omega)
    simp [Expr.mapNote, same, equal]
  refine .ite (Cursor.isMark_congr · .openParen) (fun opening => ?_) fun _ => .here fun _ => same
  obtain ⟨live, -, behind, length⟩ := ready.next (by simp [Cursor.isMark_iff.1 opening])
  refine .bindPast ready live ((ih.items behind (by omega)).mono (by omega))
    fun list d ts _ passes twins c' all => ?_
  have there := passes.ready behind
  have shorter := passes.length_eq
  refine .ite (Cursor.isMark_congr · .closeParen) (fun closing => ?_) fun _ => .stuck
  obtain ⟨more, -, beyond, last⟩ := there.next (by simp [Cursor.isMark_iff.1 closing])
  refine .past there more fun d' => (ih.chainFrom beyond (by omega) fun _ => ?_).mono (by omega)
  simp [Expr.mapNote, same, all]

theorem items_succ (ih : Lockstep fuel) {closing : Mark} (ready : c.Ready)
    (fits : 16 * c.rest.length + 7 ≤ fuel + 1) :
    Tracks (List.map Expr.blurred) 7 c (fun n => Parser.items n closing)
      (Parser.items (fuel + 1) closing c) := by
  rw [Parser.items_succ]
  refine .call (fun n c' => Parser.items_succ n closing c') ?_
  refine .ite (Cursor.isMark_congr · closing) (fun _ => .here fun _ _ => rfl) fun _ => ?_
  refine .bind ready (ih.assignment ready (by omega)) fun e d ts _ passes twin c' same => ?_
  have there := passes.ready ready
  have shorter := passes.length_eq
  refine .ite (Cursor.isMark_congr · .comma) (fun comma => ?_) fun _ => .here fun _ _ => ?_
  · obtain ⟨live, -, behind, length⟩ := there.next (by simp [Cursor.isMark_iff.1 comma])
    refine .bindPast there live ((ih.items behind (by omega)).mono (by omega))
      fun list f us _ _ twins d' all => ?_
    exact .here fun _ _ => by simp [same, all]
  · simp [same]

theorem primary_succ (ih : Lockstep fuel) (ready : c.Ready)
    (fits : 16 * c.rest.length + 1 ≤ fuel + 1) :
    Tracks Expr.blurred 1 c Parser.primary (Parser.primary (fuel + 1) c) := by
  rw [Parser.primary_succ]
  refine .call Parser.primary_succ ?_
  refine .congr (fun n c' like => by rw [Cursor.kind_congr like]) ?_
  cases kind : c.current.kind with
  | number | string => exact .passed ready (by simp [kind]) fun _ _ => rfl
  | finish => exact .stuck
  | word name =>
    have live : c.current.kind ≠ .finish := by simp [kind]
    dsimp only
    split
    · exact .passed ready live fun _ _ => rfl
    split
    · exact .passed ready live fun _ _ => rfl
    · exact tracks_identifier ready
  | mark m =>
    obtain ⟨live, -, behind, length⟩ := ready.next (by simp [kind])
    cases m with
    | openParen =>
      refine .bindPast ready live ((ih.expression behind (by omega)).mono (by omega))
        fun e d ts _ passes twin c' same => ?_
      refine .ite (Cursor.isMark_congr · .closeParen) (fun closing => ?_) fun _ => .stuck
      refine .passed (passes.ready behind) (by simp [Cursor.isMark_iff.1 closing]) fun _ _ => ?_
      simp only [Expr.blurred, Expr.mapNote_withNote] at same ⊢
      rw [same]
      rfl
    | openBracket =>
      refine .bindPast ready live ((ih.items behind (by omega)).mono (by omega))
        fun list d ts _ passes twins c' all => ?_
      refine .ite (Cursor.isMark_congr · .closeBracket) (fun closing => ?_) fun _ => .stuck
      refine .passed (passes.ready behind) (by simp [Cursor.isMark_iff.1 closing]) fun _ _ => ?_
      simpa [Expr.mapNote] using congrArg (List.map some) all
    | _ => exact .stuck

end Lockstep

theorem lockstep (fuel : Nat) : Lockstep fuel := by
  induction fuel with
  | zero => constructor <;> intros <;> omega
  | succ fuel ih =>
    exact ⟨ih.expression_succ, ih.commaParts_succ, ih.assignment_succ, ih.conditional_succ,
      ih.binary_succ, ih.binaryFrom_succ, ih.unary_succ, ih.chain_succ, ih.chainFrom_succ,
      ih.items_succ, ih.primary_succ⟩

end Script

end Arborist

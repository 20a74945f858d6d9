import Mathlib
import Arborist.Proofs.Script.Lockstep
import Arborist.Proofs.Script.Machine

/-!
An index and a cursor. A machine at an index of the tokens sees what a parser sees at the cursor
that stands there, and where the parser goes on the machine does. A loop goes on for as long as the
parser calls itself, and its rounds are enough if every one of them takes tokens.
-/

namespace Arborist.Script

open Cursor (Passes)

namespace Cursor

def alone (c : Cursor) : Cursor := ⟨0, c.current, []⟩

section Alone

variable (c : Cursor)

@[simp] theorem alone_current : c.alone.current = c.current := rfl

@[simp] theorem alone_isMark (m : Mark) : c.alone.isMark m = c.isMark m := rfl

@[simp] theorem alone_isWord (name : String) : c.alone.isWord name = c.isWord name := rfl

@[simp] theorem alone_atWord : c.alone.atWord = c.atWord := rfl

@[simp] theorem alone_endsStatement : c.alone.endsStatement = c.endsStatement := rfl

@[simp] theorem alone_declarationKind? : c.alone.declarationKind? = c.declarationKind? := rfl

@[simp] theorem alone_binaryOperator? : c.alone.binaryOperator? = c.binaryOperator? := rfl

@[simp] theorem alone_unaryOperator? : c.alone.unaryOperator? = c.unaryOperator? := rfl

@[simp] theorem alone_updateOperator? : c.alone.updateOperator? = c.updateOperator? := rfl

@[simp] theorem alone_assignmentOperator? :
    c.alone.assignmentOperator? = c.assignmentOperator? := rfl

end Alone

def Advances (c d : Cursor) : Prop := ∃ ts, ts ≠ [] ∧ Passes c d ts

theorem Advances.shorter {c d : Cursor} (advances : Advances c d) :
    d.rest.length < c.rest.length := by
  obtain ⟨ts, filled, passes⟩ := advances
  have := List.length_pos_iff.2 filled
  have := passes.length_eq
  omega

end Cursor

theorem Machine.bind_ok {α β : Type} {p : Machine α} {i j : Nat} {a : α} (run : p i = .ok (a, j))
    (f : α → Machine β) : (p >>= f) i = f a j := by
  change (p i >>= fun r => f r.1 r.2) = _
  rw [run]
  rfl

/-- The cursor stands at the index of the tokens, the last of which is the end of the text. -/
structure Points (tokens : List Token) (i : Nat) (c : Cursor) : Prop where
  filled : tokens ≠ []
  ended : c.Ended
  passes : ∃ front, Passes (Cursor.ofTokens tokens) c front ∧ front.length = i

namespace Points

variable {tokens ts : List Token} {i : Nat} {c d : Cursor}

theorem split (stands : Points tokens i c) :
    ∃ front, tokens = front ++ c.current :: c.rest ∧ front.length = i ∧
      c.previousEnd = stopOf front := by
  obtain ⟨filled, -, front, passes, length⟩ := stands
  obtain ⟨t, rest, rfl⟩ := List.exists_cons_of_ne_nil filled
  exact ⟨front, passes.tokens, length, passes.previousEnd⟩

theorem length_eq (stands : Points tokens i c) : i + c.rest.length + 1 = tokens.length := by
  obtain ⟨front, rfl, rfl, -⟩ := stands.split
  simp [Nat.add_assoc]

theorem rounds (stands : Points tokens i c) : c.rest.length < tokens.length := by
  have := stands.length_eq
  omega

theorem getElem?_eq (stands : Points tokens i c) : tokens[i]? = some c.current := by
  obtain ⟨front, rfl, rfl, -⟩ := stands.split
  simp

theorem passed (stands : Points tokens i c) (passes : Passes c d ts) :
    Points tokens (i + ts.length) d := by
  obtain ⟨filled, ended, front, before, rfl⟩ := stands
  exact ⟨filled, passes.ended ended, _, before.trans passes, List.length_append⟩

theorem peek_run (stands : Points tokens i c) : Machine.peek tokens i = .ok (c.current, i) := by
  have length := stands.length_eq
  have here : min (i + 0) (tokens.length - 1) = i := by omega
  change Machine.lookup tokens (min (i + 0) (tokens.length - 1)) i = _
  rw [here, Machine.lookup, stands.getElem?_eq]
  rfl

theorem peekNext_run (stands : Points tokens i c) :
    Machine.peekAt tokens 1 i = .ok (c.rest.headD c.current, i) := by
  have found : tokens[min (i + 1) (tokens.length - 1)]? = some (c.rest.headD c.current) := by
    obtain ⟨front, rfl, rfl, -⟩ := stands.split
    cases c.rest with
    | nil => simp
    | cons next rest =>
      have inner : min (front.length + 1) ((front ++ c.current :: next :: rest).length - 1) =
          front.length + 1 := by simp
      rw [inner]
      simp
  change Machine.lookup tokens (min (i + 1) (tokens.length - 1)) i = _
  rw [Machine.lookup, found]
  rfl

theorem sight_run (stands : Points tokens i c) : Machine.sight tokens i = .ok (c.alone, i) := by
  rw [Machine.sight, Machine.bind_ok stands.peek_run]
  rfl

theorem fail_run {α : Type} (stands : Points tokens i c) (expected : Expectation) :
    (Machine.fail tokens expected : Machine α) i = .error (.surprise ⟨expected, c.current⟩) := by
  rw [Machine.fail, Machine.bind_ok stands.peek_run]
  rfl

theorem previousEnd_run (stands : Points tokens i c) :
    Machine.previousEnd tokens i = .ok (c.previousEnd, i) := by
  obtain ⟨front, same, rfl, previousEnd⟩ := stands.split
  cases front using List.reverseRecOn with
  | nil =>
    rw [previousEnd]
    rfl
  | append_singleton front t =>
    have found : tokens[(front ++ [t]).length - 1]? = some t := by simp [same]
    have some : (front ++ [t]).length ≠ 0 := by simp
    have ends : c.previousEnd = t.stop := by simp [previousEnd, stopOf]
    change (if (front ++ [t]).length = 0 then pure 0 else
      Machine.lookup tokens ((front ++ [t]).length - 1) >>= fun t => pure t.stop :
        Machine Nat) _ = _
    rw [if_neg some, Machine.lookup, found, ends]
    rfl

theorem placeFrom_run (stands : Points tokens i c) (start : Nat) :
    Machine.placeFrom tokens start i = .ok (c.place start, i) := by
  rw [Machine.placeFrom, Machine.bind_ok stands.previousEnd_run]
  rfl

theorem advance_run (stands : Points tokens i c) :
    ∃ j ts, Machine.advance tokens i = .ok ((), j) ∧ Points tokens j c.advance ∧
      Passes c c.advance ts := by
  have length := stands.length_eq
  have moves : Machine.advance tokens i =
      .ok ((), if i < tokens.length - 1 then i + 1 else i) := by
    rw [Machine.advance, Machine.bind_ok stands.peek_run]
    change (if i < tokens.length - 1 then set (i + 1) else pure () : Machine Unit) i = _
    split <;> rfl
  cases ahead : c.rest with
  | nil =>
    have stays : c.advance = c := by simp [Cursor.advance, ahead]
    have last : ¬ i < tokens.length - 1 := by
      rw [ahead, List.length_nil] at length
      omega
    rw [if_neg last] at moves
    exact ⟨i, [], moves, stays.symm ▸ stands, stays.symm ▸ .refl c⟩
  | cons next rest =>
    have one : Passes c c.advance [c.current] := by
      constructor <;> simp [Cursor.tokens, Cursor.advance, ahead]
    have inner : i < tokens.length - 1 := by
      rw [ahead, List.length_cons] at length
      omega
    rw [if_pos inner] at moves
    exact ⟨i + 1, _, moves, stands.passed one, one⟩

end Points

/-- The outcome of a machine beside that of a parser: both stop at the same token, or what the
machine leaves is good beside what the parser does. -/
inductive Matches {α β : Type} (good : α → Nat → Except Surprise (β × Cursor) → Prop) :
    Except Halt (α × Nat) → Except Surprise (β × Cursor) → Prop where
  | ok {a : α} {i : Nat} {run : Except Surprise (β × Cursor)} (leaves : good a i run) :
      Matches good (.ok (a, i)) run
  | error {s : Surprise} : Matches good (.error (.surprise s)) (.error s)

/-- The machine has the parser's answer, at the index where the parser's cursor stands. -/
def Arrives {α : Type} (tokens : List Token) (a : α) (i : Nat)
    (run : Except Surprise (α × Cursor)) : Prop := ∃ c, Points tokens i c ∧ run = .ok (a, c)

/-- After a round of a loop the parser goes on as from the new state, with fewer tokens left. -/
def Turns {σ α : Type} (tokens : List Token) (left : Nat)
    (again : σ → Cursor → Except Surprise (α × Cursor)) :
    σ ⊕ α → Nat → Except Surprise (α × Cursor) → Prop
  | .inl state, i, run => ∃ c, Points tokens i c ∧ c.rest.length < left ∧ run = again state c
  | .inr a, i, run => Arrives tokens a i run

namespace Matches

variable {α β γ σ : Type} {good : α → Nat → Except Surprise (γ × Cursor) → Prop}
  {tokens : List Token} {i : Nat} {c : Cursor} {run one two : Except Surprise (γ × Cursor)}

theorem done {a : α} (stands : Points tokens i c) :
    Matches (Arrives tokens) ((pure a : Machine α) i) (.ok (a, c)) := .ok ⟨c, stands, rfl⟩

theorem stuck (stands : Points tokens i c) (expected : Expectation) :
    Matches good ((Machine.fail tokens expected : Machine α) i)
      (.error ⟨expected, c.current⟩) := by
  rw [stands.fail_run]
  exact .error

theorem bind {p : Machine β} {f : β → Machine α} {part : Except Surprise (β × Cursor)}
    {next : β × Cursor → Except Surprise (γ × Cursor)} (first : Matches (Arrives tokens) (p i) part)
    (second : ∀ b j d, part = .ok (b, d) → Points tokens j d →
      Matches good (f b j) (next (b, d))) : Matches good ((p >>= f) i) (part >>= next) := by
  change Matches good (p i >>= fun r => f r.1 r.2) _
  generalize p i = outcome at first
  cases first with
  | error => exact .error
  | ok leaves =>
    obtain ⟨d, stands, rfl⟩ := leaves
    exact second _ _ d rfl stands

section Looks

variable (stands : Points tokens i c)

include stands

theorem peek {f : Token → Machine α} (rest : Matches good (f c.current i) run) :
    Matches good ((Machine.peek tokens >>= f) i) run := by
  rwa [Machine.bind_ok stands.peek_run]

theorem sight {f : Cursor → Machine α} (rest : Matches good (f c.alone i) run) :
    Matches good ((Machine.sight tokens >>= f) i) run := by
  rwa [Machine.bind_ok stands.sight_run]

theorem placeFrom {start : Nat} {f : Place → Machine α}
    (rest : Matches good (f (c.place start) i) run) :
    Matches good ((Machine.placeFrom tokens start >>= f) i) run := by
  rwa [Machine.bind_ok (stands.placeFrom_run start)]

theorem skip {f : Unit → Machine α}
    (rest : ∀ j ts, Points tokens j c.advance → Passes c c.advance ts →
      Matches good (f () j) run) :
    Matches good ((Machine.advance tokens >>= f) i) run := by
  obtain ⟨j, ts, moves, there, passes⟩ := stands.advance_run
  rw [Machine.bind_ok moves]
  exact rest j ts there passes

theorem pass {f : Unit → Machine α} (live : c.current.kind ≠ .finish)
    (rest : ∀ j, Points tokens j c.advance → c.advance.rest.length < c.rest.length →
      Matches good (f () j) run) :
    Matches good ((Machine.advance tokens >>= f) i) run := by
  have shorter : c.rest.length = 1 + c.advance.rest.length :=
    (stands.ended.passes_advance live).length_eq
  exact .skip stands fun j ts there _ => rest j there (by omega)

theorem eat {look : Cursor → Bool} {f : Bool → Machine α} (same : look c.alone = look c)
    (live : look c = true → c.current.kind ≠ .finish)
    (yes : ∀ j, Points tokens j c.advance → c.advance.rest.length < c.rest.length →
      Matches good (f true j) one)
    (no : Matches good (f false i) two) :
    Matches good (((do
      if look (← Machine.sight tokens) then
        Machine.advance tokens
        return true
      else return false) >>= f) i) (if look c then one else two) := by
  rw [bind_assoc]
  refine .sight stands ?_
  rw [same]
  cases seen : look c with
  | true =>
    simp only [if_true, bind_assoc, pure_bind]
    exact .pass stands (live seen) yes
  | false =>
    simp only [Bool.false_eq_true, if_false, pure_bind]
    exact no

theorem eatMark {m : Mark} {f : Bool → Machine α}
    (yes : ∀ j, Points tokens j c.advance → c.advance.rest.length < c.rest.length →
      Matches good (f true j) one)
    (no : Matches good (f false i) two) :
    Matches good ((Machine.eatMark tokens m >>= f) i) (if c.isMark m then one else two) :=
  .eat stands (c.alone_isMark m) (fun seen => by simp [Cursor.isMark_iff.1 seen]) yes no

theorem eatWord {name : String} {f : Bool → Machine α}
    (yes : ∀ j, Points tokens j c.advance → c.advance.rest.length < c.rest.length →
      Matches good (f true j) one)
    (no : Matches good (f false i) two) :
    Matches good ((Machine.eatWord tokens name >>= f) i) (if c.isWord name then one else two) :=
  .eat stands (c.alone_isWord name) (fun seen => by simp [Cursor.isWord_iff.1 seen]) yes no

theorem expectMark {m : Mark} {f : Unit → Machine α}
    (yes : ∀ j, Points tokens j c.advance → c.advance.rest.length < c.rest.length →
      Matches good (f () j) one) :
    Matches good ((Machine.expectMark tokens m >>= f) i)
      (if c.isMark m then one else .error ⟨.mark m, c.current⟩) := by
  rw [Machine.expectMark, bind_assoc]
  refine .eatMark stands (fun j there shorter => ?_) ?_
  · simp only [if_true, pure_bind]
    exact yes j there shorter
  · simp only [Bool.false_eq_true, if_false]
    change Matches good (((Machine.fail tokens (.mark m) : Machine Unit) i) >>= _) _
    rw [stands.fail_run]
    exact .error

theorem semicolon {f : Unit → Machine α}
    (yes : ∀ j, Points tokens j c.advance → Matches good (f () j) one)
    (ends : Matches good (f () i) two) :
    Matches good ((Machine.semicolon tokens >>= f) i)
      (if c.isMark .semicolon then one
        else if c.endsStatement then two
        else .error ⟨.mark .semicolon, c.current⟩) := by
  rw [Machine.semicolon, bind_assoc]
  refine .eatMark stands (fun j there _ => ?_) ?_
  · simp only [if_true, pure_bind]
    exact yes j there
  · simp only [Bool.false_eq_true, if_false, bind_assoc]
    refine .sight stands ?_
    rw [Cursor.alone_endsStatement]
    cases c.endsStatement with
    | true =>
      simp only [if_true, pure_bind]
      exact ends
    | false =>
      simp only [Bool.false_eq_true, if_false]
      change Matches good (((Machine.fail tokens (.mark .semicolon) : Machine Unit) i) >>= _) _
      rw [stands.fail_run]
      exact .error

end Looks

theorem ite {b : Bool} {p q : Machine α} (yes : b = true → Matches good (p i) one)
    (no : b = false → Matches good (q i) two) :
    Matches good ((if b then p else q) i) (if b then one else two) := by
  cases b with
  | true => exact yes rfl
  | false => exact no rfl

variable {again : σ → Cursor → Except Surprise (γ × Cursor)} {left : Nat}

theorem turn {state : σ} (stands : Points tokens i c) (shorter : c.rest.length < left)
    (same : run = again state c) :
    Matches (Turns tokens left again) ((pure (.inl state) : Machine (σ ⊕ γ)) i) run :=
  .ok ⟨c, stands, shorter, same⟩

theorem leave {a : γ} (stands : Points tokens i c) :
    Matches (Turns tokens left again) ((pure (.inr a) : Machine (σ ⊕ γ)) i) (.ok (a, c)) :=
  .ok ⟨c, stands, rfl⟩

end Matches

/-- A loop does what a parser does that calls itself, if every round takes tokens: then there are
enough rounds for the tokens that are left. -/
theorem matches_loop {σ α : Type} {tokens : List Token} {round : σ → Machine (σ ⊕ α)}
    (again : Nat → σ → Cursor → Except Surprise (α × Cursor)) (cost : Nat) {limit : Nat}
    (step : ∀ {fuel state i c}, Points tokens i c → c.rest.length ≤ limit →
      16 * c.rest.length + cost ≤ fuel →
      Matches (Turns tokens c.rest.length (again fuel)) (round state i) (again (fuel + 1) state c))
    {rounds fuel : Nat} {state : σ} {i : Nat} {c : Cursor} (stands : Points tokens i c)
    (within : c.rest.length ≤ limit) (fits : 16 * c.rest.length + (cost + 1) ≤ fuel)
    (enough : c.rest.length < rounds) :
    Matches (Arrives tokens) (Machine.loop round rounds state i) (again fuel state c) := by
  induction rounds generalizing fuel state i c with
  | zero => omega
  | succ rounds ih =>
    obtain ⟨less, rfl⟩ : ∃ less, fuel = less + 1 := ⟨fuel - 1, by omega⟩
    have turns : Matches (Turns tokens c.rest.length (again less)) (round state i)
      (again (less + 1) state c) := step stands within (Nat.le_of_succ_le_succ fits)
    change Matches (Arrives tokens) (round state i >>= fun r => _) _
    generalize round state i = outcome at turns
    generalize again (less + 1) state c = run at turns ⊢
    cases turns with
    | error => exact .error
    | @ok next j _ leaves =>
      cases next with
      | inl next =>
        obtain ⟨d, there, shorter, rfl⟩ := leaves
        exact ih there (by omega) (by omega) (by omega)
      | inr a => exact .ok leaves

def behind {α : Type} (front : List α) (run : Except Surprise (List α × Cursor)) :
    Except Surprise (List α × Cursor) := run >>= fun r => .ok (front ++ r.1, r.2)

theorem behind_nil {α : Type} (run : Except Surprise (List α × Cursor)) : behind [] run = run := by
  cases run <;> rfl

theorem behind_done {α : Type} (front : List α) (c : Cursor) :
    behind front (.ok ([], c)) = .ok (front, c) := by
  simp [behind, Parser.ok_bind]

theorem behind_cons {α : Type} (front : List α) (a : α)
    (run : Except Surprise (List α × Cursor)) :
    behind front (run >>= fun r => .ok (a :: r.1, r.2)) = behind (front ++ [a]) run := by
  cases run with
  | error => rfl
  | ok r => simp [behind, Parser.ok_bind]

theorem behind_ite {α : Type} {b : Prop} [Decidable b] (front : List α)
    (one two : Except Surprise (List α × Cursor)) :
    behind front (if b then one else two) = if b then behind front one else behind front two := by
  split <;> rfl

theorem behind_bind {α β : Type} (front : List α) (part : Except Surprise (β × Cursor))
    (next : β × Cursor → Except Surprise (List α × Cursor)) :
    behind front (part >>= next) = part >>= fun r => behind front (next r) := bind_assoc _ _ _

theorem matches_separated {α : Type} {closing : Mark} {item : Machine α} {tokens : List Token}
    {fuel i limit : Nat} {c : Cursor}
    (one : Nat → Cursor → Except Surprise (α × Cursor))
    (many : Nat → Cursor → Except Surprise (List α × Cursor)) (cost : Nat)
    (unfolds : ∀ fuel c, many (fuel + 1) c =
      if c.isMark closing then .ok ([], c)
      else
        one fuel c >>= fun r =>
          if r.2.isMark .comma then
            many fuel r.2.advance >>= fun s => .ok (r.1 :: s.1, s.2)
          else .ok ([r.1], r.2))
    (reads : ∀ {fuel i c}, Points tokens i c → c.rest.length ≤ limit →
      16 * c.rest.length + cost ≤ fuel → Matches (Arrives tokens) (item i) (one fuel c))
    (moves : ∀ {fuel c d a}, c.Ended → one fuel c = .ok (a, d) → Cursor.Advances c d)
    (stands : Points tokens i c) (within : c.rest.length ≤ limit)
    (fits : 16 * c.rest.length + (cost + 1) ≤ fuel) :
    Matches (Arrives tokens) (Machine.separated tokens closing item i) (many fuel c) := by
  rw [← behind_nil (many fuel c), Machine.separated]
  refine matches_loop (fun fuel list d => behind list (many fuel d)) cost
    (fun {fuel list i c} stands within fits => ?_) stands within fits stands.rounds
  rw [unfolds, behind_ite]
  refine .sight stands (.ite (fun _ => ?_) fun _ => ?_)
  · rw [behind_done]
    exact .leave stands
  · rw [behind_bind]
    refine .bind (reads stands within fits) fun a j d read there => ?_
    have shorter := (moves stands.ended read).shorter
    rw [behind_ite]
    refine .eatMark there (fun k beyond less => ?_) ?_
    · rw [behind_cons]
      exact .turn beyond (less.trans shorter) rfl
    · exact .leave there

end Arborist.Script

import Mathlib
import Arborist.Proofs.Script.SimulatedStatements

/-!
Parsing comes to an end. Wherever among the tokens of a text a parser begins, it either stops at a
token that does not fit, or leaves tokens behind and none of them is the end of the text. So the
machine that looks tokens up by their indices finds all of them there; its loops need no more rounds
than there are tokens, and its calls no more depth than sixteen for each token that is left.
-/

namespace Arborist.Script

open Cursor (Passes Advances)

/-- The parsers, each of which may begin at any token. -/
inductive Production where
  | statement
  | block
  | declaration (kind : DeclarationKind)
  | function
  | identifier
  | expression
  | assignment
  | conditional
  | binary (least : Nat)
  | unary
  | chain
  | primary

namespace Production

abbrev Answer : Production → Type
  | statement | declaration _ | function => Stmt Place
  | block => Place × List (Stmt Place)
  | identifier | expression | assignment | conditional | binary _ | unary | chain | primary =>
    Expr Place

def parser (fuel : Nat) : (p : Production) → Parser p.Answer
  | statement => Parser.statement fuel
  | block => Parser.block fuel
  | declaration kind => Parser.declaration fuel kind
  | function => Parser.functioning fuel
  | identifier => Parser.identifier
  | expression => Parser.expression fuel
  | assignment => Parser.assignment fuel
  | conditional => Parser.conditional fuel
  | binary least => Parser.binary fuel least
  | unary => Parser.unary fuel
  | chain => Parser.chain fuel
  | primary => Parser.primary fuel

def machine (tokens : List Token) (depth : Nat) : (p : Production) → Machine p.Answer
  | statement => Machine.statement tokens depth
  | block => Machine.block tokens depth
  | declaration kind => Machine.declaration tokens depth kind
  | function => Machine.function tokens depth
  | identifier => Machine.identifier tokens
  | expression => Machine.expression tokens depth
  | assignment => Machine.assignment tokens depth
  | conditional => Machine.conditional tokens depth
  | binary least => Machine.binary tokens depth least
  | unary => Machine.unary tokens depth
  | chain => Machine.chain tokens depth
  | primary => Machine.primary tokens depth

variable {tokens : List Token} {fuel depth i : Nat} {c d : Cursor}

theorem advances (p : Production) {a : p.Answer} (ended : c.Ended)
    (h : p.parser fuel c = .ok (a, d)) : Advances c d := by
  cases p with
  | statement => exact advances_statement ended h
  | block => exact advances_block ended h
  | declaration => exact advances_declaration ended h
  | function => exact advances_functioning ended h
  | identifier => exact advances_identifier ended h
  | expression => exact advances_of_took ((sound fuel).expression ended h)
  | assignment => exact advances_of_took ((sound fuel).assignment ended h)
  | conditional => exact advances_of_took ((sound fuel).conditional ended h)
  | binary => exact advances_binary ended h
  | unary => exact advances_of_took ((sound fuel).unary ended h)
  | chain => exact advances_of_took ((sound fuel).chain ended h)
  | primary => exact advances_primary ended h

theorem accords (p : Production) (stands : Points tokens i c)
    (deep : 16 * c.rest.length + 8 ≤ depth) (fits : 16 * c.rest.length + 8 ≤ fuel) :
    Matches (Arrives tokens) (p.machine tokens depth i) (p.parser fuel c) := by
  have expressions := simulates tokens depth
  have statements := statementSimulates tokens depth
  cases p with
  | statement => exact statements.statement stands deep fits
  | block => exact statements.block stands (by omega) (by omega)
  | declaration => exact matches_declaration stands (by omega) (by omega)
  | function => exact statements.function stands (by omega) (by omega)
  | identifier => exact matches_identifier stands
  | expression => exact expressions.expression stands (by omega) (by omega)
  | assignment => exact expressions.assignment stands (by omega) (by omega)
  | conditional => exact expressions.conditional stands (by omega) (by omega)
  | binary => exact expressions.binary stands (by omega) (by omega)
  | unary => exact expressions.unary stands (by omega) (by omega)
  | chain => exact expressions.chain stands (by omega) (by omega)
  | primary => exact expressions.primary stands (by omega) (by omega)

end Production

def Cursor.ofIndex (tokens : List Token) (i : Nat) : Cursor :=
  { ofTokens (tokens.drop i) with previousEnd := stopOf (tokens.take i) }

theorem Cursor.ofIndex_append (front : List Token) (t : Token) (rest : List Token) :
    ofIndex (front ++ t :: rest) front.length = ⟨stopOf front, t, rest⟩ := by
  simp [ofIndex, ofTokens]

theorem Cursor.ofIndex_zero (tokens : List Token) : ofIndex tokens 0 = ofTokens tokens := by
  cases tokens <;> rfl

theorem Points.eq_ofIndex {tokens : List Token} {i : Nat} {c : Cursor}
    (stands : Points tokens i c) : c = Cursor.ofIndex tokens i := by
  obtain ⟨front, rfl, rfl, previousEnd⟩ := stands.split
  rw [Cursor.ofIndex_append, ← previousEnd]

section Indices

variable {inner : List Token} {last : Token} {i : Nat} {c : Cursor}

theorem points_ofIndex (finish : last.kind = .finish) (live : ∀ t ∈ inner, t.kind ≠ .finish)
    (within : i ≤ inner.length) :
    Points (inner ++ [last]) i (Cursor.ofIndex (inner ++ [last]) i) := by
  have filled : inner ++ [last] ≠ [] := by simp
  have whole := tokens_ofTokens filled
  obtain ⟨front, t, rest, same, rfl⟩ : ∃ front t rest, inner ++ [last] = front ++ t :: rest ∧
      front.length = i := by
    have cut : i < (inner ++ [last]).length := by simp; omega
    exact ⟨_, _, _, (List.take_append_drop i _).symm.trans (by rw [List.drop_eq_getElem_cons cut]),
      by simp; omega⟩
  have start : (Cursor.ofTokens (inner ++ [last])).Ended := ⟨inner, last, whole, finish, live⟩
  have passes : Passes (Cursor.ofTokens (inner ++ [last]))
      (Cursor.ofIndex (inner ++ [last]) front.length) front := by
    constructor
    · rw [whole, same, Cursor.ofIndex_append]
      rfl
    · rw [← Cursor.ofIndex_zero, same, Cursor.ofIndex_append]
      rfl
  exact ⟨filled, passes.ended start, front, passes, rfl⟩

theorem Points.within (stands : Points (inner ++ [last]) i c) : i ≤ inner.length := by
  have length := stands.length_eq
  simp only [List.length_append, List.length_singleton] at length
  omega

end Indices

/-- What a parser answers that begins at an index, beside the machine that begins there: a further
index no further than the end, or the token that does not fit. There is no third answer, so the
machine does not halt for another reason. -/
inductive Progresses {α : Type} (tokens : List Token) (finish i : Nat) :
    Except Surprise (α × Cursor) → Except Halt (α × Nat) → Prop where
  | moved {a : α} {j : Nat} (further : i < j) (within : j ≤ finish) :
      Progresses tokens finish i (.ok (a, Cursor.ofIndex tokens j)) (.ok (a, j))
  | refused {s : Surprise} : Progresses tokens finish i (.error s) (.error (.surprise s))

structure Progress (tokens : List Token) (finish : Nat) : Prop where
  length : tokens.length = finish + 1
  ends {i : Nat} {t : Token} (here : tokens[i]? = some t) : t.kind = .finish ↔ i = finish
  /-- A parser that has an answer, with any fuel, has passed tokens and not the end. -/
  forward (p : Production) {fuel i : Nat} {a : p.Answer} {c : Cursor} (within : i ≤ finish)
    (answer : p.parser fuel (Cursor.ofIndex tokens i) = .ok (a, c)) :
    ∃ j, i < j ∧ j ≤ finish ∧ c = Cursor.ofIndex tokens j
  /-- Fuel and depth for the tokens that are left are enough, and so are as many rounds as there are
  tokens. -/
  bounded (p : Production) {fuel depth i : Nat} (within : i ≤ finish)
    (fits : 16 * (finish + 1 - i) ≤ fuel) (deep : 16 * (finish + 1 - i) ≤ depth) :
    Progresses tokens finish i (p.parser fuel (Cursor.ofIndex tokens i))
      (p.machine tokens depth i)
  /-- The statements of the whole text are read up to its end. -/
  program {depth : Nat} (deep : 16 * (finish + 1) ≤ depth) :
    Machine.program tokens depth 0 = match Parser.program tokens with
      | .ok list => .ok (list, finish)
      | .error s => .error (.surprise s)

section Indices

variable {inner : List Token} {last : Token} (finish : last.kind = .finish)
  (live : ∀ t ∈ inner, t.kind ≠ .finish)

include finish live

theorem kind_eq_finish {i : Nat} {t : Token} (here : (inner ++ [last])[i]? = some t) :
    t.kind = .finish ↔ i = inner.length := by
  rcases Nat.lt_trichotomy i inner.length with before | rfl | behind
  · rw [List.getElem?_append_left before] at here
    exact iff_of_false (live t (List.mem_of_getElem? here)) (by omega)
  · rw [List.getElem?_concat_length, Option.some.injEq] at here
    exact iff_of_true (here ▸ finish) rfl
  · have past : (inner ++ [last]).length ≤ i := by simp; omega
    rw [List.getElem?_eq_none past] at here
    cases here

theorem forward_of_ended (p : Production) {fuel i : Nat} {a : p.Answer} {c : Cursor}
    (within : i ≤ inner.length)
    (answer : p.parser fuel (Cursor.ofIndex (inner ++ [last]) i) = .ok (a, c)) :
    ∃ j, i < j ∧ j ≤ inner.length ∧ c = Cursor.ofIndex (inner ++ [last]) j := by
  have stands := points_ofIndex finish live within
  obtain ⟨ts, filled, passes⟩ := p.advances stands.ended answer
  have there := stands.passed passes
  have := List.length_pos_iff.2 filled
  exact ⟨i + ts.length, by omega, there.within, there.eq_ofIndex⟩

theorem bounded_of_ended (p : Production) {fuel depth i : Nat} (within : i ≤ inner.length)
    (fits : 16 * (inner.length + 1 - i) ≤ fuel) (deep : 16 * (inner.length + 1 - i) ≤ depth) :
    Progresses (inner ++ [last]) inner.length i
      (p.parser fuel (Cursor.ofIndex (inner ++ [last]) i))
      (p.machine (inner ++ [last]) depth i) := by
  have stands := points_ofIndex finish live within
  have length := stands.length_eq
  simp only [List.length_append, List.length_singleton] at length
  have accords : Matches (Arrives (inner ++ [last])) (p.machine (inner ++ [last]) depth i)
      (p.parser fuel (Cursor.ofIndex (inner ++ [last]) i)) :=
    p.accords stands (by omega) (by omega)
  generalize answer : p.parser fuel (Cursor.ofIndex (inner ++ [last]) i) = run at accords ⊢
  generalize p.machine (inner ++ [last]) depth i = outcome at accords ⊢
  cases accords with
  | error => exact .refused
  | @ok a k _ leaves =>
    obtain ⟨c, there, rfl⟩ := leaves
    obtain ⟨j, further, before, same⟩ := forward_of_ended finish live p within answer
    -- one cursor does not stand at two indices
    have place : j = k := by
      have one := (points_ofIndex finish live before).length_eq
      have two := there.length_eq
      rw [← same] at one
      omega
    rw [same, ← place]
    exact .moved further before

theorem program_of_ended {depth : Nat} (deep : 16 * (inner.length + 1) ≤ depth) :
    Machine.program (inner ++ [last]) depth 0 = match Parser.program (inner ++ [last]) with
      | .ok list => .ok (list, inner.length)
      | .error s => .error (.surprise s) := by
  have stands := points_ofIndex finish live (Nat.zero_le _)
  have length := stands.length_eq
  rw [Parser.program_run, ← Cursor.ofIndex_zero]
  rw [List.length_append, List.length_singleton] at length ⊢
  have accords : Matches (Arrives (inner ++ [last])) (Machine.program (inner ++ [last]) depth 0)
      (Parser.body (16 * (inner.length + 1 + 1)) (Cursor.ofIndex (inner ++ [last]) 0)) :=
    matches_program stands (by omega) (by omega)
  generalize answer : Parser.body (16 * (inner.length + 1 + 1))
    (Cursor.ofIndex (inner ++ [last]) 0) = run at accords ⊢
  generalize Machine.program (inner ++ [last]) depth 0 = outcome at accords ⊢
  cases accords with
  | error => rfl
  | ok leaves =>
    obtain ⟨c, there, rfl⟩ := leaves
    obtain ⟨ts, -, ends, -⟩ := body_sound _ stands.ended answer
    rw [(kind_eq_finish finish live there.getElem?_eq).1 ends]
    rfl

end Indices

/-- Parsers always move on and never look past the tokens of a text. Beginning at any token, each of
them that has an answer has passed tokens and not the end, and in doing so looked for no token that
was not there, made no loop go more rounds than there are tokens, and called no deeper than sixteen
levels for each token that was left. -/
theorem parsers_progress {text : List Char} {tokens : List Token}
    (scanned : Token.scan text = .ok tokens) : ∃ finish, Progress tokens finish := by
  obtain ⟨inner, last, rfl, finish, -⟩ := Token.spelled_of_scanFrom scanned
  have live := live_of_scan scanned
  exact ⟨inner.length, List.length_append, kind_eq_finish finish live,
    forward_of_ended finish live, bounded_of_ended finish live, program_of_ended finish live⟩

/-- A text that breaks off inside a call, a block and a branch. -/
theorem parsers_progress_truncated :
    ∃ tokens, Token.scan "if (a) \x7b f(b, [1,".toList = .ok tokens ∧ tokens.length = 13 ∧
      ∃ finish, Progress tokens finish := by
  have accepted : (Token.scan "if (a) \x7b f(b, [1,".toList).toOption.map List.length =
      some 13 := by
    decide +kernel
  cases scanned : Token.scan "if (a) \x7b f(b, [1,".toList with
  | error =>
    rw [scanned] at accepted
    cases accepted
  | ok tokens =>
    rw [scanned] at accepted
    exact ⟨tokens, rfl, Option.some.inj accepted, parsers_progress scanned⟩

-- The same call with enough depth, and with too little.
example : (Token.scan "f(1)".toList).toOption.map (fun tokens =>
      [100, 7].map fun depth => (Machine.expression tokens depth 0).map Prod.snd) =
    some [.ok 4, .error .tooDeep] := by
  decide +kernel

end Arborist.Script

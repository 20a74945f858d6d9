import Mathlib
import Arborist.Proofs.Script.Soundness

/-!
Every phrase of the grammar is read as the tree that it derives, with sixteen units of fuel for each
of its tokens and a few more for the parsers above it. The parsers that loop behind a left operand
are described by what they do once the operand is read: whatever the loop makes of it is what the
whole parser returns.
-/

namespace Arborist.Script

open Token (Kind)
open Cursor (Passes)

/-- A parser gives a result, with whatever fuel from some amount on. -/
def Runs {α : Type} (cost : Nat) (parser : Nat → Parser α) (c : Cursor) (r : α × Cursor) : Prop :=
  ∀ fuel, cost ≤ fuel → parser fuel c = .ok r

theorem Runs.mono {α : Type} {cost more : Nat} {parser : Nat → Parser α} {c : Cursor}
    {r : α × Cursor} (runs : Runs cost parser c r) (le : cost ≤ more) : Runs more parser c r :=
  fun fuel enough => runs fuel (le.trans enough)

theorem runs_of_succ {α : Type} {cost : Nat} {parser : Nat → Parser α} {c : Cursor}
    {r : α × Cursor} (step : ∀ fuel, cost ≤ fuel → parser (fuel + 1) c = .ok r) :
    Runs (cost + 1) parser c r := by
  intro fuel enough
  obtain ⟨less, rfl⟩ : ∃ less, fuel = less + 1 := ⟨fuel - 1, by omega⟩
  exact step less (by omega)

/-- The loosest level at which the token behind an operand of a level may not bind. -/
def rightEdge (least : Level) : Level := if least < 13 then least + 1 else min least Level.unary

/-- What stands behind a conditional must not assign, unless the conditional can be assigned to; then
it is not one at all, but a name or a member. -/
def conditionalEdge (e : Expr Place) : Level :=
  if e.isAssignable then Level.conditional else Level.assignment

theorem conditionalEdge_bounds (e : Expr Place) :
    Level.assignment ≤ conditionalEdge e ∧ conditionalEdge e ≤ Level.conditional := by
  unfold conditionalEdge
  split <;> decide

section Reads

variable (e : Expr Place) (ts : List Token)

def ReadsPrimary : Prop :=
  ∀ {c d : Cursor}, Passes c d ts → Runs (16 * ts.length) Parser.primary c (e, d)

def ReadsChain : Prop :=
  ∀ {c d : Cursor} {cost : Nat} {r : Expr Place × Cursor}, Passes c d ts → 1 ≤ cost →
    Runs cost (fun fuel => Parser.chainFrom fuel c.current.start e) d r →
    Runs (cost + 16 * ts.length) Parser.chain c r

def ReadsUnary : Prop :=
  ∀ {c d : Cursor}, Passes c d ts → Stops ts d.current Level.unary →
    Runs (16 * ts.length + 2) Parser.unary c (e, d)

def ReadsBinary (least : Level) : Prop :=
  ∀ {c d : Cursor} {lowest cost : Nat} {r : Expr Place × Cursor}, Passes c d ts →
    lowest + 2 ≤ least → Stops ts d.current (rightEdge least) → 3 ≤ cost →
    Runs cost (fun fuel => Parser.binaryFrom fuel c.current.start lowest e) d r →
    Runs (cost + 16 * ts.length) (fun fuel => Parser.binary fuel lowest) c r

def ReadsConditional : Prop :=
  ∀ {c d : Cursor}, Passes c d ts → Stops ts d.current (conditionalEdge e) →
    Runs (16 * ts.length + 4) Parser.conditional c (e, d)

def ReadsAssignment : Prop :=
  ∀ {c d : Cursor}, Passes c d ts → Stops ts d.current Level.assignment →
    Runs (16 * ts.length + 5) Parser.assignment c (e, d)

def ReadsExpression : Prop :=
  ∀ {c d : Cursor}, Passes c d ts → Stops ts d.current Level.sequence →
    Runs (16 * ts.length + 6) Parser.expression c (e, d)

end Reads

section Descent

variable {e : Expr Place} {ts : List Token}

theorem chainFrom_runs {start : Nat} {d : Cursor} (stops : Stops ts d.current Level.member)
    (free : endsInUpdate ts = false) :
    Runs 1 (fun fuel => Parser.chainFrom fuel start e) d (e, d) := by
  refine runs_of_succ fun fuel _ => ?_
  have bare : ∀ m : Mark, m = .dot ∨ m = .openBracket ∨ m = .openParen →
      ¬ d.isMark m = true := by
    intro m chained isMark
    have kind := Cursor.isMark_iff.mp isMark
    refine absurd (stops Level.member ?_) (lt_irrefl _)
    rcases chained with rfl | rfl | rfl <;> simp [binds, kind, free]
  rw [Parser.chainFrom_succ, if_neg (bare _ (by simp)), if_neg (bare _ (by simp)),
    if_neg (bare _ (by simp))]

theorem readsChain_of_primary (some : ts ≠ []) (reads : ReadsPrimary e ts) : ReadsChain e ts := by
  intro c d cost r passes pos continues
  have length := List.length_pos_iff.mpr some
  refine (runs_of_succ fun fuel (enough : 16 * ts.length + cost - 1 ≤ fuel) => ?_).mono (by omega)
  rw [Parser.chain_succ, reads passes fuel (by omega), Parser.ok_bind]
  exact continues fuel (by omega)

theorem not_operator_of_chain {fuel : Nat} {c : Cursor} {r : Expr Place × Cursor}
    (h : Parser.chain fuel c = .ok r) : c.unaryOperator? = none ∧ c.updateOperator? = none := by
  cases fuel with
  | zero => simp [Parser.chain, Parser.fail] at h
  | succ fuel =>
  rw [Parser.chain_succ, Parser.bind_eq_ok] at h
  obtain ⟨s, read, -⟩ := h
  cases fuel with
  | zero => simp [Parser.primary, Parser.fail] at read
  | succ fuel =>
  rw [Parser.primary_succ] at read
  constructor
  · cases found : c.unaryOperator? with
    | none => rfl
    | some operator =>
      have mark := Cursor.unaryOperator?_eq_some.mp found
      cases operator <;>
        simp [mark, UnaryOperator.kind, Parser.identifier_run, isReserved, reserved] at read
  · cases found : c.updateOperator? with
    | none => rfl
    | some operator =>
      have mark := Cursor.updateOperator?_eq_some.mp found
      cases operator <;> simp [mark, UpdateOperator.kind] at read

theorem readsUnary_of_chain (free : endsInUpdate ts = false) (reads : ReadsChain e ts) :
    ReadsUnary e ts := by
  intro c d passes stops
  refine runs_of_succ fun fuel enough => ?_
  have run := reads passes (le_refl 1) (chainFrom_runs (stops.mono (by decide)) free) fuel (by omega)
  obtain ⟨notUnary, notUpdate⟩ := not_operator_of_chain run
  simp only [Parser.unary_succ, notUnary, notUpdate, run, Parser.ok_bind]
  cases found : d.updateOperator? with
  | none => rfl
  | some operator =>
    have mark := Cursor.updateOperator?_eq_some.mp found
    cases otherLine : d.current.newlineBefore with
    | true => rfl
    | false =>
      -- an update operator on the same line would bind to the phrase
      refine absurd (stops Level.postfixed ?_) (by decide)
      cases operator <;> simp [binds, mark, UpdateOperator.kind, free, otherLine]

theorem readsBinary_of_unary (some : ts ≠ []) {least : Level} (le : Level.unary ≤ least)
    (reads : ReadsUnary e ts) : ReadsBinary e ts least := by
  intro c d lowest cost r passes _ stops pos continues
  have length := List.length_pos_iff.mpr some
  have edge : rightEdge least = Level.unary := by
    rw [rightEdge, if_neg (Nat.not_lt.mpr (le_trans (by decide) le)), min_eq_right le]
  rw [edge] at stops
  refine (runs_of_succ fun fuel (enough : 16 * ts.length + cost - 1 ≤ fuel) => ?_).mono (by omega)
  rw [Parser.binary_succ, reads passes stops fuel (by omega), Parser.ok_bind]
  exact continues fuel (by omega)

theorem rightEdge_le_succ (least : Level) : rightEdge least ≤ rightEdge (least + 1) := by
  unfold rightEdge Level.unary
  split <;> split <;> grind

theorem readsBinary_lower {least : Level} (reads : ReadsBinary e ts (least + 1)) :
    ReadsBinary e ts least := by
  intro c d lowest cost r passes low stops pos continues
  exact reads passes (Nat.le_succ_of_le low) (stops.mono (rightEdge_le_succ least)) pos continues

theorem binaryFrom_runs {start lowest : Nat} {d : Cursor} (stops : Stops ts d.current (lowest + 2)) :
    Runs 3 (fun fuel => Parser.binaryFrom fuel start lowest e) d (e, d) := by
  refine (runs_of_succ fun fuel (_ : 0 ≤ fuel) => ?_).mono (by decide)
  rw [Parser.binaryFrom_succ]
  cases found : d.binaryOperator? with
  | none => rfl
  | some operator =>
    obtain ⟨notComma, mark⟩ := Cursor.binaryOperator?_eq_some.mp found
    have below := stops _ (binds_operator notComma mark)
    rw [(BinaryOperator.level_eq notComma).1] at below
    simp only [if_pos (Nat.lt_of_add_lt_add_right below)]

theorem readsConditional_of_binary {least : Level} (le : 3 ≤ least)
    (reads : ReadsBinary e ts least) : ReadsConditional e ts := by
  have lowered : ReadsBinary e ts 3 := by
    induction le with
    | refl => exact reads
    | step _ ih => exact ih (readsBinary_lower reads)
  intro c d passes edge
  have stops := edge.mono (conditionalEdge_bounds e).2
  refine runs_of_succ fun fuel enough => ?_
  have run : Parser.binary fuel 1 c = .ok (e, d) := lowered passes (le_refl 3)
    (stops.mono (by decide)) (le_refl 3) (binaryFrom_runs (stops.mono (by decide))) fuel (by omega)
  have bare : ¬ d.isMark .question = true := by
    intro isMark
    refine absurd (stops Level.conditional ?_) (lt_irrefl _)
    simp [binds, Cursor.isMark_iff.mp isMark]
  rw [Parser.conditional_succ, run, Parser.ok_bind, if_neg bare]

theorem readsAssignment_of_conditional (reads : ReadsConditional e ts) : ReadsAssignment e ts := by
  intro c d passes stops
  refine runs_of_succ fun fuel enough => ?_
  rw [Parser.assignment_succ, reads passes (stops.mono (conditionalEdge_bounds e).1) fuel (by omega),
    Parser.ok_bind]
  cases found : d.assignmentOperator? with
  | none => rfl
  | some operator =>
    have mark := Cursor.assignmentOperator?_eq_some.mp found
    refine absurd (stops Level.assignment ?_) (lt_irrefl _)
    cases operator <;> simp [binds, mark, AssignmentOperator.kind, AssignmentOperator.ofMark?]

theorem readsExpression_of_assignment (reads : ReadsAssignment e ts) : ReadsExpression e ts := by
  intro c d passes stops
  refine runs_of_succ fun fuel enough => ?_
  have bare : ¬ d.isMark .comma = true := by
    intro isMark
    refine absurd (stops Level.sequence ?_) (lt_irrefl _)
    simp [binds, Cursor.isMark_iff.mp isMark]
  rw [Parser.expression_succ, reads passes (stops.mono (by decide)) fuel (by omega), Parser.ok_bind,
    if_neg bare]

end Descent

/-- How a phrase of a level is read by the parsers of that level and of all looser ones. -/
structure Reads (least : Level) (e : Expr Place) (ts : List Token) : Prop where
  primary : Level.primary ≤ least → ReadsPrimary e ts
  chain : Level.member ≤ least → ReadsChain e ts
  unary : Level.unary ≤ least → ReadsUnary e ts
  binary : Level.conditional < least → ReadsBinary e ts least
  conditional : Level.conditional ≤ least → ReadsConditional e ts
  assignment : Level.assignment ≤ least → ReadsAssignment e ts
  expression : ReadsExpression e ts

namespace Reads

variable {least : Level} {e : Expr Place} {ts : List Token}

theorem looser (reads : Reads (least + 1) e ts) : Reads least e ts where
  primary le := reads.primary (Nat.le_succ_of_le le)
  chain le := reads.chain (Nat.le_succ_of_le le)
  unary le := reads.unary (Nat.le_succ_of_le le)
  binary lt := readsBinary_lower (reads.binary (Nat.lt_succ_of_lt lt))
  conditional le := reads.conditional (Nat.le_succ_of_le le)
  assignment le := reads.assignment (Nat.le_succ_of_le le)
  expression := reads.expression

theorem ofExpression (reads : ReadsExpression e ts) : Reads Level.sequence e ts where
  primary le := absurd le (by decide)
  chain le := absurd le (by decide)
  unary le := absurd le (by decide)
  binary lt := absurd lt (by decide)
  conditional le := absurd le (by decide)
  assignment le := absurd le (by decide)
  expression := reads

theorem ofAssignment (reads : ReadsAssignment e ts) : Reads Level.assignment e ts where
  primary le := absurd le (by decide)
  chain le := absurd le (by decide)
  unary le := absurd le (by decide)
  binary lt := absurd lt (by decide)
  conditional le := absurd le (by decide)
  assignment _ := reads
  expression := readsExpression_of_assignment reads

theorem ofConditional (reads : ReadsConditional e ts) : Reads Level.conditional e ts where
  primary le := absurd le (by decide)
  chain le := absurd le (by decide)
  unary le := absurd le (by decide)
  binary lt := absurd lt (by decide)
  conditional _ := reads
  assignment _ := readsAssignment_of_conditional reads
  expression := readsExpression_of_assignment (readsAssignment_of_conditional reads)

/-- Below the binary levels everything follows from how operands are read. -/
theorem ofOperand (lower : Level.conditional < least)
    (primary : Level.primary ≤ least → ReadsPrimary e ts)
    (chain : Level.member ≤ least → ReadsChain e ts)
    (unary : Level.unary ≤ least → ReadsUnary e ts) (binary : ReadsBinary e ts least) :
    Reads least e ts where
  primary := primary
  chain := chain
  unary := unary
  binary _ := binary
  conditional _ := readsConditional_of_binary lower binary
  assignment _ := readsAssignment_of_conditional (readsConditional_of_binary lower binary)
  expression := readsExpression_of_assignment
    (readsAssignment_of_conditional (readsConditional_of_binary lower binary))

theorem ofBinary (lower : Level.conditional < least) (upper : least < Level.unary)
    (reads : ReadsBinary e ts least) : Reads least e ts :=
  ofOperand lower (fun le => absurd (lt_of_le_of_lt le upper) (by decide))
    (fun le => absurd (lt_of_le_of_lt le upper) (by decide))
    (fun le => absurd upper (not_lt.mpr le)) reads

theorem ofUnary (some : ts ≠ []) (lower : Level.unary ≤ least) (upper : least < Level.member)
    (reads : ReadsUnary e ts) : Reads least e ts :=
  ofOperand (lt_of_lt_of_le (by decide) lower)
    (fun le => absurd (lt_of_le_of_lt le upper) (by decide))
    (fun le => absurd upper (not_lt.mpr le)) (fun _ => reads) (readsBinary_of_unary some lower reads)

theorem ofChain (some : ts ≠ []) (free : endsInUpdate ts = false) (reads : ReadsChain e ts) :
    Reads Level.member e ts :=
  ofOperand (by decide) (fun le => absurd le (by decide)) (fun _ => reads)
    (fun _ => readsUnary_of_chain free reads)
    (readsBinary_of_unary some (by decide) (readsUnary_of_chain free reads))

theorem ofPrimary (some : ts ≠ []) (free : endsInUpdate ts = false) (reads : ReadsPrimary e ts) :
    Reads Level.primary e ts :=
  ofOperand (by decide) (fun _ => reads) (fun _ => readsChain_of_primary some reads)
    (fun _ => readsUnary_of_chain free (readsChain_of_primary some reads))
    (readsBinary_of_unary some (by decide)
      (readsUnary_of_chain free (readsChain_of_primary some reads)))

end Reads

def Starts : Kind → Prop
  | .word text =>
    isReserved text = false ∨ text ∈ ["true", "false", "null", "typeof", "void", "delete"]
  | .number _ _ | .string _ _ => True
  | .mark m => m ∈ [.openParen, .openBracket, .plus, .minus, .not, .complement, .plusPlus,
      Mark.minusMinus]
  | .finish => False

theorem Derives.starts {least : Level} {e : Expr Place} {ts : List Token}
    (derives : Derives (.expr least e) ts) : ∀ first ∈ ts.head?, Starts first.kind := by
  generalize same : Phrase.expr least e = phrase at derives
  induction derives generalizing least e with
  | name word free => simp [Starts, word, free]
  | number literal | string literal => simp [Starts, literal]
  | @boolean t value word => cases value <;> simp [Starts, word]
  | null word => simp [Starts, word]
  | paren opening | array opening => simp [Starts, opening]
  | dot inner _ _ ih | bracket inner _ _ _ ih | call inner _ _ _ ih | updated inner _ _ ih
  | power inner _ _ ih | binary _ _ inner _ _ ih | conditional inner _ _ _ _ ih
  | assignment inner _ _ _ ih | sequence inner _ _ ih =>
    rw [List.head?_append_of_ne_nil _ inner.ne_nil]
    exact ih rfl
  | @unary t ts operator argument mark =>
    cases operator <;> simp [Starts, mark, UnaryOperator.kind]
  | @updating t ts operator argument mark =>
    cases operator <;> simp [Starts, mark, UpdateOperator.kind]
  | looser _ ih => exact ih rfl
  | noItems | oneItem | moreItems | noParts | moreParts => cases same

theorem Derives.starts_of_passes {least : Level} {e : Expr Place} {ts : List Token} {c d : Cursor}
    (derives : Derives (.expr least e) ts) (passes : Passes c d ts) : Starts c.current.kind := by
  obtain ⟨t, us, rfl⟩ := List.exists_cons_of_ne_nil derives.ne_nil
  rw [passes.current_eq]
  exact derives.starts t rfl

theorem stops_of_closing {ts : List Token} {next : Token} {m : Mark}
    (closing : m ∈ [.closeParen, .closeBracket, .colon, Mark.semicolon])
    (mark : next.kind = .mark m) (least : Level) : Stops ts next least := by
  intro level member
  simp only [List.mem_cons, List.not_mem_nil, or_false] at closing
  rcases closing with rfl | rfl | rfl | rfl <;>
    simp [binds, mark, AssignmentOperator.ofMark?, BinaryOperator.ofMark?] at member

theorem stops_of_comma {ts : List Token} {next : Token} (comma : next.kind = .mark .comma) :
    Stops ts next Level.assignment := by
  intro level member
  simp only [binds, comma, Option.mem_some] at member
  exact member ▸ by decide

def Phrase.Reads : Phrase → List Token → Prop
  | .expr least e, ts => Script.Reads least e ts
  | .items list, ts => ∀ {c d : Cursor} {closing : Mark},
    closing ∈ [.closeParen, Mark.closeBracket] → Passes c d ts → d.current.kind = .mark closing →
    Runs (16 * ts.length + 6) (fun fuel => Parser.items fuel closing) c (list, d)
  | .parts list, ts => ∀ {c d : Cursor} {front : List Token}, Passes c d ts →
    Stops (front ++ ts) d.current Level.sequence →
    Runs (16 * ts.length + 6) Parser.commaParts c (list, d)

section Cases

variable {e left right : Expr Place} {ts us vs : List Token} {a b t : Token}
  {list : List (Expr Place)}

theorem not_literal_of_free {text : String} (free : isReserved text = false) :
    ¬ (text = "true" ∨ text = "false") ∧ text ≠ "null" := by
  refine ⟨?_, ?_⟩
  · rintro (rfl | rfl)
    · exact absurd free (by decide)
    · exact absurd free (by decide)
  · rintro rfl
    exact absurd free (by decide)

theorem readsPrimary_name {text : String} (word : t.kind = .word text)
    (free : isReserved text = false) : ReadsPrimary (.name (Place.over [t]) text) [t] := by
  intro c d one
  obtain ⟨rfl, rfl⟩ := one.last
  obtain ⟨notTruth, notNull⟩ := not_literal_of_free free
  refine (runs_of_succ fun fuel (_ : 0 ≤ fuel) => ?_).mono (by simp)
  simp only [Parser.primary_succ, word, if_neg notTruth, if_neg notNull, Parser.identifier_run, free,
    Bool.false_eq_true, if_false, one.place_eq]

theorem readsPrimary_number {value : Number} {raw : String} (literal : t.kind = .number value raw) :
    ReadsPrimary (.number (Place.over [t]) value (some raw)) [t] := by
  intro c d one
  obtain ⟨rfl, rfl⟩ := one.last
  refine (runs_of_succ fun fuel (_ : 0 ≤ fuel) => ?_).mono (by simp)
  simp only [Parser.primary_succ, literal, one.place_eq]

theorem readsPrimary_string {value raw : String} (literal : t.kind = .string value raw) :
    ReadsPrimary (.string (Place.over [t]) value (some raw)) [t] := by
  intro c d one
  obtain ⟨rfl, rfl⟩ := one.last
  refine (runs_of_succ fun fuel (_ : 0 ≤ fuel) => ?_).mono (by simp)
  simp only [Parser.primary_succ, literal, one.place_eq]

theorem readsPrimary_boolean {value : Bool}
    (word : t.kind = .word (if value then "true" else "false")) :
    ReadsPrimary (.boolean (Place.over [t]) value) [t] := by
  intro c d one
  obtain ⟨rfl, rfl⟩ := one.last
  refine (runs_of_succ fun fuel (_ : 0 ≤ fuel) => ?_).mono (by simp)
  cases value <;> simp [Parser.primary_succ, word, one.place_eq]

theorem readsPrimary_null (word : t.kind = .word "null") :
    ReadsPrimary (.null (Place.over [t])) [t] := by
  intro c d one
  obtain ⟨rfl, rfl⟩ := one.last
  refine (runs_of_succ fun fuel (_ : 0 ≤ fuel) => ?_).mono (by simp)
  simp [Parser.primary_succ, word, one.place_eq]

theorem readsPrimary_paren (opening : a.kind = .mark .openParen) (inner : Reads Level.sequence e ts)
    (closing : b.kind = .mark .closeParen) :
    ReadsPrimary (e.withNote ⟨e.note.span, some a.start⟩) (a :: (ts ++ [b])) := by
  intro c d all
  obtain ⟨rfl, tail⟩ := all.uncons
  obtain ⟨f, middle, last⟩ := tail.split
  obtain ⟨rfl, rfl⟩ := last.last
  have run := inner.expression middle (stops_of_closing (by simp) closing _)
  refine (runs_of_succ fun fuel (enough : 16 * ts.length + 6 ≤ fuel) => ?_).mono (by simp; omega)
  simp only [Parser.primary_succ, opening, run fuel enough, Parser.ok_bind,
    Cursor.isMark_iff.mpr closing, if_true]

theorem readsPrimary_array (opening : a.kind = .mark .openBracket)
    (elements : Phrase.Reads (.items list) ts) (closing : b.kind = .mark .closeBracket) :
    ReadsPrimary (.array (Place.over (a :: (ts ++ [b]))) (list.map some)) (a :: (ts ++ [b])) := by
  intro c d all
  obtain ⟨rfl, tail⟩ := all.uncons
  obtain ⟨f, middle, last⟩ := tail.split
  obtain ⟨rfl, rfl⟩ := last.last
  refine (runs_of_succ fun fuel (enough : 16 * ts.length + 6 ≤ fuel) => ?_).mono (by simp; omega)
  have run : Parser.items fuel .closeBracket c.advance = .ok (list, f) :=
    elements (by simp) middle closing fuel enough
  simp only [Parser.primary_succ, opening, run, Parser.ok_bind, Cursor.isMark_iff.mpr closing,
    if_true, all.place_eq]

theorem readsChain_dot {point word : Token} {name : String} (inner : Reads Level.member e ts)
    (mark : point.kind = .mark .dot) (property : word.kind = .word name) :
    ReadsChain (.member (Place.over (ts ++ [point, word])) e (.name (Place.over [word]) name) false)
      (ts ++ [point, word]) := by
  intro c d cost r all pos continues
  obtain ⟨f, front, tail⟩ := all.split
  obtain ⟨rfl, last⟩ := tail.uncons
  obtain ⟨rfl, rfl⟩ := last.last
  rw [← all.place_of_ne_nil (by simp), ← last.place_eq] at continues
  have goesOn : Runs (cost + 1) (fun fuel => Parser.chainFrom fuel c.current.start e) f r := by
    refine runs_of_succ fun fuel enough => ?_
    simp only [Parser.chainFrom_succ, Cursor.isMark_iff.mpr mark, if_true, property]
    exact continues fuel enough
  exact (inner.chain (le_refl _) front (by omega) goesOn).mono (by simp; omega)

theorem readsChain_bracket (inner : Reads Level.member left ts)
    (opening : a.kind = .mark .openBracket) (index : Reads Level.sequence right us)
    (closing : b.kind = .mark .closeBracket) :
    ReadsChain (.member (Place.over (ts ++ a :: (us ++ [b]))) left right true)
      (ts ++ a :: (us ++ [b])) := by
  intro c d cost r all pos continues
  obtain ⟨f, front, tail⟩ := all.split
  obtain ⟨rfl, inside⟩ := tail.uncons
  obtain ⟨g, middle, last⟩ := inside.split
  obtain ⟨rfl, rfl⟩ := last.last
  rw [← all.place_of_ne_nil (by simp)] at continues
  have run := index.expression middle (stops_of_closing (by simp) closing _)
  have goesOn : Runs (cost + 16 * us.length + 7)
      (fun fuel => Parser.chainFrom fuel c.current.start left) f r := by
    refine runs_of_succ fun fuel enough => ?_
    have notDot : ¬ f.isMark .dot = true := by simp [Cursor.isMark, opening]
    rw [Parser.chainFrom_succ, if_neg notDot, if_pos (Cursor.isMark_iff.mpr opening),
      run fuel (by omega), Parser.ok_bind, if_pos (Cursor.isMark_iff.mpr closing)]
    exact continues fuel (by omega)
  exact (inner.chain (le_refl _) front (by omega) goesOn).mono (by simp; omega)

theorem readsChain_call (inner : Reads Level.member e ts) (opening : a.kind = .mark .openParen)
    (arguments : Phrase.Reads (.items list) us) (closing : b.kind = .mark .closeParen) :
    ReadsChain (.call (Place.over (ts ++ a :: (us ++ [b]))) e list) (ts ++ a :: (us ++ [b])) := by
  intro c d cost r all pos continues
  obtain ⟨f, front, tail⟩ := all.split
  obtain ⟨rfl, inside⟩ := tail.uncons
  obtain ⟨g, middle, last⟩ := inside.split
  obtain ⟨rfl, rfl⟩ := last.last
  rw [← all.place_of_ne_nil (by simp)] at continues
  have goesOn : Runs (cost + 16 * us.length + 7)
      (fun fuel => Parser.chainFrom fuel c.current.start e) f r := by
    refine runs_of_succ fun fuel enough => ?_
    have run : Parser.items fuel .closeParen f.advance = .ok (list, g) :=
      arguments (by simp) middle closing fuel (by omega)
    have notDot : ¬ f.isMark .dot = true := by simp [Cursor.isMark, opening]
    have notBracket : ¬ f.isMark .openBracket = true := by simp [Cursor.isMark, opening]
    rw [Parser.chainFrom_succ, if_neg notDot, if_neg notBracket,
      if_pos (Cursor.isMark_iff.mpr opening), run, Parser.ok_bind,
      if_pos (Cursor.isMark_iff.mpr closing)]
    exact continues fuel (by omega)
  exact (inner.chain (le_refl _) front (by omega) goesOn).mono (by simp; omega)

theorem readsUnary_updated {operator : UpdateOperator} (inner : Reads Level.member e ts)
    (free : endsInUpdate ts = false) (mark : t.kind = operator.kind)
    (sameLine : t.newlineBefore = false) :
    ReadsUnary (.update (Place.over (ts ++ [t])) operator false e) (ts ++ [t]) := by
  intro c d all _
  obtain ⟨f, front, last⟩ := all.split
  obtain ⟨rfl, rfl⟩ := last.last
  have stops : Stops ts f.current Level.member := by
    intro level member
    cases operator <;>
      simp only [binds, mark, UpdateOperator.kind, free, sameLine, Bool.or_self,
        Bool.false_eq_true, if_false, Option.mem_some] at member <;>
      subst member <;> decide
  refine (runs_of_succ fun fuel (enough : 16 * ts.length + 1 ≤ fuel) => ?_).mono (by simp)
  have run := inner.chain (le_refl _) front (le_refl 1) (chainFrom_runs stops free) fuel (by omega)
  obtain ⟨notUnary, notUpdate⟩ := not_operator_of_chain run
  simp only [Parser.unary_succ, notUnary, notUpdate, run, Parser.ok_bind,
    Cursor.updateOperator?_eq_some.mpr mark, sameLine, Bool.false_eq_true, if_false,
    all.place_of_ne_nil (List.append_ne_nil_of_right_ne_nil ts (List.cons_ne_nil f.current []))]

theorem readsUnary_unary {operator : UnaryOperator} (mark : t.kind = operator.kind)
    (some : ts ≠ []) (inner : Reads Level.unary e ts) :
    ReadsUnary (.unary (Place.over (t :: ts)) operator e) (t :: ts) := by
  intro c d all stops
  obtain ⟨rfl, tail⟩ := all.uncons
  have run := inner.unary (le_refl _) tail ((stops_cons some).mp stops)
  refine (runs_of_succ fun fuel (enough : 16 * ts.length + 2 ≤ fuel) => ?_).mono (by simp)
  simp only [Parser.unary_succ, Cursor.unaryOperator?_eq_some.mpr mark, run fuel enough,
    Parser.ok_bind, all.place_eq]

theorem readsUnary_updating {operator : UpdateOperator} (mark : t.kind = operator.kind)
    (some : ts ≠ []) (inner : Reads Level.unary e ts) :
    ReadsUnary (.update (Place.over (t :: ts)) operator true e) (t :: ts) := by
  intro c d all stops
  obtain ⟨rfl, tail⟩ := all.uncons
  have run := inner.unary (le_refl _) tail ((stops_cons some).mp stops)
  have notUnary : c.unaryOperator? = none := by
    cases operator <;> simp [Cursor.unaryOperator?, mark, UpdateOperator.kind, UnaryOperator.ofMark?]
  refine (runs_of_succ fun fuel (enough : 16 * ts.length + 2 ≤ fuel) => ?_).mono (by simp)
  simp only [Parser.unary_succ, notUnary, Cursor.updateOperator?_eq_some.mpr mark, run fuel enough,
    Parser.ok_bind, all.place_eq]

theorem rightEdge_operator {operator : BinaryOperator} (notComma : operator ≠ .comma) :
    rightEdge (Level.ofBinary operator) = Parser.rightLeast operator + 2 ∧
      Level.ofBinary operator < rightEdge (leftLevel operator) := by
  cases operator <;> first | exact absurd rfl notComma | decide

theorem readsBinary_join {operator : BinaryOperator} (notComma : operator ≠ .comma)
    (first : ReadsBinary left ts (leftLevel operator)) (mark : t.kind = operator.kind)
    (some : us ≠ []) (second : ReadsBinary right us (Parser.rightLeast operator + 2)) :
    ReadsBinary (.binary (Place.over (ts ++ t :: us)) operator left right) (ts ++ t :: us)
      (Level.ofBinary operator) := by
  intro c d lowest cost r all low stops pos continues
  obtain ⟨f, front, tail⟩ := all.split
  obtain ⟨rfl, behind⟩ := tail.uncons
  rw [← all.place_of_ne_nil (by simp)] at continues
  rw [(rightEdge_operator notComma).1, stops_append (by simp), stops_cons some] at stops
  have edge : rightEdge (Parser.rightLeast operator + 2) ≥ Parser.rightLeast operator + 2 := by
    cases operator <;> first | exact absurd rfl notComma | decide
  have operand := second behind (le_refl _) (stops.mono edge) (le_refl 3) (binaryFrom_runs stops)
  have high : ¬ operator.precedence < lowest := by
    rw [(BinaryOperator.level_eq notComma).1] at low
    omega
  have goesOn : Runs (cost + 16 * us.length + 1)
      (fun fuel => Parser.binaryFrom fuel c.current.start lowest left) f r := by
    refine runs_of_succ fun fuel enough => ?_
    have run : Parser.binary fuel (Parser.rightLeast operator) f.advance = .ok (right, d) :=
      operand fuel (by omega)
    simp only [Parser.binaryFrom_succ, Cursor.binaryOperator?_eq_some.mpr ⟨notComma, mark⟩, high,
      if_false, run, Parser.ok_bind]
    exact continues fuel (by omega)
  have operandStops : Stops ts f.current (rightEdge (leftLevel operator)) := by
    intro level member
    rw [binds_operator notComma mark, Option.mem_some_iff] at member
    exact member ▸ (rightEdge_operator notComma).2
  have lower : Level.ofBinary operator ≤ leftLevel operator := by
    cases operator <;> first | exact absurd rfl notComma | decide
  exact (first front (low.trans lower) operandStops (by omega) goesOn).mono (by simp; omega)

theorem readsConditional_conditional {test : Expr Place}
    (condition : Reads (Level.conditional + 1) test ts) (question : a.kind = .mark .question)
    (positive : Reads Level.assignment left us) (colon : b.kind = .mark .colon)
    (negative : Reads Level.assignment right vs) (some : vs ≠ []) :
    ReadsConditional (.conditional (Place.over (ts ++ a :: (us ++ b :: vs))) test left right)
      (ts ++ a :: (us ++ b :: vs)) := by
  intro c d all stops
  obtain ⟨f, front, tail⟩ := all.split
  obtain ⟨rfl, inside⟩ := tail.uncons
  obtain ⟨g, middle, rest⟩ := inside.split
  obtain ⟨rfl, last⟩ := rest.uncons
  rw [stops_append (by simp), stops_cons (by simp), stops_append (by simp), stops_cons some] at stops
  have asked : Stops ts f.current (Level.conditional + 1) := by
    intro level member
    simp only [binds, question, Option.mem_some_iff] at member
    exact member ▸ Nat.lt_succ_self _
  have first := condition.binary (by decide) front (le_refl 3) (asked.mono (by decide)) (le_refl 3)
    (binaryFrom_runs asked)
  have second := positive.assignment (le_refl _) middle (stops_of_closing (by simp) colon _)
  have third := negative.assignment (le_refl _) last stops
  refine (runs_of_succ fun fuel
    (enough : 16 * (ts.length + us.length + vs.length) + 5 ≤ fuel) => ?_).mono (by simp; omega)
  have run : Parser.binary fuel 1 c = .ok (test, f) := first fuel (by omega)
  rw [Parser.conditional_succ, run, Parser.ok_bind, if_pos (Cursor.isMark_iff.mpr question),
    second fuel (by omega), Parser.ok_bind, if_pos (Cursor.isMark_iff.mpr colon),
    third fuel (by omega), Parser.ok_bind, all.place_of_ne_nil (by simp)]

theorem readsAssignment_assignment {operator : AssignmentOperator} (first : Reads Level.conditional left ts)
    (assignable : left.isAssignable = true) (mark : t.kind = operator.kind) (some : us ≠ [])
    (second : Reads Level.assignment right us) :
    ReadsAssignment (.assignment (Place.over (ts ++ t :: us)) operator left right) (ts ++ t :: us) := by
  intro c d all stops
  obtain ⟨f, front, tail⟩ := all.split
  obtain ⟨rfl, behind⟩ := tail.uncons
  rw [stops_append (by simp), stops_cons some] at stops
  have targetStops : Stops ts f.current (conditionalEdge left) := by
    intro level member
    rw [conditionalEdge, if_pos assignable]
    cases operator <;>
      simp only [binds, mark, AssignmentOperator.kind, AssignmentOperator.ofMark?, Option.isSome_some,
        if_true, Option.mem_some] at member <;>
      subst member <;> decide
  have target := first.conditional (le_refl _) front targetStops
  have value := second.assignment (le_refl _) behind stops
  refine (runs_of_succ fun fuel (enough : 16 * (ts.length + us.length) + 5 ≤ fuel) => ?_).mono
    (by simp)
  simp only [Parser.assignment_succ, target fuel (by omega), Parser.ok_bind,
    Cursor.assignmentOperator?_eq_some.mpr mark, assignable, if_true, value fuel (by omega),
    all.place_of_ne_nil (List.append_ne_nil_of_right_ne_nil ts (List.cons_ne_nil f.current us))]

theorem readsExpression_sequence (head : Reads Level.assignment e ts) (tail : Derives (.parts list) us)
    (reads : Phrase.Reads (.parts list) us) (some : list ≠ []) (filled : ts ≠ []) :
    ReadsExpression (.sequence (Place.over (ts ++ us)) (e :: list)) (ts ++ us) := by
  intro c d all stops
  obtain ⟨f, front, rest⟩ := all.split
  have comma : f.current.kind = .mark .comma := by
    cases tail with
    | noParts => exact absurd rfl some
    | moreParts comma => rw [rest.current_eq, comma]
  have first := head.assignment (le_refl _) front (stops_of_comma comma)
  have others : Runs _ _ f (list, d) := reads rest stops
  have length := List.length_pos_iff.mpr filled
  refine (runs_of_succ fun fuel (enough : 16 * (ts.length + us.length) + 5 ≤ fuel) => ?_).mono
    (by simp)
  rw [Parser.expression_succ, first fuel (by omega), Parser.ok_bind,
    if_pos (Cursor.isMark_iff.mpr comma), others fuel (by omega), Parser.ok_bind,
    all.place_of_ne_nil (by simp [filled])]

theorem reads_noItems : Phrase.Reads (.items []) [] := by
  intro c d closing _ passes mark
  rw [← passes.eq_of_nil]
  refine (runs_of_succ fun fuel (_ : 0 ≤ fuel) => ?_).mono (by simp)
  rw [Parser.items_succ, if_pos (Cursor.isMark_iff.mpr mark)]

theorem not_closing_of_starts {c : Cursor} {closing : Mark}
    (closes : closing ∈ [.closeParen, Mark.closeBracket]) (starts : Starts c.current.kind) :
    ¬ c.isMark closing = true := by
  intro isMark
  rw [Cursor.isMark_iff.mp isMark] at starts
  simp only [List.mem_cons, List.not_mem_nil, or_false] at closes
  rcases closes with rfl | rfl <;> simp [Starts] at starts

theorem reads_oneItem (derives : Derives (.expr Level.assignment e) ts)
    (item : Reads Level.assignment e ts) : Phrase.Reads (.items [e]) ts := by
  intro c d closing closes passes mark
  have run := item.assignment (le_refl _) passes
    (stops_of_closing (List.mem_append_left [.colon, .semicolon] closes) mark _)
  have notComma : ¬ d.isMark .comma = true := by
    simp only [List.mem_cons, List.not_mem_nil, or_false] at closes
    rcases closes with rfl | rfl <;> simp [Cursor.isMark, mark]
  refine runs_of_succ fun fuel enough => ?_
  rw [Parser.items_succ, if_neg (not_closing_of_starts closes (derives.starts_of_passes passes)),
    run fuel (by omega), Parser.ok_bind, if_neg notComma]

theorem reads_moreItems (derives : Derives (.expr Level.assignment e) ts)
    (item : Reads Level.assignment e ts) (comma : t.kind = .mark .comma)
    (rest : Phrase.Reads (.items list) us) : Phrase.Reads (.items (e :: list)) (ts ++ t :: us) := by
  intro c d closing closes all mark
  obtain ⟨f, front, tail⟩ := all.split
  obtain ⟨rfl, behind⟩ := tail.uncons
  have run := item.assignment (le_refl _) front (stops_of_comma comma)
  have starts := derives.starts_of_passes front
  refine (runs_of_succ fun fuel (enough : 16 * (ts.length + us.length) + 6 ≤ fuel) => ?_).mono
    (by simp)
  have others : Parser.items fuel closing f.advance = .ok (list, d) :=
    rest closes behind mark fuel (by omega)
  rw [Parser.items_succ, if_neg (not_closing_of_starts closes starts), run fuel (by omega),
    Parser.ok_bind, if_pos (Cursor.isMark_iff.mpr comma), others, Parser.ok_bind]

theorem reads_noParts : Phrase.Reads (.parts []) [] := by
  intro c d front passes stops
  rw [passes.eq_of_nil] at stops ⊢
  have bare : ¬ c.isMark .comma = true := by
    intro isMark
    refine absurd (stops Level.sequence ?_) (lt_irrefl _)
    simp [binds, Cursor.isMark_iff.mp isMark]
  refine (runs_of_succ fun fuel (_ : 0 ≤ fuel) => ?_).mono (by simp)
  rw [Parser.commaParts_succ, if_neg bare]

theorem reads_moreParts (comma : t.kind = .mark .comma)
    (derives : Derives (.expr Level.assignment e) ts) (part : Reads Level.assignment e ts)
    (parts : Derives (.parts list) us) (rest : Phrase.Reads (.parts list) us) :
    Phrase.Reads (.parts (e :: list)) (t :: (ts ++ us)) := by
  intro c d before all stops
  obtain ⟨rfl, tail⟩ := all.uncons
  obtain ⟨f, front, behind⟩ := tail.split
  -- behind a part stands the comma of the next one, or what stands behind them all
  have ends : Stops ts f.current Level.assignment := by
    cases parts with
    | noParts =>
      rw [behind.eq_of_nil] at stops
      rw [List.append_nil, stops_append (by simp), stops_cons derives.ne_nil] at stops
      exact stops.mono (by decide)
    | moreParts next => exact stops_of_comma (behind.current_eq ▸ next)
  have run := part.assignment (le_refl _) front ends
  have others : Runs _ _ f (list, d) :=
    @rest f d (before ++ c.current :: ts) behind (by simpa using stops)
  refine (runs_of_succ fun fuel (enough : 16 * (ts.length + us.length) + 6 ≤ fuel) => ?_).mono
    (by simp)
  rw [Parser.commaParts_succ, if_pos (Cursor.isMark_iff.mpr comma), run fuel (by omega),
    Parser.ok_bind, others fuel (by omega), Parser.ok_bind]

end Cases

/-- The parsers read every phrase of the grammar as what it derives. -/
theorem Derives.reads {phrase : Phrase} {ts : List Token} (derives : Derives phrase ts) :
    phrase.Reads ts := by
  induction derives with
  | name word free =>
    exact .ofPrimary (by simp) ((Derives.name word free).endsInUpdate (by decide))
      (readsPrimary_name word free)
  | number literal =>
    exact .ofPrimary (by simp) ((Derives.number literal).endsInUpdate (by decide))
      (readsPrimary_number literal)
  | string literal =>
    exact .ofPrimary (by simp) ((Derives.string literal).endsInUpdate (by decide))
      (readsPrimary_string literal)
  | boolean word =>
    exact .ofPrimary (by simp) ((Derives.boolean word).endsInUpdate (by decide))
      (readsPrimary_boolean word)
  | null word =>
    exact .ofPrimary (by simp) ((Derives.null word).endsInUpdate (by decide))
      (readsPrimary_null word)
  | paren opening inner closing reads =>
    exact .ofPrimary (by simp) ((Derives.paren opening inner closing).endsInUpdate (by decide))
      (readsPrimary_paren opening reads closing)
  | array opening elements closing reads =>
    exact .ofPrimary (by simp) ((Derives.array opening elements closing).endsInUpdate (by decide))
      (readsPrimary_array opening reads closing)
  | dot inner mark property reads =>
    exact .ofChain (by simp) ((Derives.dot inner mark property).endsInUpdate (le_refl _))
      (readsChain_dot reads mark property)
  | bracket inner opening index closing reads indexReads =>
    exact .ofChain (by simp) ((Derives.bracket inner opening index closing).endsInUpdate (le_refl _))
      (readsChain_bracket reads opening indexReads closing)
  | call inner opening arguments closing reads listReads =>
    exact .ofChain (by simp) ((Derives.call inner opening arguments closing).endsInUpdate (le_refl _))
      (readsChain_call reads opening listReads closing)
  | updated inner mark sameLine reads =>
    exact .ofUnary (by simp) (by decide) (by decide)
      (readsUnary_updated reads (inner.endsInUpdate (le_refl _)) mark sameLine)
  | unary mark inner reads =>
    exact .ofUnary (by simp) (by decide) (by decide) (readsUnary_unary mark inner.ne_nil reads)
  | updating mark inner reads =>
    exact .ofUnary (by simp) (by decide) (by decide) (readsUnary_updating mark inner.ne_nil reads)
  | power base mark exponent baseReads exponentReads =>
    exact .ofBinary (by decide) (by decide) (readsBinary_join (by decide)
      (baseReads.binary (by decide)) mark exponent.ne_nil (exponentReads.binary (by decide)))
  | @binary t ts us operator left right notComma notPower first mark second firstReads secondReads =>
    obtain ⟨lower, upper⟩ := BinaryOperator.level_bounds notComma
    have left : ReadsBinary left ts (leftLevel operator) := by
      rw [leftLevel, if_neg notPower]
      exact firstReads.binary lower
    have right : ReadsBinary right us (Parser.rightLeast operator + 2) := by
      rw [Parser.rightLeast, if_neg notPower,
        show operator.precedence + 1 + 2 = Level.ofBinary operator + 1 by
          rw [(BinaryOperator.level_eq notComma).1]]
      exact secondReads.binary (Nat.lt_succ_of_lt lower)
    exact .ofBinary lower upper (readsBinary_join notComma left mark second.ne_nil right)
  | conditional condition question positive colon negative reads positiveReads negativeReads =>
    exact .ofConditional (readsConditional_conditional reads question positiveReads colon
      negativeReads negative.ne_nil)
  | assignment left assignable mark right reads rightReads =>
    exact .ofAssignment (readsAssignment_assignment reads assignable mark right.ne_nil rightReads)
  | sequence head tail some reads tailReads =>
    exact .ofExpression (readsExpression_sequence reads tail tailReads some head.ne_nil)
  | looser tighter reads => exact reads.looser
  | noItems => exact reads_noItems
  | oneItem item reads => exact reads_oneItem item reads
  | moreItems item comma rest reads restReads => exact reads_moreItems item reads comma restReads
  | noParts => exact reads_noParts
  | moreParts comma part rest reads restReads =>
    exact reads_moreParts comma part reads rest restReads

end Arborist.Script

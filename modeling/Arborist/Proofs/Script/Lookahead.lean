import Mathlib
import Arborist.Proofs.Script.Reading

/-!
What the current token tells a parser. Operators are recognised by the kind that spells them, a
token binds to the phrase before it at one level at most, and a cursor passes over tokens one by one
without ever passing the end.
-/

namespace Arborist.Script

open Token (Kind)

namespace BinaryOperator

theorem kind_of_ofMark? {m : Mark} {operator : BinaryOperator} (h : ofMark? m = some operator) :
    operator ≠ .comma ∧ Kind.mark m = operator.kind := by
  cases m <;> simp only [ofMark?, Option.some.injEq, reduceCtorEq] at h <;> subst h <;>
    exact ⟨by decide, rfl⟩

theorem kind_of_ofWord? {name : String} {operator : BinaryOperator}
    (h : ofWord? name = some operator) : operator ≠ .comma ∧ Kind.word name = operator.kind := by
  simp only [ofWord?] at h
  split at h
  · rename_i eq
    simp only [Option.some.injEq] at h
    subst h eq
    exact ⟨by decide, rfl⟩
  · split at h
    · rename_i eq
      simp only [Option.some.injEq] at h
      subst h eq
      exact ⟨by decide, rfl⟩
    · exact absurd h (by simp)

theorem level_bounds {operator : BinaryOperator} (notComma : operator ≠ .comma) :
    Level.conditional < Level.ofBinary operator ∧ Level.ofBinary operator < Level.unary := by
  cases operator <;> first | exact absurd rfl notComma | decide

theorem level_eq {operator : BinaryOperator} (notComma : operator ≠ .comma) :
    Level.ofBinary operator = operator.precedence + 2 ∧ 1 ≤ operator.precedence := by
  cases operator <;> first | exact absurd rfl notComma | decide

end BinaryOperator

namespace Cursor

theorem isMark_iff {c : Cursor} {m : Mark} : c.isMark m = true ↔ c.current.kind = .mark m := by
  simp [isMark]

theorem isWord_iff {c : Cursor} {name : String} :
    c.isWord name = true ↔ c.current.kind = .word name := by
  simp [isWord]

theorem atEnd_iff {c : Cursor} : c.atEnd = true ↔ c.current.kind = .finish := by simp [atEnd]

theorem binaryOperator?_eq_some {c : Cursor} {operator : BinaryOperator} :
    c.binaryOperator? = some operator ↔ operator ≠ .comma ∧ c.current.kind = operator.kind := by
  constructor
  · intro h
    simp only [binaryOperator?] at h
    split at h
    · rename_i m kind
      obtain ⟨notComma, same⟩ := BinaryOperator.kind_of_ofMark? h
      exact ⟨notComma, kind.trans same⟩
    · rename_i name kind
      obtain ⟨notComma, same⟩ := BinaryOperator.kind_of_ofWord? h
      exact ⟨notComma, kind.trans same⟩
    · exact absurd h (by simp)
  · rintro ⟨notComma, kind⟩
    simp only [binaryOperator?, kind]
    cases operator <;> first | exact absurd rfl notComma | rfl

theorem unaryOperator?_eq_some {c : Cursor} {operator : UnaryOperator} :
    c.unaryOperator? = some operator ↔ c.current.kind = operator.kind := by
  constructor
  · intro h
    simp only [unaryOperator?] at h
    split at h
    · rename_i m kind
      rw [kind]
      cases m <;> simp only [UnaryOperator.ofMark?, Option.some.injEq, reduceCtorEq] at h <;>
        subst h <;> rfl
    · rename_i name kind
      rw [kind]
      simp only [UnaryOperator.ofWord?] at h
      split at h
      · rename_i eq
        simp only [Option.some.injEq] at h
        subst h eq
        rfl
      · split at h
        · rename_i eq
          simp only [Option.some.injEq] at h
          subst h eq
          rfl
        · split at h
          · rename_i eq
            simp only [Option.some.injEq] at h
            subst h eq
            rfl
          · exact absurd h (by simp)
    · exact absurd h (by simp)
  · intro kind
    simp only [unaryOperator?, kind]
    cases operator <;> rfl

theorem updateOperator?_eq_some {c : Cursor} {operator : UpdateOperator} :
    c.updateOperator? = some operator ↔ c.current.kind = operator.kind := by
  constructor
  · intro h
    simp only [updateOperator?] at h
    split at h
    · rename_i m kind
      rw [kind]
      cases m <;> simp only [UpdateOperator.ofMark?, Option.some.injEq, reduceCtorEq] at h <;>
        subst h <;> rfl
    · exact absurd h (by simp)
  · intro kind
    simp only [updateOperator?, kind]
    cases operator <;> rfl

theorem assignmentOperator?_eq_some {c : Cursor} {operator : AssignmentOperator} :
    c.assignmentOperator? = some operator ↔ c.current.kind = operator.kind := by
  constructor
  · intro h
    simp only [assignmentOperator?] at h
    split at h
    · rename_i m kind
      rw [kind]
      cases m <;> simp only [AssignmentOperator.ofMark?, Option.some.injEq, reduceCtorEq] at h <;>
        subst h <;> rfl
    · exact absurd h (by simp)
  · intro kind
    simp only [assignmentOperator?, kind]
    cases operator <;> rfl

theorem declarationKind?_eq_some {c : Cursor} {kind : DeclarationKind} :
    c.declarationKind? = some kind ↔ c.current.kind = .word kind.text := by
  constructor
  · intro h
    simp only [declarationKind?] at h
    split at h
    · rename_i name spelled
      have found := List.find?_some h
      rw [spelled, ← beq_iff_eq.mp found]
    · exact absurd h (by simp)
  · intro spelled
    simp only [declarationKind?, spelled]
    cases kind <;> decide

theorem endsStatement_iff {c : Cursor} : c.endsStatement = true ↔ MayEnd c.current := by
  simp [endsStatement, MayEnd, atEnd, isMark, or_assoc]

end Cursor

theorem binds_append {front us : List Token} (some : us ≠ []) (next : Token) :
    binds (front ++ us) next = binds us next := by
  have last : endsInUpdate (front ++ us) = endsInUpdate us := by
    rw [endsInUpdate, endsInUpdate, List.getLast?_append_of_ne_nil _ some]
  simp only [binds, last]

theorem stops_append {front us : List Token} (some : us ≠ []) {next : Token} {least : Level} :
    Stops (front ++ us) next least ↔ Stops us next least := by
  simp only [Stops, binds_append some]

theorem stops_cons {t : Token} {us : List Token} (some : us ≠ []) {next : Token} {least : Level} :
    Stops (t :: us) next least ↔ Stops us next least :=
  @stops_append [t] us some next least

theorem Stops.mono {phrase : List Token} {next : Token} {least more : Level}
    (stops : Stops phrase next least) (le : least ≤ more) : Stops phrase next more :=
  fun level member => lt_of_lt_of_le (stops level member) le

/-- Why a token binds at a level. -/
inductive Binder (phrase : List Token) (next : Token) : Level → Prop where
  | chained (free : endsInUpdate phrase = false) (mark : next.kind = .mark .dot ∨
      next.kind = .mark .openBracket ∨ next.kind = .mark .openParen) : Binder phrase next Level.member
  | updated (free : endsInUpdate phrase = false) (sameLine : next.newlineBefore = false)
      (operator : UpdateOperator) (mark : next.kind = operator.kind) :
      Binder phrase next Level.postfixed
  | operand (operator : BinaryOperator) (notComma : operator ≠ .comma)
      (mark : next.kind = operator.kind) : Binder phrase next (Level.ofBinary operator)
  | question (mark : next.kind = .mark .question) : Binder phrase next Level.conditional
  | assigned (operator : AssignmentOperator) (mark : next.kind = operator.kind) :
      Binder phrase next Level.assignment
  | comma (mark : next.kind = .mark .comma) : Binder phrase next Level.sequence

theorem binder_of_binds {phrase : List Token} {next : Token} {level : Level}
    (h : binds phrase next = some level) : Binder phrase next level := by
  unfold binds at h
  split at h
  case h_1 kind | h_2 kind | h_3 kind =>
    split at h
    · simp at h
    · rename_i free
      simp only [Option.some.injEq] at h
      subst h
      exact .chained (by simpa using free) (by simp [kind])
  case h_4 kind =>
    split at h
    · simp at h
    · rename_i free
      simp only [Bool.or_eq_true, not_or, Bool.not_eq_true, Option.some.injEq] at free h
      subst h
      exact .updated free.1 free.2 .increment kind
  case h_5 kind =>
    split at h
    · simp at h
    · rename_i free
      simp only [Bool.or_eq_true, not_or, Bool.not_eq_true, Option.some.injEq] at free h
      subst h
      exact .updated free.1 free.2 .decrement kind
  case h_6 kind =>
    simp only [Option.some.injEq] at h
    subst h
    exact .question kind
  case h_7 kind =>
    simp only [Option.some.injEq] at h
    subst h
    exact .comma kind
  case h_8 m _ _ _ _ _ _ _ kind =>
    split at h
    · rename_i assigns
      obtain ⟨operator, found⟩ := Option.isSome_iff_exists.mp assigns
      simp only [Option.some.injEq] at h
      subst h
      refine .assigned operator (kind.trans ?_)
      cases m <;> simp only [AssignmentOperator.ofMark?, Option.some.injEq, reduceCtorEq] at found <;>
        subst found <;> rfl
    · obtain ⟨operator, found, eq⟩ := Option.map_eq_some_iff.mp h
      subst eq
      obtain ⟨notComma, same⟩ := BinaryOperator.kind_of_ofMark? found
      exact .operand operator notComma (kind.trans same)
  case h_9 name kind =>
    obtain ⟨operator, found, eq⟩ := Option.map_eq_some_iff.mp h
    subst eq
    obtain ⟨notComma, same⟩ := BinaryOperator.kind_of_ofWord? found
    exact .operand operator notComma (kind.trans same)
  case h_10 => simp at h

theorem binds_operator {phrase : List Token} {next : Token} {operator : BinaryOperator}
    (notComma : operator ≠ .comma) (mark : next.kind = operator.kind) :
    binds phrase next = some (Level.ofBinary operator) := by
  cases operator <;> first | exact absurd rfl notComma | (simp only [binds, mark]; rfl)

theorem Stops.of_succ {phrase : List Token} {next : Token} {least : Level}
    (stops : Stops phrase next (least + 1)) (bare : binds phrase next ≠ some least) :
    Stops phrase next least := by
  intro level member
  refine lt_of_le_of_ne (Nat.le_of_lt_succ (stops level member)) ?_
  rintro rfl
  exact bare member

theorem comma_of_binds {phrase : List Token} {next : Token}
    (h : binds phrase next = some Level.sequence) : next.kind = .mark .comma := by
  generalize same : Level.sequence = level at h
  cases binder_of_binds h with
  | comma mark => exact mark
  | operand operator notComma _ =>
    exact absurd (same ▸ (BinaryOperator.level_bounds notComma).1) (by decide)
  | _ => exact absurd same (by decide)

theorem assigned_of_binds {phrase : List Token} {next : Token}
    (h : binds phrase next = some Level.assignment) :
    ∃ operator : AssignmentOperator, next.kind = operator.kind := by
  generalize same : Level.assignment = level at h
  cases binder_of_binds h with
  | assigned operator mark => exact ⟨operator, mark⟩
  | operand operator notComma _ =>
    exact absurd (same ▸ (BinaryOperator.level_bounds notComma).1) (by decide)
  | _ => exact absurd same (by decide)

theorem question_of_binds {phrase : List Token} {next : Token}
    (h : binds phrase next = some Level.conditional) : next.kind = .mark .question := by
  generalize same : Level.conditional = level at h
  cases binder_of_binds h with
  | question mark => exact mark
  | operand operator notComma _ =>
    exact absurd same (BinaryOperator.level_bounds notComma).1.ne
  | _ => exact absurd same (by decide)

theorem updated_of_binds {phrase : List Token} {next : Token}
    (h : binds phrase next = some Level.postfixed) :
    next.newlineBefore = false ∧ ∃ operator : UpdateOperator, next.kind = operator.kind := by
  generalize same : Level.postfixed = level at h
  cases binder_of_binds h with
  | updated _ sameLine operator mark => exact ⟨sameLine, operator, mark⟩
  | operand operator notComma _ =>
    exact absurd (same ▸ (BinaryOperator.level_bounds notComma).2) (by decide)
  | _ => exact absurd same (by decide)

theorem chained_of_binds {phrase : List Token} {next : Token}
    (h : binds phrase next = some Level.member) : next.kind = .mark .dot ∨
      next.kind = .mark .openBracket ∨ next.kind = .mark .openParen := by
  generalize same : Level.member = level at h
  cases binder_of_binds h with
  | chained _ mark => exact mark
  | operand operator notComma _ =>
    exact absurd (same ▸ (BinaryOperator.level_bounds notComma).2) (by decide)
  | _ => exact absurd same (by decide)

theorem stops_primary (phrase : List Token) (next : Token) :
    Stops phrase next (Level.member + 1) := by
  intro level member
  cases binder_of_binds member with
  | operand operator notComma _ =>
    exact (BinaryOperator.level_bounds notComma).2.trans (by decide)
  | _ => decide

theorem Stops.unary {phrase : List Token} {next : Token}
    (stops : Stops phrase next Level.postfixed) : Stops phrase next Level.unary := by
  intro level member
  have loose := stops level member
  cases binder_of_binds member with
  | chained | updated => exact absurd loose (by decide)
  | operand operator notComma _ => exact (BinaryOperator.level_bounds notComma).2
  | _ => decide

theorem stops_of_endsInUpdate {phrase : List Token} {next : Token}
    (ends : endsInUpdate phrase = true) : Stops phrase next Level.postfixed := by
  intro level member
  cases binder_of_binds member with
  | chained free => simp [ends] at free
  | updated free => simp [ends] at free
  | operand operator notComma _ =>
    exact (BinaryOperator.level_bounds notComma).2.trans (by decide)
  | _ => decide

theorem stops_of_operators {phrase : List Token} {next : Token} {least : Nat} (pos : 1 ≤ least)
    (stops : Stops phrase next Level.unary)
    (below : ∀ operator : BinaryOperator, operator ≠ .comma → next.kind = operator.kind →
      operator.precedence < least) : Stops phrase next (least + 2) := by
  intro level member
  have loose := stops level member
  cases binder_of_binds member with
  | chained | updated => exact absurd loose (by decide)
  | operand operator notComma mark =>
    rw [(BinaryOperator.level_eq notComma).1]
    exact Nat.add_lt_add_right (below operator notComma mark) 2
  | question => exact Nat.lt_add_of_pos_left pos
  | assigned => exact Nat.lt_add_left least (by decide)
  | comma => exact Nat.lt_add_left least (by decide)

theorem BinaryOperator.kind_ne_finish (operator : BinaryOperator) : operator.kind ≠ .finish := by
  cases operator <;> simp [BinaryOperator.kind]

theorem UnaryOperator.kind_ne_finish (operator : UnaryOperator) : operator.kind ≠ .finish := by
  cases operator <;> simp [UnaryOperator.kind]

theorem UpdateOperator.kind_ne_finish (operator : UpdateOperator) : operator.kind ≠ .finish := by
  cases operator <;> simp [UpdateOperator.kind]

theorem AssignmentOperator.kind_ne_finish (operator : AssignmentOperator) :
    operator.kind ≠ .finish := by
  cases operator <;> simp [AssignmentOperator.kind]

namespace Cursor

def tokens (c : Cursor) : List Token := c.current :: c.rest

def Ended (c : Cursor) : Prop :=
  ∃ inner last, c.tokens = inner ++ [last] ∧ last.kind = .finish ∧ ∀ t ∈ inner, t.kind ≠ .finish

structure Passes (c d : Cursor) (ts : List Token) : Prop where
  tokens : c.tokens = ts ++ d.tokens
  previousEnd : d.previousEnd = (ts.getLast?.map Token.stop).getD c.previousEnd

namespace Passes

variable {c d e : Cursor} {ts us : List Token}

theorem refl (c : Cursor) : Passes c c [] := ⟨rfl, rfl⟩

theorem trans (first : Passes c d ts) (second : Passes d e us) : Passes c e (ts ++ us) := by
  refine ⟨?_, ?_⟩
  · rw [first.tokens, second.tokens, List.append_assoc]
  · rw [second.previousEnd, first.previousEnd]
    cases us with
    | nil => simp
    | cons u us =>
      rw [List.getLast?_append_of_ne_nil _ (List.cons_ne_nil u us), List.getLast?_cons]
      rfl

theorem split (both : Passes c e (ts ++ us)) : ∃ d, Passes c d ts ∧ Passes d e us := by
  obtain ⟨next, rest, shape⟩ : ∃ next rest, us ++ e.tokens = next :: rest :=
    List.exists_cons_of_ne_nil (by simp [Cursor.tokens])
  refine ⟨⟨(ts.getLast?.map Token.stop).getD c.previousEnd, next, rest⟩, ⟨?_, rfl⟩, ?_, ?_⟩
  · rw [both.tokens, List.append_assoc, shape]
    rfl
  · exact shape.symm
  · rw [both.previousEnd]
    cases us with
    | nil => simp
    | cons u us =>
      rw [List.getLast?_append_of_ne_nil _ (List.cons_ne_nil u us), List.getLast?_cons]
      rfl

theorem eq_of_nil (none : Passes c d []) : d = c := by
  obtain ⟨tokens, previousEnd⟩ := none
  cases c
  cases d
  simp_all [Cursor.tokens]

theorem current_eq {t : Token} (passes : Passes c d (t :: ts)) : c.current = t := by
  have heads := passes.tokens
  simp only [Cursor.tokens, List.cons_append, List.cons.injEq] at heads
  exact heads.1

theorem rest_eq {t : Token} (passes : Passes c d (t :: ts)) : c.rest = ts ++ d.tokens := by
  have tails := passes.tokens
  simp only [Cursor.tokens, List.cons_append, List.cons.injEq] at tails
  exact tails.2

theorem advance_eq {t : Token} (one : Passes c d [t]) : c.advance = d := by
  have current := one.current_eq
  have tail := one.rest_eq
  obtain ⟨_, previousEnd⟩ := one
  cases d
  simp_all [Cursor.tokens, Cursor.advance]

theorem uncons {t : Token} (passes : Passes c d (t :: ts)) :
    c.current = t ∧ Passes c.advance d ts := by
  obtain ⟨f, first, rest⟩ : ∃ f, Passes c f [t] ∧ Passes f d ts := split passes
  rw [first.advance_eq]
  exact ⟨passes.current_eq, rest⟩

theorem last {t : Token} (one : Passes c d [t]) : c.current = t ∧ d = c.advance :=
  ⟨one.current_eq, one.advance_eq.symm⟩

theorem ended (passes : Passes c d ts) (ended : c.Ended) : d.Ended := by
  obtain ⟨inner, last, shape, finish, live⟩ := ended
  have both : ts ++ d.tokens = inner ++ [last] := passes.tokens.symm.trans shape
  rcases List.append_eq_append_iff.mp both with ⟨middle, first, second⟩ | ⟨middle, first, second⟩
  · subst first
    exact ⟨middle, last, second, finish, fun t member => live t (by simp [member])⟩
  · -- the cursor always holds a token, so only the last one can be left
    have single : middle = [] := by
      have lengths := congrArg List.length second
      simp only [List.length_append, Cursor.tokens, List.length_cons, List.length_nil] at lengths
      exact List.length_eq_zero_iff.mp (by omega)
    subst single
    simp only [List.nil_append, List.append_nil] at first second
    exact ⟨[], last, second.symm, finish, by simp⟩

theorem place_eq {t : Token} (passes : Passes c d (t :: ts)) :
    d.place c.current.start = Place.over (t :: ts) := by
  have current := passes.current_eq
  have previousEnd := passes.previousEnd
  simp only [List.getLast?_cons, Option.map_some, Option.getD_some] at previousEnd
  simp only [Cursor.place, Place.over, startOf, stopOf, List.head?_cons, Option.map_some,
    Option.getD_some, List.getLast?_cons, previousEnd, current]

theorem place_of_ne_nil (passes : Passes c d ts) (some : ts ≠ []) :
    d.place c.current.start = Place.over ts := by
  obtain ⟨t, us, rfl⟩ := List.exists_cons_of_ne_nil some
  exact passes.place_eq

theorem head_eq (passes : Passes c d ts) : c.current = ts.headD d.current := by
  cases ts with
  | nil => rw [passes.eq_of_nil]; rfl
  | cons t ts => exact passes.current_eq

end Passes

theorem Ended.passes_advance {c : Cursor} (ended : c.Ended) (live : c.current.kind ≠ .finish) :
    Passes c c.advance [c.current] := by
  obtain ⟨inner, last, shape, finish, -⟩ := ended
  cases inner with
  | nil =>
    simp only [tokens, List.nil_append, List.cons.injEq] at shape
    exact absurd (shape.1 ▸ finish) live
  | cons t ts =>
    simp only [tokens, List.cons_append, List.cons.injEq] at shape
    obtain ⟨next, rest, more⟩ : ∃ next rest, ts ++ [last] = next :: rest :=
      List.exists_cons_of_ne_nil (by simp)
    refine ⟨?_, ?_⟩
    · simp [tokens, advance, shape.2, more]
    · simp [advance, shape.2, more]

end Cursor

end Arborist.Script

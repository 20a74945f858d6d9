import Mathlib
import Arborist.Proofs.Script.Completeness
import Arborist.Proofs.Script.StatementSoundness

/-!
Every passage of the grammar is read as the statements that it forms, so a list of tokens is a program
exactly when it forms one. The first token tells the statements apart. Only `async` needs a second
look, and there the word `function` cannot follow inside an expression, because it stands nowhere
but behind a dot.
-/

namespace Arborist.Script

open Token (Kind)
open Cursor (Passes)

/-- The word `function` stands behind dots only. -/
def Guarded (ts : List Token) : Prop :=
  (∀ first ∈ ts.head?, first.kind ≠ .word "function") ∧
    ts.IsChain fun a b => b.kind = .word "function" → a.kind = .mark .dot

namespace Guarded

theorem nil : Guarded [] := ⟨by simp, .nil⟩

theorem append {ts us : List Token} (first : Guarded ts) (second : Guarded us) :
    Guarded (ts ++ us) := by
  refine ⟨?_, first.2.append second.2 fun x _ y head function => absurd function (second.1 y head)⟩
  cases ts with
  | nil => exact second.1
  | cons t ts => exact first.1

theorem cons {t : Token} {us : List Token} (other : t.kind ≠ .word "function")
    (rest : Guarded us) : Guarded (t :: us) :=
  append ⟨by simpa using other, List.isChain_singleton t⟩ rest

end Guarded

theorem BinaryOperator.kind_ne_function (operator : BinaryOperator) :
    operator.kind ≠ .word "function" := by
  cases operator <;> simp [BinaryOperator.kind]

theorem UnaryOperator.kind_ne_function (operator : UnaryOperator) :
    operator.kind ≠ .word "function" := by
  cases operator <;> simp [UnaryOperator.kind]

theorem UpdateOperator.kind_ne_function (operator : UpdateOperator) :
    operator.kind ≠ .word "function" := by
  cases operator <;> simp [UpdateOperator.kind]

theorem AssignmentOperator.kind_ne_function (operator : AssignmentOperator) :
    operator.kind ≠ .word "function" := by
  cases operator <;> simp [AssignmentOperator.kind]

theorem Derives.guarded {phrase : Phrase} {ts : List Token} (derives : Derives phrase ts) :
    Guarded ts := by
  induction derives with
  | name word free =>
    refine .cons ?_ .nil
    rintro function
    rw [word, Kind.word.injEq] at function
    subst function
    exact absurd free (by decide)
  | number literal | string literal => exact .cons (by simp [literal]) .nil
  | @boolean t value word => exact .cons (by cases value <;> simp [word]) .nil
  | null word => exact .cons (by simp [word]) .nil
  | paren opening _ closing ih | array opening _ closing ih =>
    exact .cons (by simp [opening]) (ih.append (.cons (by simp [closing]) .nil))
  | dot _ mark _ ih =>
    refine ih.append ⟨by simp [mark], ?_⟩
    simp [mark]
  | bracket _ opening _ closing ih index | call _ opening _ closing ih index =>
    exact ih.append (.cons (by simp [opening]) (index.append (.cons (by simp [closing]) .nil)))
  | @updated t ts operator argument _ mark _ ih =>
    exact ih.append (.cons (by rw [mark]; exact operator.kind_ne_function) .nil)
  | @unary t ts operator argument mark _ ih =>
    exact .cons (by rw [mark]; exact operator.kind_ne_function) ih
  | @updating t ts operator argument mark _ ih =>
    exact .cons (by rw [mark]; exact operator.kind_ne_function) ih
  | power _ mark _ base exponent =>
    exact base.append (.cons (by rw [mark]; exact BinaryOperator.kind_ne_function _) exponent)
  | binary _ _ _ mark _ left right =>
    exact left.append (.cons (by rw [mark]; exact BinaryOperator.kind_ne_function _) right)
  | conditional _ question _ colon _ test positive negative =>
    exact test.append (.cons (by simp [question]) (positive.append (.cons (by simp [colon]) negative)))
  | assignment _ _ mark _ left right =>
    exact left.append (.cons (by rw [mark]; exact AssignmentOperator.kind_ne_function _) right)
  | sequence _ _ _ head tail => exact head.append tail
  | looser _ ih => exact ih
  | noItems | noParts => exact .nil
  | oneItem _ ih => exact ih
  | moreItems _ comma _ item rest => exact item.append (.cons (by simp [comma]) rest)
  | moreParts comma _ _ part rest => exact .cons (by simp [comma]) (part.append rest)

section Lists

variable {c d : Cursor} {ts us : List Token} {t next : Token}

theorem identifier_run_of_named {e : Expr Place} (named : Named e t) (one : Passes c d [t]) :
    Parser.identifier c = .ok (e, d) := by
  obtain ⟨rfl, rfl⟩ := one.last
  cases named with
  | intro word free => simp [Parser.identifier_run, word, free, one.place_eq]

theorem parameters_runs {list : List (Expr Place)} (parameters : Parameters list ts)
    (passes : Passes c d ts) (closing : d.current.kind = .mark .closeParen) :
    Runs (16 * ts.length + 1) Parser.parameters c (list, d) := by
  induction parameters generalizing c with
  | none =>
    rw [← passes.eq_of_nil]
    refine runs_of_succ fun fuel _ => ?_
    rw [Parser.parameters_succ, if_pos (Cursor.isMark_iff.mpr closing)]
  | one named =>
    have notClosing : ¬ c.isMark .closeParen = true := by
      obtain ⟨rfl, -⟩ := passes.last
      cases named with
      | intro word _ => simp [Cursor.isMark, word]
    have notComma : ¬ d.isMark .comma = true := by simp [Cursor.isMark, closing]
    refine runs_of_succ fun fuel _ => ?_
    rw [Parser.parameters_succ, if_neg notClosing, identifier_run_of_named named passes,
      Parser.ok_bind, if_neg notComma]
  | @more e es t u ts named comma rest ih =>
    obtain ⟨f, first, tail⟩ : ∃ f, Passes c f [t] ∧ Passes f d (u :: ts) := Passes.split passes
    obtain ⟨rfl, behind⟩ := tail.uncons
    have notClosing : ¬ c.isMark .closeParen = true := by
      obtain ⟨rfl, -⟩ := first.last
      cases named with
      | intro word _ => simp [Cursor.isMark, word]
    have others := ih behind
    refine (runs_of_succ fun fuel (enough : 16 * ts.length + 1 ≤ fuel) => ?_).mono (by simp)
    rw [Parser.parameters_succ, if_neg notClosing, identifier_run_of_named named first,
      Parser.ok_bind, if_pos (Cursor.isMark_iff.mpr comma), others fuel enough, Parser.ok_bind]

theorem declares_runs {declarator : Declarator Place} (declares : Declares declarator ts next)
    (passes : Passes c d ts) (current : d.current = next) :
    ∃ f, Parser.identifier c = .ok (declarator.target, f) ∧
      (∀ fuel, 16 * ts.length ≤ fuel → Parser.initial fuel f = .ok (declarator.value, d)) ∧
      declarator.note = d.place c.current.start := by
  cases declares with
  | plain named bare =>
    refine ⟨d, identifier_run_of_named named passes, fun fuel _ => ?_, passes.place_eq.symm⟩
    have notAssign : ¬ d.isMark .assign = true := by simpa [Cursor.isMark, current] using bare
    rw [Parser.initial, if_neg notAssign]
  | @initial e value t u next ts named mark inner stops =>
    obtain ⟨f, first, tail⟩ : ∃ f, Passes c f [t] ∧ Passes f d (u :: ts) := Passes.split passes
    obtain ⟨rfl, behind⟩ := tail.uncons
    refine ⟨f, identifier_run_of_named named first, fun fuel enough => ?_, passes.place_eq.symm⟩
    have reads : Reads Level.assignment value ts := inner.reads
    have run := reads.assignment (le_refl _) behind (current ▸ stops)
    simp only [List.length_cons] at enough
    rw [Parser.initial, if_pos (Cursor.isMark_iff.mpr mark), run fuel (by omega), Parser.ok_bind]

theorem declarators_runs {list : List (Declarator Place)} (declares : DeclaresAll list ts next)
    (passes : Passes c d ts) (current : d.current = next) :
    Runs (16 * ts.length + 1) Parser.declarators c (list, d) := by
  induction declares generalizing c with
  | last one bare =>
    obtain ⟨f, name, initial, place⟩ := declares_runs one passes current
    have notComma : ¬ d.isMark .comma = true := by simpa [Cursor.isMark, current] using bare
    refine runs_of_succ fun fuel enough => ?_
    rw [Parser.declarators_succ, name, Parser.ok_bind, initial fuel enough, Parser.ok_bind,
      if_neg notComma, ← place]
  | @more declarator list t next ts us one comma rest ih =>
    obtain ⟨g, front, tail⟩ := passes.split
    obtain ⟨f, name, initial, place⟩ := declares_runs one front tail.current_eq
    obtain ⟨rfl, behind⟩ := tail.uncons
    have others := ih behind current
    refine (runs_of_succ fun fuel (enough : 16 * (ts.length + us.length) + 1 ≤ fuel) => ?_).mono
      (by simp)
    rw [Parser.declarators_succ, name, Parser.ok_bind, initial fuel (by omega), Parser.ok_bind,
      if_pos (Cursor.isMark_iff.mpr comma), others fuel (by omega), Parser.ok_bind, ← place]

theorem behindAsync_eq {front : List Token} {isAsync : Bool} (passes : Passes c d front)
    (word : d.current.kind = .word "function")
    (async : if isAsync then ∃ t : Token, front = [t] ∧ t.kind = .word "async" ∧
      d.current.newlineBefore = false else front = []) :
    c.startsFunction = true ∧ c.isWord "async" = isAsync ∧ Parser.behindAsync c = d := by
  cases isAsync with
  | true =>
    obtain ⟨t, rfl, spelled, sameLine⟩ : ∃ t : Token, front = [t] ∧ t.kind = .word "async" ∧
      d.current.newlineBefore = false := async
    have ahead := passes.rest_eq
    have behind := passes.advance_eq
    rw [← passes.current_eq] at spelled
    have isWord := Cursor.isWord_iff.mpr spelled
    refine ⟨?_, isWord, ?_⟩
    · simp [Cursor.startsFunction, isWord, ahead, Cursor.tokens, word, sameLine]
    · rw [Parser.behindAsync, if_pos isWord, behind]
  | false =>
    obtain rfl : front = [] := async
    rw [passes.eq_of_nil] at word ⊢
    have isWord := Cursor.isWord_iff.mpr word
    have other : c.isWord "async" = false := by simp [Cursor.isWord, word]
    refine ⟨?_, other, ?_⟩
    · simp [Cursor.startsFunction, isWord]
    · rw [Parser.behindAsync, other]
      rfl

theorem behindStar_eq {star : List Token} {isGenerator : Bool} (passes : Passes c d star)
    (other : d.current.kind ≠ .mark .times)
    (generator : if isGenerator then ∃ t : Token, star = [t] ∧ t.kind = .mark .times
      else star = []) :
    c.isMark .times = isGenerator ∧ Parser.behindStar c = d := by
  cases isGenerator with
  | true =>
    obtain ⟨t, rfl, spelled⟩ : ∃ t : Token, star = [t] ∧ t.kind = .mark .times := generator
    have behind := passes.advance_eq
    rw [← passes.current_eq] at spelled
    have isMark := Cursor.isMark_iff.mpr spelled
    exact ⟨isMark, by rw [Parser.behindStar, if_pos isMark, behind]⟩
  | false =>
    obtain rfl : star = [] := generator
    rw [passes.eq_of_nil] at other ⊢
    have isMark : c.isMark .times = false := by simpa [Cursor.isMark] using other
    exact ⟨isMark, by rw [Parser.behindStar, isMark]; rfl⟩

theorem functionHead_runs {head : FunctionHead Place} (heads : Heads head ts)
    (passes : Passes c d ts) :
    c.startsFunction = true ∧ Runs (16 * ts.length) Parser.functionHead c (head, d) := by
  cases heads with
  | @intro f a b n front star ts isAsync isGenerator name list async word generator named opening
      parameters closing =>
  obtain ⟨g, before, tail⟩ := passes.split
  obtain ⟨rfl, behind⟩ := tail.uncons
  obtain ⟨h, stars, rest⟩ := behind.split
  obtain ⟨i, nameAt, rest⟩ : ∃ i, Passes h i [n] ∧ Passes i d (a :: (ts ++ [b])) := Passes.split rest
  obtain ⟨rfl, inside⟩ := rest.uncons
  obtain ⟨j, middle, last⟩ := inside.split
  obtain ⟨rfl, rfl⟩ := last.last
  have notTimes : h.current.kind ≠ .mark .times := by
    obtain ⟨rfl, -⟩ := nameAt.last
    cases named with
    | intro spelled _ => simp [spelled]
  obtain ⟨starts, isWord, asyncEnd⟩ := behindAsync_eq before word async
  obtain ⟨isMark, starEnd⟩ := behindStar_eq stars notTimes generator
  have list := parameters_runs parameters middle closing
  refine ⟨starts, fun fuel enough => ?_⟩
  simp only [List.length_append, List.length_cons, List.length_nil] at enough
  rw [Parser.functionHead_run, asyncEnd, if_pos (Cursor.isWord_iff.mpr word), starEnd, identifier_run_of_named named nameAt,
    Parser.ok_bind, if_pos (Cursor.isMark_iff.mpr opening), list fuel (by omega), Parser.ok_bind,
    if_pos (Cursor.isMark_iff.mpr closing), isWord, isMark]

theorem semicolon_runs {α : Type} (build : Cursor → α) {surprise : Surprise}
    (ends : Terminated us next) (passes : Passes c d us) (current : d.current = next) :
    (if c.isMark .semicolon then .ok (build c.advance, c.advance)
      else if c.endsStatement then .ok (build c, c)
      else .error surprise) = Except.ok (build d, d) := by
  cases ends with
  | semicolon mark =>
    obtain ⟨rfl, rfl⟩ := passes.last
    rw [if_pos (Cursor.isMark_iff.mpr mark)]
  | free bare ends =>
    rw [passes.eq_of_nil] at current ⊢
    subst current
    have notSemicolon : ¬ c.isMark .semicolon = true := by simpa [Cursor.isMark] using bare
    rw [if_neg notSemicolon, if_pos (Cursor.endsStatement_iff.mpr ends)]

end Lists

theorem not_starts_of_keyword {text : String}
    (keyword : text ∈ ["var", "let", "const", "function", "return", "if", "else"]) :
    ¬ Starts (.word text) := by
  simp only [List.mem_cons, List.not_mem_nil, or_false] at keyword
  rcases keyword with rfl | rfl | rfl | rfl | rfl | rfl | rfl <;> simp [Starts, isReserved, reserved]

def Passage.Reads : Passage → List Token → Token → Prop
  | .statement s, ts, next => ∀ {c d : Cursor}, Passes c d ts → d.current = next →
    Runs (16 * ts.length + 7) Parser.statement c (s, d)
  | .block place list, ts, _ => ∀ {c d : Cursor}, Passes c d ts →
    Runs (16 * ts.length) Parser.block c ((place, list), d)
  | .body list, ts, next => ∀ {c d : Cursor}, Passes c d ts → d.current = next →
    (next.kind = .mark .closeBrace → Runs (16 * ts.length + 8) Parser.blockBody c (list, d)) ∧
    (next.kind = .finish → Runs (16 * ts.length + 8) Parser.body c (list, d))

section Statements

variable {ts us vs : List Token} {a b t next : Token} {e test : Expr Place}
  {consequent alternate : Stmt Place} {list : List (Stmt Place)} {place : Place}

theorem reads_declaration {kind : DeclarationKind} {list : List (Declarator Place)}
    (word : t.kind = .word kind.text) (declarators : DeclaresAll list ts (us.headD next))
    (ends : Terminated us next) :
    Passage.Reads (.statement (.declaration (Place.over (t :: (ts ++ us))) kind list))
      (t :: (ts ++ us)) next := by
  intro c d all current
  obtain ⟨rfl, tail⟩ := all.uncons
  obtain ⟨f, middle, last⟩ := tail.split
  have run := declarators_runs declarators middle (by rw [last.head_eq, current])
  refine (runs_of_succ fun fuel (enough : 16 * ts.length + 1 ≤ fuel) => ?_).mono (by simp; omega)
  have atWord : c.atWord = true := by rw [Cursor.atWord, word]
  simp only [Parser.statement_succ, Cursor.declarationKind?_eq_some.mpr word,
    Parser.declaration_run, atWord, if_true, run fuel enough, Parser.ok_bind]
  rw [semicolon_runs (fun g => Stmt.declaration (g.place c.current.start) kind list) ends last current,
    all.place_eq]

theorem reads_function {head : FunctionHead Place} (front : Heads head ts)
    (inner : Passage.Reads (.block place list) us next) :
    Passage.Reads (.statement (.function (Place.over (ts ++ us)) head place list)) (ts ++ us)
      next := by
  intro c d all current
  obtain ⟨f, first, last⟩ := all.split
  obtain ⟨starts, run⟩ := functionHead_runs front first
  have filled : ts ≠ [] := by
    cases front
    simp
  have notDeclaration : c.declarationKind? = none := by
    rw [Cursor.startsFunction, Bool.or_eq_true, Bool.and_eq_true, Cursor.isWord_iff,
      Cursor.isWord_iff] at starts
    rcases starts with word | ⟨word, -⟩ <;> rw [Cursor.declarationKind?, word] <;> decide
  have length := List.length_pos_iff.mpr filled
  have body : Runs _ _ f ((place, list), d) := inner last
  refine (runs_of_succ fun fuel (enough : 16 * (ts.length + us.length) ≤ fuel) => ?_).mono
    (by simp)
  simp only [Parser.statement_succ, notDeclaration, starts, if_true, run fuel (by omega),
    Parser.ok_bind, body fuel (by omega), all.place_of_ne_nil (List.append_ne_nil_of_left_ne_nil filled us)]

theorem dispatch_of_mark {c : Cursor} {m : Mark} (mark : c.current.kind = .mark m) :
    c.declarationKind? = none ∧ c.startsFunction = false ∧ c.isWord "return" = false ∧
      c.isWord "if" = false := by
  simp [Cursor.declarationKind?, Cursor.startsFunction, Cursor.isWord, mark]

theorem reads_block (inner : Forms (.block place list) ts next)
    (reads : Passage.Reads (.block place list) ts next) :
    Passage.Reads (.statement (.block place list)) ts next := by
  intro c d all current
  have body : Runs _ _ c ((place, list), d) := reads all
  have opening : c.current.kind = .mark .openBrace := by
    cases inner with
    | braces opening => rw [all.current_eq, opening]
  obtain ⟨notDeclaration, notFunction, notReturn, notIf⟩ := dispatch_of_mark opening
  refine (runs_of_succ fun fuel (enough : 16 * ts.length ≤ fuel) => ?_).mono (by omega)
  simp only [Parser.statement_succ, notDeclaration, notFunction, notReturn, notIf,
    Bool.false_eq_true, if_false, Cursor.isMark_iff.mpr opening, if_true, body fuel enough,
    Parser.ok_bind]

theorem reads_empty (mark : t.kind = .mark .semicolon) :
    Passage.Reads (.statement (.empty (Place.over [t]))) [t] next := by
  intro c d all _
  obtain ⟨rfl, rfl⟩ := all.last
  obtain ⟨notDeclaration, notFunction, notReturn, notIf⟩ := dispatch_of_mark mark
  have notBrace : c.isMark .openBrace = false := by simp [Cursor.isMark, mark]
  refine (runs_of_succ fun fuel (_ : 0 ≤ fuel) => ?_).mono (by omega)
  simp only [Parser.statement_succ, notDeclaration, notFunction, notReturn, notIf, notBrace,
    Bool.false_eq_true, if_false, Cursor.isMark_iff.mpr mark, if_true, all.place_eq]

theorem dispatch_of_return {c : Cursor} (word : c.current.kind = .word "return") (fuel : Nat) :
    Parser.statement (fuel + 1) c = Parser.leaving fuel c.current.start c.advance := by
  have notDeclaration : c.declarationKind? = none := by
    rw [Cursor.declarationKind?, word]
    decide
  have notFunction : c.startsFunction = false := by simp [Cursor.startsFunction, Cursor.isWord, word]
  simp only [Parser.statement_succ, notDeclaration, notFunction, Bool.false_eq_true, if_false,
    Cursor.isWord_iff.mpr word, if_true]

theorem reads_leave (word : t.kind = .word "return") (ends : Terminated us next) :
    Passage.Reads (.statement (.ret (Place.over (t :: us)) none)) (t :: us) next := by
  intro c d all current
  obtain ⟨rfl, tail⟩ := all.uncons
  refine (runs_of_succ fun fuel (_ : 0 ≤ fuel) => ?_).mono (by omega)
  rw [dispatch_of_return word, Parser.leaving, ← all.place_eq]
  cases ends with
  | semicolon mark =>
    obtain ⟨rfl, rfl⟩ := tail.last
    rw [if_pos (Cursor.isMark_iff.mpr mark)]
  | free bare ends =>
    rw [tail.eq_of_nil] at current ⊢
    subst current
    have notSemicolon : ¬ c.advance.isMark .semicolon = true := by simpa [Cursor.isMark] using bare
    rw [if_neg notSemicolon, if_pos (Cursor.endsStatement_iff.mpr ends)]

theorem continues_of_starts {c : Cursor} (starts : Starts c.current.kind)
    (sameLine : c.current.newlineBefore = false) :
    ¬ c.isMark .semicolon = true ∧ ¬ c.endsStatement = true := by
  rw [Cursor.isMark_iff, Cursor.endsStatement_iff, MayEnd]
  refine ⟨?_, ?_⟩
  · intro kind
    simp [kind, Starts] at starts
  · rintro (newline | kind | kind)
    · simp [sameLine] at newline
    · simp [kind, Starts] at starts
    · simp [kind, Starts] at starts

theorem reads_ret (word : t.kind = .word "return") (inner : Derives (.expr Level.sequence e) ts)
    (sameLine : ∀ first ∈ ts.head?, first.newlineBefore = false)
    (stops : Stops ts (us.headD next) Level.sequence) (ends : Terminated us next) :
    Passage.Reads (.statement (.ret (Place.over (t :: (ts ++ us))) (some e))) (t :: (ts ++ us))
      next := by
  intro c d all current
  obtain ⟨rfl, tail⟩ := all.uncons
  obtain ⟨f, middle, last⟩ := tail.split
  have reads : Reads Level.sequence e ts := inner.reads
  have run := reads.expression middle (by rwa [last.head_eq, current])
  have line : c.advance.current.newlineBefore = false := by
    obtain ⟨first, rest, rfl⟩ := List.exists_cons_of_ne_nil inner.ne_nil
    rw [middle.current_eq]
    exact sameLine first rfl
  obtain ⟨notSemicolon, notEnd⟩ := continues_of_starts (inner.starts_of_passes middle) line
  refine (runs_of_succ fun fuel (enough : 16 * ts.length + 6 ≤ fuel) => ?_).mono (by simp; omega)
  rw [dispatch_of_return word, Parser.leaving, if_neg notSemicolon, if_neg notEnd, run fuel enough,
    Parser.ok_bind]
  rw [semicolon_runs (fun g => Stmt.ret (g.place c.current.start) (some e)) ends last current,
    all.place_eq]

/-- An expression statement never looks like a function. -/
theorem not_startsFunction {c f d : Cursor} (inner : Derives (.expr Level.sequence e) ts)
    (passes : Passes c f ts) (last : Passes f d us) (ends : Terminated us d.current) :
    c.startsFunction = false := by
  have starts := inner.starts_of_passes passes
  have notFunction : c.isWord "function" = false := by
    rw [← Bool.not_eq_true, Cursor.isWord_iff]
    intro word
    exact not_starts_of_keyword (by simp) (word ▸ starts)
  rw [Cursor.startsFunction, notFunction, Bool.false_or]
  cases isAsync : c.isWord "async" with
  | false => rfl
  | true =>
  have async := Cursor.isWord_iff.mp isAsync
  obtain ⟨t, rest, rfl⟩ := List.exists_cons_of_ne_nil inner.ne_nil
  rw [passes.rest_eq, Bool.true_and]
  cases rest with
  | nil =>
    -- the expression is the word alone, and a statement ends before the next token
    have next : f.current.kind = .word "function" → f.current.newlineBefore = true := by
      intro word
      cases ends with
      | semicolon mark => simp [last.current_eq, mark] at word
      | free _ ends =>
        rw [last.eq_of_nil] at ends
        rcases ends with newline | kind | kind
        · exact newline
        · simp [kind] at word
        · simp [kind] at word
    by_cases word : f.current.kind = .word "function"
    · simp [Cursor.tokens, next word]
    · simp [Cursor.tokens, word]
  | cons u rest =>
    have chained := (List.isChain_cons_cons.mp inner.guarded.2).1
    rw [← passes.current_eq, async] at chained
    by_cases word : u.kind = .word "function"
    · exact absurd (chained word) (by simp)
    · simp [word]

theorem reads_expression (inner : Derives (.expr Level.sequence e) ts)
    (stops : Stops ts (us.headD next) Level.sequence) (ends : Terminated us next) :
    Passage.Reads (.statement (.expression (Place.over (ts ++ us)) e)) (ts ++ us) next := by
  intro c d all current
  obtain ⟨f, front, last⟩ := all.split
  have reads : Reads Level.sequence e ts := inner.reads
  have run := reads.expression front (by rwa [last.head_eq, current])
  have starts := inner.starts_of_passes front
  have notDeclaration : c.declarationKind? = none := by
    cases found : c.declarationKind? with
    | none => rfl
    | some kind =>
      rw [Cursor.declarationKind?_eq_some.mp found] at starts
      exact absurd starts (not_starts_of_keyword (by cases kind <;> decide))
  have notFunction := not_startsFunction inner front last (current.symm ▸ ends)
  have notReturn : c.isWord "return" = false := by
    rw [← Bool.not_eq_true, Cursor.isWord_iff]
    intro word
    exact not_starts_of_keyword (by simp) (word ▸ starts)
  have notIf : c.isWord "if" = false := by
    rw [← Bool.not_eq_true, Cursor.isWord_iff]
    intro word
    exact not_starts_of_keyword (by simp) (word ▸ starts)
  have notBrace : c.isMark .openBrace = false := by
    rw [← Bool.not_eq_true, Cursor.isMark_iff]
    intro mark
    simp [mark, Starts] at starts
  have notSemicolon : c.isMark .semicolon = false := by
    rw [← Bool.not_eq_true, Cursor.isMark_iff]
    intro mark
    simp [mark, Starts] at starts
  refine (runs_of_succ fun fuel (enough : 16 * ts.length + 6 ≤ fuel) => ?_).mono (by simp)
  simp only [Parser.statement_succ, notDeclaration, notFunction, notReturn, notIf, notBrace,
    notSemicolon, Bool.false_eq_true, if_false, Parser.stating, run fuel enough, Parser.ok_bind]
  rw [semicolon_runs (fun g => Stmt.expression (g.place c.current.start) e) ends last current,
    all.place_of_ne_nil (by simp [inner.ne_nil])]

theorem dispatch_of_if {c : Cursor} (word : c.current.kind = .word "if") (fuel : Nat) :
    Parser.statement (fuel + 1) c = Parser.branching fuel c.current.start c.advance := by
  have notDeclaration : c.declarationKind? = none := by
    rw [Cursor.declarationKind?, word]
    decide
  have notFunction : c.startsFunction = false := by simp [Cursor.startsFunction, Cursor.isWord, word]
  have notReturn : c.isWord "return" = false := by simp [Cursor.isWord, word]
  simp only [Parser.statement_succ, notDeclaration, notFunction, notReturn, Bool.false_eq_true,
    if_false, Cursor.isWord_iff.mpr word, if_true]

theorem reads_branch (word : t.kind = .word "if") (opening : a.kind = .mark .openParen)
    (condition : Derives (.expr Level.sequence test) ts) (closing : b.kind = .mark .closeParen)
    (positive : Passage.Reads (.statement consequent) us next) (bare : next.kind ≠ .word "else") :
    Passage.Reads (.statement (.branch (Place.over (t :: a :: (ts ++ b :: us))) test consequent none))
      (t :: a :: (ts ++ b :: us)) next := by
  intro c d all current
  obtain ⟨rfl, tail⟩ := all.uncons
  obtain ⟨rfl, inside⟩ := tail.uncons
  obtain ⟨f, middle, rest⟩ := inside.split
  obtain ⟨rfl, last⟩ := rest.uncons
  have reads : Reads Level.sequence test ts := condition.reads
  have run := reads.expression middle (stops_of_closing (by simp) closing _)
  have follow : Runs _ _ f.advance (consequent, d) := positive last current
  have notElse : ¬ d.isWord "else" = true := by simpa [Cursor.isWord, current] using bare
  refine (runs_of_succ fun fuel (enough : 16 * (ts.length + us.length) + 7 ≤ fuel) => ?_).mono
    (by simp; omega)
  rw [dispatch_of_if word, Parser.branching, if_pos (Cursor.isMark_iff.mpr opening),
    run fuel (by omega), Parser.ok_bind, if_pos (Cursor.isMark_iff.mpr closing),
    follow fuel (by omega), Parser.ok_bind, if_neg notElse, all.place_eq]

theorem reads_choice {other : Token} (word : t.kind = .word "if") (opening : a.kind = .mark .openParen)
    (condition : Derives (.expr Level.sequence test) ts) (closing : b.kind = .mark .closeParen)
    (positive : Passage.Reads (.statement consequent) us other)
    (otherwise : other.kind = .word "else")
    (negative : Passage.Reads (.statement alternate) vs next) :
    Passage.Reads (.statement (.branch (Place.over (t :: a :: (ts ++ b :: (us ++ other :: vs)))) test
      consequent (some alternate))) (t :: a :: (ts ++ b :: (us ++ other :: vs))) next := by
  intro c d all current
  obtain ⟨rfl, tail⟩ := all.uncons
  obtain ⟨rfl, inside⟩ := tail.uncons
  obtain ⟨f, middle, rest⟩ := inside.split
  obtain ⟨rfl, behind⟩ := rest.uncons
  obtain ⟨g, first, further⟩ := behind.split
  have follow : Runs _ _ f.advance (consequent, g) := positive first further.current_eq
  obtain ⟨rfl, last⟩ := further.uncons
  have reads : Reads Level.sequence test ts := condition.reads
  have run := reads.expression middle (stops_of_closing (by simp) closing _)
  have second : Runs _ _ g.advance (alternate, d) := negative last current
  refine (runs_of_succ fun fuel
    (enough : 16 * (ts.length + us.length + vs.length) + 7 ≤ fuel) => ?_).mono (by simp; omega)
  rw [dispatch_of_if word, Parser.branching, if_pos (Cursor.isMark_iff.mpr opening),
    run fuel (by omega), Parser.ok_bind, if_pos (Cursor.isMark_iff.mpr closing),
    follow fuel (by omega), Parser.ok_bind, if_pos (Cursor.isWord_iff.mpr otherwise),
    second fuel (by omega), Parser.ok_bind, all.place_eq]

theorem reads_braces (next : Token) (opening : a.kind = .mark .openBrace)
    (inner : Passage.Reads (.body list) ts b) (closing : b.kind = .mark .closeBrace) :
    Passage.Reads (.block (Place.over (a :: (ts ++ [b]))) list) (a :: (ts ++ [b])) next := by
  intro c d all
  obtain ⟨rfl, tail⟩ := all.uncons
  obtain ⟨f, middle, last⟩ := tail.split
  obtain ⟨rfl, rfl⟩ := last.last
  have body := (inner middle rfl).1 closing
  refine (runs_of_succ fun fuel (enough : 16 * ts.length + 8 ≤ fuel) => ?_).mono (by simp; omega)
  rw [Parser.block_succ, if_pos (Cursor.isMark_iff.mpr opening), body fuel enough, Parser.ok_bind,
    if_pos (Cursor.isMark_iff.mpr closing), all.place_eq]

theorem reads_done : Passage.Reads (.body []) [] next := by
  intro c d passes current
  rw [passes.eq_of_nil] at current ⊢
  subst current
  refine ⟨fun closing => ?_, fun finish => ?_⟩
  · refine (runs_of_succ fun fuel (_ : 0 ≤ fuel) => ?_).mono (by omega)
    rw [Parser.blockBody_succ, if_pos (Cursor.isMark_iff.mpr closing)]
  · refine (runs_of_succ fun fuel (_ : 0 ≤ fuel) => ?_).mono (by omega)
    rw [Parser.body_succ, if_pos (Cursor.atEnd_iff.mpr finish)]

theorem Forms.head_ne {s : Stmt Place} (forms : Forms (.statement s) ts next) :
    ∃ first rest, ts = first :: rest ∧ first.kind ≠ .mark .closeBrace ∧ first.kind ≠ .finish ∧
      first.kind ≠ .word "else" := by
  cases forms with
  | @declaration t next ts us kind list word =>
    refine ⟨_, _, rfl, ?_⟩
    rw [word]
    cases kind <;> decide
  | leave word | ret word | branch word | choice word =>
    refine ⟨_, _, rfl, ?_⟩
    rw [word]
    decide
  | function front =>
    cases front with
    | @intro f a b n front star ts isAsync isGenerator name list async word =>
      cases isAsync with
      | true =>
        obtain ⟨t, rfl, spelled, -⟩ : ∃ t : Token, front = [t] ∧ t.kind = .word "async" ∧
          f.newlineBefore = false := async
        refine ⟨t, _, rfl, ?_⟩
        rw [spelled]
        decide
      | false =>
        obtain rfl : front = [] := async
        refine ⟨f, _, rfl, ?_⟩
        rw [word]
        decide
  | block inner =>
    cases inner with
    | braces opening =>
      refine ⟨_, _, rfl, ?_⟩
      rw [opening]
      decide
  | expression inner =>
    have starts := inner.starts
    obtain ⟨first, rest, rfl⟩ := List.exists_cons_of_ne_nil inner.ne_nil
    have begins := starts first rfl
    refine ⟨first, _, rfl, ?_, ?_, ?_⟩
    · intro kind
      simp [kind, Starts] at begins
    · intro kind
      simp [kind, Starts] at begins
    · intro kind
      exact not_starts_of_keyword (by simp) (kind ▸ begins)
  | empty mark =>
    refine ⟨_, _, rfl, ?_⟩
    rw [mark]
    decide

theorem reads_more {s : Stmt Place} (first : Forms (.statement s) ts (us.headD next))
    (reads : Passage.Reads (.statement s) ts (us.headD next))
    (rest : Passage.Reads (.body list) us next) :
    Passage.Reads (.body (s :: list)) (ts ++ us) next := by
  intro c d all current
  obtain ⟨f, front, last⟩ := all.split
  have one : Runs _ _ c (s, f) := reads front (by rw [last.head_eq, current])
  obtain ⟨blocks, bodies⟩ := rest last current
  obtain ⟨t, ts, rfl, notClosing, notFinish, -⟩ := first.head_ne
  have starting : ¬ c.isMark .closeBrace = true ∧ ¬ c.atEnd = true := by
    rw [Cursor.isMark_iff, Cursor.atEnd_iff, front.current_eq]
    exact ⟨notClosing, notFinish⟩
  refine ⟨fun closing => ?_, fun finish => ?_⟩
  · have others := blocks closing
    refine (runs_of_succ fun fuel
      (enough : 16 * ((t :: ts).length + us.length) + 7 ≤ fuel) => ?_).mono (by simp; omega)
    simp only [List.length_cons] at enough
    rw [Parser.blockBody_succ, if_neg starting.1, if_neg starting.2,
      one fuel (by simp only [List.length_cons]; omega), Parser.ok_bind, others fuel (by omega),
      Parser.ok_bind]
  · have others := bodies finish
    refine (runs_of_succ fun fuel
      (enough : 16 * ((t :: ts).length + us.length) + 7 ≤ fuel) => ?_).mono (by simp; omega)
    simp only [List.length_cons] at enough
    rw [Parser.body_succ, if_neg starting.2, one fuel (by simp only [List.length_cons]; omega),
      Parser.ok_bind, others fuel (by omega), Parser.ok_bind]

end Statements

theorem Forms.reads {passage : Passage} {ts : List Token} {next : Token}
    (forms : Forms passage ts next) : passage.Reads ts next := by
  induction forms with
  | declaration word declarators ends => exact reads_declaration word declarators ends
  | function front _ inner => exact reads_function front inner
  | block inner reads => exact reads_block inner reads
  | leave word ends => exact reads_leave word ends
  | ret word inner sameLine stops ends => exact reads_ret word inner sameLine stops ends
  | expression inner stops ends => exact reads_expression inner stops ends
  | branch word opening condition closing _ bare positive =>
    exact reads_branch word opening condition closing positive bare
  | choice word opening condition closing _ otherwise _ positive negative =>
    exact reads_choice word opening condition closing positive otherwise negative
  | empty mark => exact reads_empty mark
  | @braces _ _ next _ _ opening _ closing inner => exact reads_braces next opening inner closing
  | done => exact reads_done
  | more first _ reads rest => exact reads_more first reads rest

/-- A list of tokens is a program exactly when it forms one. -/
theorem program_eq_ok_iff {inner : List Token} {last : Token} {list : List (Stmt Place)}
    (finish : last.kind = .finish) (live : ∀ t ∈ inner, t.kind ≠ .finish) :
    Parser.program (inner ++ [last]) = .ok list ↔ Forms (.body list) inner last := by
  refine ⟨forms_of_program finish live, fun forms => ?_⟩
  obtain ⟨c, start, tokens, fresh⟩ : ∃ c, Cursor.ofTokens (inner ++ [last]) = c ∧
      c.tokens = inner ++ [last] ∧ c.previousEnd = 0 := by
    refine ⟨_, rfl, ?_⟩
    cases inner <;> exact ⟨rfl, rfl⟩
  have passes : Passes c ⟨(inner.getLast?.map Token.stop).getD c.previousEnd, last, []⟩ inner :=
    ⟨tokens, rfl⟩
  have run := (forms.reads passes rfl).2 finish
  rw [Parser.program_run, start, run _ (by simp; omega), Parser.ok_bind]

end Arborist.Script

import Mathlib
import Arborist.Proofs.Script.Completeness
import Arborist.Proofs.Script.Printed

/-!
Written tokens stay apart. A mark swallows what stands behind it only where a longer mark begins, and
the writer puts a blank or a parenthesis wherever that could happen.
-/

namespace Arborist

namespace Mark

def continuations (m : Mark) : List Char :=
  Mark.all.filterMap fun longer =>
    if m.text.toList.isPrefixOf longer.text.toList then
      longer.text.toList[m.text.toList.length]?
    else none

theorem takes_cases {m : Mark} {c : Char} (takes : m.takes c = true) :
    c ∈ m.continuations ∨ m = .divide ∨ (m = .dot ∧ c.isDigit = true) := by
  simp only [Mark.takes, Bool.or_eq_true, Bool.and_eq_true, beq_iff_eq, List.any_eq_true] at takes
  rcases takes with (⟨longer, member, begins⟩ | ⟨divides, -⟩) | point
  · obtain ⟨rest, shape⟩ := List.isPrefixOf_iff_prefix.mp begins
    refine .inl (List.mem_filterMap.mpr ⟨longer, member, ?_⟩)
    rw [if_pos]
    · rw [← shape]
      simp
    · rw [List.isPrefixOf_iff_prefix, ← shape, List.append_assoc]
      exact List.prefix_append _ _
  · exact .inr (.inl divides)
  · exact .inr (.inr point)

theorem apart_of_continuations {m : Mark} (plain : m ≠ .divide ∧ m ≠ .dot) {after : List Char}
    (other : ∀ c ∈ after.head?, c ∉ m.continuations) : m.Apart after := by
  intro c member
  by_contra taken
  rcases takes_cases (by simpa using taken) with longer | divides | ⟨point, -⟩
  · exact other c member longer
  · exact plain.1 divides
  · exact plain.2 point

theorem apart_dot {after : List Char} (other : ∀ c ∈ after.head?, c.isDigit = false) :
    Mark.dot.Apart after := by
  intro c member
  by_contra taken
  rcases takes_cases (by simpa using taken) with longer | divides | ⟨-, digit⟩
  · rw [show Mark.dot.continuations = [] by decide] at longer
    simp at longer
  · cases divides
  · simp [other c member] at digit

theorem apart_of_closed {m : Mark} (closed : m ∈ [.openParen, .closeParen, .openBracket,
    .closeBracket, .openBrace, .closeBrace, .comma, .semicolon, .complement, .plusPlus, .minusMinus])
    (after : List Char) : m.Apart after := by
  refine apart_of_continuations ?_ fun c _ => ?_
  · revert closed
    cases m <;> decide
  · have none : m.continuations = [] := by
      revert closed
      cases m <;> decide
    simp [none]

end Mark

theorem Token.Kind.apart_blank (kind : Token.Kind) (after : List Char) : kind.Apart (' ' :: after) := by
  cases kind with
  | word | number => simp [Token.Kind.Apart, Token.isWordPart]
  | string | finish => trivial
  | mark m =>
    intro c member
    simp only [List.head?_cons, Option.mem_some_iff] at member
    subst member
    cases m <;> decide

namespace Script

open Token (Kind)
open Chunk (mark blank enclosed separated render Fits fits_append)

variable {ι : Type}

theorem BinaryOperator.spelled (operator : BinaryOperator) : operator.kind.Spelled := by
  cases operator with
  | member | instanceOf => exact ⟨_, _, rfl, by decide, by decide⟩
  | _ => trivial

theorem UnaryOperator.spelled (operator : UnaryOperator) : operator.kind.Spelled := by
  cases operator with
  | typeOf | void | delete => exact ⟨_, _, rfl, by decide, by decide⟩
  | _ => trivial

theorem UpdateOperator.spelled (operator : UpdateOperator) : operator.kind.Spelled := by
  cases operator <;> trivial

theorem AssignmentOperator.spelled (operator : AssignmentOperator) : operator.kind.Spelled := by
  cases operator <;> trivial

/-- What stands behind an expression can belong neither to a word nor to a number. -/
def Ends (after : List Char) : Prop := ∀ c ∈ after.head?, Token.isWordPart c = false ∧ c ≠ '.'

/-- What may stand behind an expression. A dot may, if it does not become part of a number. -/
def Follows (e : Expr ι) (after : List Char) : Prop :=
  ∀ c ∈ after.head?, Token.isWordPart c = false ∧
    (c = '.' → Level.member ≤ e.write.level ∧
      (e.isNumber = true → e.write.text.toList.all Char.isDigit = false))

theorem Ends.follows {after : List Char} (ends : Ends after) (e : Expr ι) : Follows e after :=
  fun c member => ⟨(ends c member).1, fun dot => absurd dot (ends c member).2⟩

theorem Follows.ends {e : Expr ι} {after : List Char} (follows : Follows e after)
    (loose : e.write.level < Level.member) : Ends after := by
  intro c member
  refine ⟨(follows c member).1, fun dot => ?_⟩
  exact absurd ((follows c member).2 dot).1 (not_le.mpr loose)

theorem ends_cons {c : Char} (other : Token.isWordPart c = false ∧ c ≠ '.') (after : List Char) :
    Ends (c :: after) := by
  intro d member
  simp only [List.head?_cons, Option.mem_some_iff] at member
  exact member ▸ other

theorem ends_blank (rest : List Chunk) (after : List Char) :
    Ends (render (blank :: rest) ++ after) := ends_cons (by decide) _

theorem ends_mark {m : Mark} (other : m ≠ .dot) (rest : List Chunk) (after : List Char) :
    Ends (render (mark m :: rest) ++ after) := by
  obtain ⟨c, cs, shape⟩ := List.exists_cons_of_ne_nil m.text_ne_nil
  have head : ∀ d ∈ m.text.toList.head?, Token.isWordPart d = false ∧ d ≠ '.' := by
    intro d member
    cases m <;> first
      | exact absurd rfl other
      | (simp [Mark.text] at member; subst member; decide)
  rw [Chunk.render_cons, mark, Chunk.text, Kind.spelling, shape, List.cons_append, List.cons_append]
  exact ends_cons (head c (by simp [shape])) _

theorem fits_blank {rest : List Chunk} {after : List Char} (fits : Fits rest after) :
    Fits (blank :: rest) after := ⟨by decide, fits⟩

theorem fits_spaced {kind : Kind} (spelled : kind.Spelled) {rest : List Chunk} {after : List Char}
    (fits : Fits rest after) : Fits (.token kind :: blank :: rest) after :=
  ⟨spelled, kind.apart_blank _, fits_blank fits⟩

theorem fits_closed {m : Mark} (closed : m ∈ [.openParen, .closeParen, .openBracket,
    .closeBracket, .openBrace, .closeBrace, .comma, .semicolon, .complement, .plusPlus,
    Mark.minusMinus]) {rest : List Chunk} {after : List Char} (fits : Fits rest after) :
    Fits (mark m :: rest) after :=
  ⟨trivial, Mark.apart_of_closed closed _, fits⟩

theorem fits_enclosed {needs : Bool} {chunks : List Chunk} {after : List Char}
    (inner : ∀ {after}, Ends after → Fits chunks after)
    (outer : needs = false → Fits chunks after) : Fits (enclosed needs chunks) after := by
  cases needs with
  | false => exact outer rfl
  | true =>
    refine fits_closed (by simp) (fits_append.mpr ⟨inner (ends_cons (by decide) _), ?_⟩)
    exact fits_closed (by simp) trivial

theorem fits_at {e : Expr ι} (inner : ∀ {after}, Follows e after → Fits e.layout after)
    {least : Level} {after : List Char} (ends : Ends after) : Fits (e.layoutAt least) after :=
  fits_enclosed (fun ends => inner (ends.follows e)) (fun _ => inner (ends.follows e))

theorem fits_separated {list : List (Expr ι)}
    (members : ∀ e ∈ list, ∀ {after}, Follows e after → Fits e.layout after) {after : List Char}
    (ends : Ends after) :
    Fits (separated (list.map (Expr.layoutAt · Level.assignment))) after := by
  induction list with
  | nil => trivial
  | cons e rest ih =>
    have first := fun {after : List Char} (ends : Ends after) =>
      @fits_at _ e (members e List.mem_cons_self) Level.assignment after ends
    cases rest with
    | nil => exact first ends
    | cons next more =>
      have others := ih fun inner member => members inner (List.mem_cons_of_mem e member)
      exact fits_append.mpr ⟨first (ends_cons (by decide) _), fits_closed (by simp) (fits_blank others)⟩

def Opens (chunks : List Chunk) : Prop := ∃ kind rest, chunks = .token kind :: rest ∧ Starts kind

theorem Opens.append {chunks : List Chunk} (opens : Opens chunks) (rest : List Chunk) :
    Opens (chunks ++ rest) := by
  obtain ⟨kind, more, rfl, starts⟩ := opens
  exact ⟨kind, more ++ rest, rfl, starts⟩

theorem Opens.enclosed {chunks : List Chunk} (opens : Opens chunks) (needs : Bool) :
    Opens (enclosed needs chunks) := by
  cases needs with
  | false => exact opens
  | true => exact ⟨_, _, rfl, by simp [Starts]⟩

theorem Printable.opens {e : Expr ι} (printable : Printable e) : Opens e.layout := by
  induction printable with
  | name _ free => exact ⟨_, _, rfl, .inl free⟩
  | number =>
    rw [layout_number, numberLayout]
    split
    · exact ⟨_, _, rfl, by simp [Starts]⟩
    · exact ⟨_, _, rfl, trivial⟩
  | string => exact ⟨_, _, rfl, trivial⟩
  | @boolean n value => exact ⟨_, _, rfl, .inr (by cases value <;> simp)⟩
  | null => exact ⟨_, _, rfl, .inr (by simp)⟩
  | array => exact ⟨_, _, rfl, by simp [Starts]⟩
  | binary _ _ left =>
    rw [layout_binary, List.append_assoc]
    exact (left.enclosed _).append _
  | @unary n operator argument =>
    rw [layout_unary, frontLayout]
    have starts : Starts operator.kind := by cases operator <;> simp [UnaryOperator.kind, Starts]
    split <;> exact ⟨_, _, rfl, starts⟩
  | @update n operator before argument _ ih =>
    rw [layout_update]
    cases before with
    | true =>
      exact ⟨_, _, rfl, by cases operator <;> simp [UpdateOperator.kind, Starts]⟩
    | false => exact (ih.enclosed _).append _
  | assignment _ _ _ ih | conditional _ _ _ ih | call _ _ ih | bracket _ _ ih =>
    exact (ih.enclosed _).append _
  | @sequence n first second rest _ ih =>
    rw [layout_sequence, layoutList_eq_map]
    exact ((ih first List.mem_cons_self).enclosed _).append _
  | dot _ _ ih =>
    rw [layout_dot]
    exact ((ih.enclosed _).enclosed _).append _

theorem head_ne_assign {chunks : List Chunk} {after : List Char} (opens : Opens chunks)
    (fits : Fits chunks after) : ∃ c cs, render chunks = c :: cs ∧ c ≠ '=' := by
  obtain ⟨kind, rest, rfl, starts⟩ := opens
  have spelled := fits.1
  cases kind with
  | word name =>
    obtain ⟨c, cs, shape, start, -⟩ := spelled
    refine ⟨c, cs ++ render rest, by simp [Chunk.text, Kind.spelling, shape], ?_⟩
    rintro rfl
    exact absurd start (by decide)
  | number value raw =>
    obtain ⟨c, cs, shape, head⟩ := number_head spelled
    refine ⟨c, cs ++ render rest, by simp [Chunk.text, Kind.spelling, shape], ?_⟩
    rcases head with digit | point
    · rintro rfl
      exact absurd digit (by decide)
    · rw [point]
      decide
  | string value raw =>
    obtain ⟨quote, body, shape, quoted, -⟩ := spelled
    refine ⟨quote, body ++ render rest, by simp [Chunk.text, Kind.spelling, shape], ?_⟩
    rcases quoted with rfl | rfl <;> decide
  | mark m =>
    obtain ⟨c, cs, shape⟩ := List.exists_cons_of_ne_nil m.text_ne_nil
    refine ⟨c, cs ++ render rest, by simp [Chunk.text, Kind.spelling, shape], ?_⟩
    have heads : m.text.toList.head? ≠ some '=' := by
      revert starts
      cases m <;> simp [Starts, Mark.text]
    simpa [shape] using heads
  | finish => exact absurd starts id

section Cases

variable {n : ι} {e left right : Expr ι} {after : List Char}

theorem fits_number {value : Number} {raw : Option String}
    (spelled : NumberText (raw.getD value.display)) (follows : Follows (.number n value raw) after) :
    Fits (Expr.number n value raw).layout after := by
  rw [layout_number, numberLayout]
  rcases numberText_cases spelled with ⟨positive, number⟩ | ⟨negative, number⟩
  · rw [positive]
    refine ⟨number, fun c member => ⟨(follows c member).1, fun dot => ?_⟩, trivial⟩
    simpa [write_number, writeNumber] using ((follows c member).2 dot).2 rfl
  · rw [negative]
    have ends : Ends after :=
      follows.ends (by simp [write_number, writeNumber, negative, Level.unary, Level.member])
    refine ⟨trivial, Mark.apart_of_continuations (by decide) fun c member => ?_, number,
      fun c member => ⟨(ends c member).1, fun dot => absurd dot (ends c member).2⟩, trivial⟩
    obtain ⟨d, ds, shape, head⟩ := number_head number
    simp only [render, List.flatMap_cons, Chunk.text, Kind.spelling, shape, List.cons_append,
      List.head?_cons, Option.mem_some_iff] at member
    subst member
    rcases head with digit | rfl
    · intro taken
      rw [show Mark.minus.continuations = ['=', '-'] by decide] at taken
      simp only [List.mem_cons, List.not_mem_nil, or_false] at taken
      rcases taken with rfl | rfl <;> exact absurd digit (by decide)
    · decide

/-- A sign stays apart from what it stands before, unless that begins with the same sign. -/
theorem apart_front {operator : UnaryOperator} (tight : ¬ (operator.isWord ||
    (operator.isSign && Text.beginsWith (e.textAt Level.unary) operator.text)) = true)
    (opens : Opens (e.layoutAt Level.unary)) (fits : Fits (e.layoutAt Level.unary) after) :
    operator.kind.Apart (render (e.layoutAt Level.unary) ++ after) := by
  obtain ⟨c, cs, shape, other⟩ := head_ne_assign opens fits
  have text : (e.textAt Level.unary).toList = c :: cs := by
    rw [← shape]
    exact (render_enclosed e.write Level.unary (render_layout e)).symm
  rw [shape]
  cases operator with
  | typeOf | void | delete => simp [UnaryOperator.isWord] at tight
  | complement => exact Mark.apart_of_closed (by simp) _
  | not =>
    refine Mark.apart_of_continuations (by decide) fun d member => ?_
    simp only [List.cons_append, List.head?_cons, Option.mem_some_iff] at member
    subst member
    rw [show Mark.not.continuations = ['=', '='] by decide]
    simpa using other
  | minus =>
    have sign : c ≠ '-' := by
      rintro rfl
      refine tight ((beginsWith_iff_head (by decide : "-".toList = ['-'])).mpr ?_)
      rw [text, List.head?_cons]
    refine Mark.apart_of_continuations (by decide) fun d member => ?_
    simp only [List.cons_append, List.head?_cons, Option.mem_some_iff] at member
    subst member
    rw [show Mark.minus.continuations = ['=', '-'] by decide]
    simp [other, sign]
  | plus =>
    have sign : c ≠ '+' := by
      rintro rfl
      refine tight ((beginsWith_iff_head (by decide : "+".toList = ['+'])).mpr ?_)
      rw [text, List.head?_cons]
    refine Mark.apart_of_continuations (by decide) fun d member => ?_
    simp only [List.cons_append, List.head?_cons, Option.mem_some_iff] at member
    subst member
    rw [show Mark.plus.continuations = ['=', '+'] by decide]
    simp [other, sign]

theorem fits_unary {operator : UnaryOperator} (opens : Opens e.layout)
    (inner : ∀ {after}, Follows e after → Fits e.layout after)
    (follows : Follows (.unary n operator e) after) : Fits (Expr.unary n operator e).layout after := by
  have ends : Ends after := follows.ends (show Level.unary < Level.member by decide)
  have fits : Fits (e.layoutAt Level.unary) after := fits_at inner ends
  rw [layout_unary, frontLayout]
  split
  · exact fits_spaced operator.spelled fits
  · rename_i tight
    exact ⟨operator.spelled, apart_front tight (opens.enclosed _) fits, fits⟩

section Operands

variable (first : ∀ {after}, Follows left after → Fits left.layout after)
  (second : ∀ {after}, Follows right after → Fits right.layout after)

include first second

theorem fits_binary {operator : BinaryOperator}
    (follows : Follows (.binary n operator left right) after) :
    Fits (Expr.binary n operator left right).layout after := by
  have ends : Ends after := by
    refine follows.ends (level_binary ▸ ?_)
    cases operator <;> decide
  rw [layout_binary, operatorLayout, List.append_assoc, fits_append]
  split
  · exact ⟨fits_at first (ends_mark (by decide) _ _),
      fits_closed (by simp) (fits_blank (fits_at second ends))⟩
  · exact ⟨fits_at first (ends_blank _ _),
      fits_blank (fits_spaced operator.spelled (fits_at second ends))⟩

theorem fits_assignment {operator : AssignmentOperator}
    (follows : Follows (.assignment n operator left right) after) :
    Fits (Expr.assignment n operator left right).layout after := by
  have ends : Ends after := follows.ends (show Level.assignment < Level.member by decide)
  rw [layout_assignment, fits_append]
  exact ⟨fits_at first (ends_blank _ _),
    fits_blank (fits_spaced operator.spelled (fits_at second ends))⟩

theorem fits_bracket : Fits (Expr.member n left right true).layout after := by
  rw [layout_bracket, fits_append]
  refine ⟨fits_at first (ends_mark (by decide) _ _), fits_closed (by simp) ?_⟩
  exact fits_append.mpr ⟨fits_at second (ends_mark (by decide) _ _), fits_closed (by simp) trivial⟩

end Operands

theorem fits_conditional {test : Expr ι}
    (condition : ∀ {after}, Follows test after → Fits test.layout after)
    (first : ∀ {after}, Follows left after → Fits left.layout after)
    (second : ∀ {after}, Follows right after → Fits right.layout after)
    (follows : Follows (.conditional n test left right) after) :
    Fits (Expr.conditional n test left right).layout after := by
  have ends : Ends after := follows.ends (show Level.conditional < Level.member by decide)
  have rest : Fits (right.layoutAt Level.assignment) after := fits_at second ends
  rw [layout_conditional, fits_append]
  have question : (Kind.mark .question).Spelled := trivial
  have colon : (Kind.mark .colon).Spelled := trivial
  refine ⟨fits_at condition (ends_blank _ _), fits_blank (fits_spaced question ?_)⟩
  exact fits_append.mpr ⟨fits_at first (ends_blank _ _), fits_blank (fits_spaced colon rest)⟩

theorem fits_update {operator : UpdateOperator} {before : Bool}
    (inner : ∀ {after}, Follows e after → Fits e.layout after)
    (follows : Follows (.update n operator before e) after) :
    Fits (Expr.update n operator before e).layout after := by
  have apart : ∀ after, operator.kind.Apart after := by
    intro after
    cases operator <;> exact Mark.apart_of_closed (by simp) after
  rw [layout_update]
  cases before with
  | true =>
    have ends : Ends after := follows.ends (show Level.unary < Level.member by decide)
    exact ⟨operator.spelled, apart _, fits_at inner ends⟩
  | false =>
    have ends : Ends (render [.token operator.kind] ++ after) := by
      cases operator <;> exact ends_mark (by decide) [] after
    exact fits_append.mpr ⟨fits_at inner ends, operator.spelled, apart _, trivial⟩

theorem fits_call {list : List (Expr ι)}
    (inner : ∀ {after}, Follows e after → Fits e.layout after)
    (members : ∀ e ∈ list, ∀ {after}, Follows e after → Fits e.layout after) :
    Fits (Expr.call n e list).layout after := by
  rw [layout_call, layoutList_eq_map, fits_append]
  refine ⟨fits_at inner (ends_mark (by decide) _ _), fits_closed (by simp) ?_⟩
  exact fits_append.mpr ⟨fits_separated members (ends_mark (by decide) _ _),
    fits_closed (by simp) trivial⟩

/-- An object fits before the dot of its member, in parentheses where it is a whole number. -/
theorem fits_dot {m : ι} {text : String} (spelled : (Kind.word text).Spelled)
    (inner : ∀ {after}, Follows e after → Fits e.layout after)
    (follows : Follows (.member n e (.name m text) false) after) :
    Fits (Expr.member n e (.name m text) false).layout after := by
  rw [layout_dot, fits_append]
  refine ⟨fits_enclosed (fun ends => fits_at inner ends) fun bare => ?_, trivial, ?_, spelled,
    fun c member => (follows c member).1, trivial⟩
  · refine fits_enclosed (fun ends => inner (ends.follows e)) fun tight => inner ?_
    have high : Level.member ≤ e.write.level := by simpa using tight
    intro c member
    obtain rfl : '.' = c := by simpa [mark, Chunk.text, Kind.spelling, Mark.text] using member
    refine ⟨by decide, fun _ => ⟨high, fun isNumber => ?_⟩⟩
    simp only [Expr.needsParens, isNumber, Bool.true_and, Bool.or_eq_false_iff, Expr.textAt,
      Written.atLevel, if_neg (not_lt.mpr high)] at bare
    exact bare.2
  · refine Mark.apart_dot fun c member => ?_
    obtain ⟨d, ds, shape, start, -⟩ := spelled
    obtain rfl : d = c := by simpa [Chunk.text, Kind.spelling, shape] using member
    exact (Token.graphic_of_isWordStart start).2.2

end Cases

/-- The tokens of a printable expression stay apart from one another and from what follows. -/
theorem Printable.fits {e : Expr ι} (printable : Printable e) {after : List Char}
    (follows : Follows e after) : Fits e.layout after := by
  induction printable generalizing after with
  | name spelled => exact ⟨spelled, fun c member => (follows c member).1, trivial⟩
  | number spelled => exact fits_number spelled follows
  | string spelled => exact ⟨spelled, trivial, trivial⟩
  | @boolean n value =>
    refine ⟨?_, fun c member => (follows c member).1, trivial⟩
    cases value <;> exact ⟨_, _, rfl, by decide, by decide⟩
  | null =>
    exact ⟨⟨_, _, rfl, by decide, by decide⟩, fun c member => (follows c member).1, trivial⟩
  | array _ ih =>
    rw [layout_array, layoutElements_some]
    refine fits_closed (by simp) (fits_append.mpr ⟨fits_separated ih (ends_mark (by decide) _ _), ?_⟩)
    exact fits_closed (by simp) trivial
  | binary _ _ first second => exact fits_binary first second follows
  | unary inner ih => exact fits_unary (Printable.opens inner) ih follows
  | update _ ih => exact fits_update ih follows
  | assignment _ _ _ first second => exact fits_assignment first second follows
  | conditional _ _ _ test first second => exact fits_conditional test first second follows
  | @sequence n first second rest _ ih =>
    rw [layout_sequence, layoutList_eq_map]
    exact fits_separated ih (follows.ends (show Level.sequence < Level.member by decide))
  | call _ _ callee arguments => exact fits_call callee arguments
  | dot _ spelled ih => exact fits_dot spelled ih follows
  | bracket _ _ object index => exact fits_bracket object index

end Script

end Arborist

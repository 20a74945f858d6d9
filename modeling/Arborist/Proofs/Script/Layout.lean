import Mathlib
import Arborist.Proofs.Source.Chunk
import Arborist.Proofs.Script.Grammar
import Arborist.Proofs.Script.Notes

/-!
Written expressions as chunks. The chunks of an expression follow its text piece by piece, with the
parentheses that the levels ask for, and rendering them gives the text back.
-/

namespace Arborist.Script

open Token (Kind)
open Chunk (mark blank enclosed separated render render_cons render_append)

variable {ι : Type}

theorem BinaryOperator.spelling_kind (operator : BinaryOperator) :
    operator.kind.spelling = operator.text.toList := by
  cases operator <;> rfl

theorem UnaryOperator.spelling_kind (operator : UnaryOperator) :
    operator.kind.spelling = operator.text.toList := by
  cases operator <;> rfl

theorem UpdateOperator.spelling_kind (operator : UpdateOperator) :
    operator.kind.spelling = operator.text.toList := by
  cases operator <;> rfl

theorem AssignmentOperator.spelling_kind (operator : AssignmentOperator) :
    operator.kind.spelling = operator.text.toList := by
  cases operator <;> rfl

theorem beginsWith_iff_head {text start : String} {c : Char} (single : start.toList = [c]) :
    Text.beginsWith text start = true ↔ text.toList.head? = some c := by
  rw [Text.beginsWith, single]
  cases text.toList with
  | nil => simp
  | cons d ds =>
    simp only [List.isPrefixOf, Bool.and_true, beq_iff_eq, List.head?_cons, Option.some.injEq]
    exact eq_comm

def readNumber (text : String) : Number := ((Token.scanNumber text.toList).map Prod.fst).getD .nan

def withoutSign (text : String) : String := String.ofList text.toList.tail

def numberLayout (text : String) : List Chunk :=
  if Text.beginsWith text "-" then
    [mark .minus, .token (.number (readNumber (withoutSign text)) (withoutSign text))]
  else [.token (.number (readNumber text) text)]

def operatorLayout (operator : BinaryOperator) : List Chunk :=
  if operator = .comma then [mark .comma, blank] else [blank, .token operator.kind, blank]

def frontLayout (operator : UnaryOperator) (argument : String) : List Chunk :=
  if operator.isWord || (operator.isSign && Text.beginsWith argument operator.text) then
    [.token operator.kind, blank]
  else [.token operator.kind]

mutual

def Expr.layout : Expr ι → List Chunk
  | .name _ text => [.token (.word text)]
  | .number _ value raw => numberLayout (raw.getD value.display)
  | .string _ value raw => [.token (.string value (raw.getD (quote value)))]
  | .boolean _ value => [.token (.word (if value then "true" else "false"))]
  | .null _ => [.token (.word "null")]
  | .array _ elements =>
    mark .openBracket :: (separated (layoutElements elements) ++ [mark .closeBracket])
  | .binary _ op left right =>
    enclosed (left.write.level < (Level.operands op).1) left.layout ++ operatorLayout op ++
      enclosed (right.write.level < (Level.operands op).2) right.layout
  | .unary _ op argument =>
    frontLayout op (argument.write.atLevel Level.unary) ++
      enclosed (argument.write.level < Level.unary) argument.layout
  | .update _ op before argument =>
    if before then .token op.kind :: enclosed (argument.write.level < Level.member) argument.layout
    else enclosed (argument.write.level < Level.member) argument.layout ++ [.token op.kind]
  | .assignment _ op target value =>
    enclosed (target.write.level < Level.member) target.layout ++
      blank :: .token op.kind :: blank ::
        enclosed (value.write.level < Level.assignment) value.layout
  | .conditional _ test consequent alternate =>
    enclosed (test.write.level < Level.conditional + 1) test.layout ++
      blank :: mark .question :: blank ::
        (enclosed (consequent.write.level < Level.assignment) consequent.layout ++
          blank :: mark .colon :: blank ::
            enclosed (alternate.write.level < Level.assignment) alternate.layout)
  | .sequence _ parts => separated (layoutList parts)
  | .call _ callee arguments =>
    enclosed (callee.write.level < Level.member) callee.layout ++
      mark .openParen :: (separated (layoutList arguments) ++ [mark .closeParen])
  | .member _ object property computed =>
    let inner := enclosed (object.write.level < Level.member) object.layout
    if computed then
      inner ++ mark .openBracket :: (enclosed (property.write.level < Level.sequence) property.layout ++
        [mark .closeBracket])
    else
      let text := object.write.atLevel Level.member
      enclosed (object.isNumber &&
        (Text.beginsWith text "-" || text.toList.all Char.isDigit)) inner ++
        mark .dot :: enclosed (property.write.level < Level.primary) property.layout

def layoutList : List (Expr ι) → List (List Chunk)
  | [] => []
  | e :: rest => enclosed (e.write.level < Level.assignment) e.layout :: layoutList rest

def layoutElements : List (Option (Expr ι)) → List (List Chunk)
  | [] => []
  | none :: rest => [] :: layoutElements rest
  | some e :: rest => enclosed (e.write.level < Level.assignment) e.layout :: layoutElements rest

end

namespace Expr

def layoutAt (e : Expr ι) (least : Level) : List Chunk :=
  enclosed (e.write.level < least) e.layout

end Expr

section Equations

variable {n : ι} {e left right : Expr ι} {list : List (Expr ι)}

theorem layout_name {text : String} : (Expr.name n text).layout = [.token (.word text)] := rfl

theorem layout_number {value : Number} {raw : Option String} :
    (Expr.number n value raw).layout = numberLayout (raw.getD value.display) := rfl

theorem layout_string {value : String} {raw : Option String} :
    (Expr.string n value raw).layout = [.token (.string value (raw.getD (quote value)))] := rfl

theorem layout_boolean {value : Bool} :
    (Expr.boolean n value).layout = [.token (.word (if value then "true" else "false"))] := rfl

theorem layout_null : (Expr.null n).layout = [.token (.word "null")] := rfl

theorem layout_array {elements : List (Option (Expr ι))} :
    (Expr.array n elements).layout =
      mark .openBracket :: (separated (layoutElements elements) ++ [mark .closeBracket]) := rfl

theorem layout_binary {operator : BinaryOperator} :
    (Expr.binary n operator left right).layout =
      left.layoutAt (Level.operands operator).1 ++ operatorLayout operator ++
        right.layoutAt (Level.operands operator).2 := rfl

theorem layout_unary {operator : UnaryOperator} :
    (Expr.unary n operator e).layout =
      frontLayout operator (e.textAt Level.unary) ++ e.layoutAt Level.unary := rfl

theorem layout_update {operator : UpdateOperator} {before : Bool} :
    (Expr.update n operator before e).layout =
      if before then .token operator.kind :: e.layoutAt Level.member
      else e.layoutAt Level.member ++ [.token operator.kind] := rfl

theorem layout_assignment {operator : AssignmentOperator} :
    (Expr.assignment n operator left right).layout =
      left.layoutAt Level.member ++
        blank :: .token operator.kind :: blank :: right.layoutAt Level.assignment := rfl

theorem layout_conditional :
    (Expr.conditional n e left right).layout =
      e.layoutAt (Level.conditional + 1) ++ blank :: mark .question :: blank ::
        (left.layoutAt Level.assignment ++
          blank :: mark .colon :: blank :: right.layoutAt Level.assignment) := rfl

theorem layout_sequence : (Expr.sequence n list).layout = separated (layoutList list) := rfl

theorem layout_call :
    (Expr.call n e list).layout =
      e.layoutAt Level.member ++
        mark .openParen :: (separated (layoutList list) ++ [mark .closeParen]) := rfl

theorem layout_bracket :
    (Expr.member n left right true).layout =
      left.layoutAt Level.member ++
        mark .openBracket :: (right.layoutAt Level.sequence ++ [mark .closeBracket]) := rfl

theorem write_number {value : Number} {raw : Option String} :
    (Expr.number n value raw).write = writeNumber value raw := rfl

theorem level_binary {operator : BinaryOperator} :
    (Expr.binary n operator left right).write.level = Level.ofBinary operator := rfl

theorem level_sequence : (Expr.sequence n list).write.level = Level.sequence := rfl

end Equations

def Expr.needsParens (object : Expr ι) : Bool :=
  object.isNumber && (Text.beginsWith (object.textAt Level.member) "-" ||
    (object.textAt Level.member).toList.all Char.isDigit)

theorem layout_dot (n m : ι) (object : Expr ι) (text : String) :
    (Expr.member n object (.name m text) false).layout =
      enclosed object.needsParens (object.layoutAt Level.member) ++
        [mark .dot, .token (.word text)] := rfl

theorem layoutList_eq_map (list : List (Expr ι)) :
    layoutList list = list.map (Expr.layoutAt · Level.assignment) := by
  induction list with
  | nil => rfl
  | cons e rest ih => rw [layoutList, ih, List.map_cons, Expr.layoutAt]

theorem layoutElements_some (list : List (Expr ι)) :
    layoutElements (list.map some) = list.map (Expr.layoutAt · Level.assignment) := by
  induction list with
  | nil => rfl
  | cons e rest ih => rw [List.map_cons, layoutElements, ih, List.map_cons, Expr.layoutAt]

theorem writeList_eq_map (list : List (Expr ι)) :
    Expr.writeList list = list.map (Expr.textAt · Level.assignment) := by
  induction list with
  | nil => rfl
  | cons e rest ih => rw [Expr.writeList, ih, List.map_cons, Expr.textAt]

theorem render_parenthesized (needs : Bool) {chunks : List Chunk} {text : String}
    (inner : render chunks = text.toList) :
    render (enclosed needs chunks) = (if needs then parenthesized text else text).toList := by
  cases needs with
  | false => exact inner
  | true =>
    simp [enclosed, mark, Chunk.text, Kind.spelling, Mark.text, inner, parenthesized]

theorem render_enclosed (w : Written) (least : Level) {chunks : List Chunk}
    (inner : render chunks = w.text.toList) :
    render (enclosed (w.level < least) chunks) = (w.atLevel least).toList := by
  rw [render_parenthesized _ inner, Written.atLevel]
  by_cases low : w.level < least <;> simp [low]

theorem render_number (text : String) : render (numberLayout text) = text.toList := by
  unfold numberLayout
  split
  · rename_i begins
    obtain ⟨rest, shape⟩ := List.isPrefixOf_iff_prefix.mp begins
    simp [mark, Chunk.text, Kind.spelling, Mark.text, withoutSign, ← shape]
  · simp [Chunk.text, Kind.spelling]

theorem render_operator (operator : BinaryOperator) :
    render (operatorLayout operator) =
      (if operator = .comma then ", " else " " ++ operator.text ++ " ").toList := by
  unfold operatorLayout
  split
  · rfl
  · simp [blank, Chunk.text, operator.spelling_kind]

theorem map_render_layoutList {list : List (Expr ι)}
    (members : ∀ e ∈ list, render e.layout = e.write.text.toList) :
    (layoutList list).map (fun part => String.ofList (render part)) = Expr.writeList list := by
  induction list with
  | nil => rfl
  | cons e rest ih =>
    rw [layoutList, Expr.writeList, List.map_cons,
      ih fun inner member => members inner (List.mem_cons_of_mem e member),
      render_enclosed _ _ (members e List.mem_cons_self), String.ofList_toList]

theorem map_render_layoutElements {list : List (Option (Expr ι))}
    (members : ∀ e, some e ∈ list → render e.layout = e.write.text.toList) :
    (layoutElements list).map (fun part => String.ofList (render part)) =
      Expr.writeElements list := by
  induction list with
  | nil => rfl
  | cons entry rest ih =>
    have others := ih fun inner member => members inner (List.mem_cons_of_mem entry member)
    cases entry with
    | none =>
      rw [layoutElements, Expr.writeElements, List.map_cons, others]
      rfl
    | some e =>
      rw [layoutElements, Expr.writeElements, List.map_cons, others,
        render_enclosed _ _ (members e List.mem_cons_self), String.ofList_toList]

theorem render_frontLayout (operator : UnaryOperator) (argument : String) :
    render (frontLayout operator argument) ++ argument.toList =
      (writeUnary operator argument).toList := by
  unfold frontLayout writeUnary
  split <;> simp [blank, Chunk.text, operator.spelling_kind]

/-- Rendering the chunks of an expression gives its text. -/
theorem render_layout (e : Expr ι) : render e.layout = e.write.text.toList := by
  induction e using Expr.induct with
  | name n text => simp [Expr.layout, Expr.write, Chunk.text, Kind.spelling]
  | number n value raw => rw [Expr.layout, Expr.write, writeNumber, render_number]
  | string n value raw => simp [Expr.layout, Expr.write, Chunk.text, Kind.spelling]
  | boolean n value => cases value <;> simp [Expr.layout, Expr.write, Chunk.text, Kind.spelling]
  | null n => simp [Expr.layout, Expr.write, Chunk.text, Kind.spelling]
  | array n elements ih =>
    simp only [Expr.layout, Expr.write, render_cons, render_append, Chunk.render_separated,
      map_render_layoutElements ih, commaSeparated]
    simp [mark, Chunk.text, Kind.spelling, Mark.text]
  | binary n operator left right ihLeft ihRight =>
    simp only [Expr.layout, Expr.write, render_append, render_enclosed _ _ ihLeft,
      render_enclosed _ _ ihRight, render_operator]
    split <;> simp
  | unary n operator argument ih =>
    rw [Expr.layout, Expr.write, render_append, render_enclosed _ _ ih, render_frontLayout]
  | update n operator before argument ih =>
    cases before with
    | true =>
      simp [Expr.layout, Expr.write, render_enclosed _ _ ih, Chunk.text, operator.spelling_kind]
    | false =>
      simp [Expr.layout, Expr.write, render_enclosed _ _ ih, Chunk.text, operator.spelling_kind]
  | assignment n operator target value ihTarget ihValue =>
    simp [Expr.layout, Expr.write, render_enclosed _ _ ihTarget, render_enclosed _ _ ihValue, blank,
      Chunk.text, operator.spelling_kind]
  | conditional n test consequent alternate ihTest ihPositive ihNegative =>
    simp only [Expr.layout, Expr.write, render_append, render_cons, render_enclosed _ _ ihTest,
      render_enclosed _ _ ihPositive, render_enclosed _ _ ihNegative]
    simp [blank, mark, Chunk.text, Kind.spelling, Mark.text]
  | sequence n parts ih =>
    rw [Expr.layout, Expr.write, Chunk.render_separated, map_render_layoutList ih, commaSeparated]
  | call n callee arguments ihCallee ih =>
    simp only [Expr.layout, Expr.write, render_append, render_cons, render_enclosed _ _ ihCallee,
      Chunk.render_separated, map_render_layoutList ih, commaSeparated, parenthesized]
    simp [mark, Chunk.text, Kind.spelling, Mark.text]
  | member n object property computed ihObject ihProperty =>
    cases computed with
    | true =>
      simp [Expr.layout, Expr.write, render_enclosed _ _ ihObject, render_enclosed _ _ ihProperty,
        mark, Chunk.text, Kind.spelling, Mark.text]
    | false =>
      simp only [Expr.layout, Expr.write, Bool.false_eq_true, if_false, render_append, render_cons,
        render_enclosed _ _ ihProperty, writeMemberObject,
        render_parenthesized _ (render_enclosed _ _ ihObject)]
      split <;> simp [mark, Chunk.text, Kind.spelling, Mark.text]

end Arborist.Script

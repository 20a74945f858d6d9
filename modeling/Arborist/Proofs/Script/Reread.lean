import Mathlib
import Arborist.Proofs.Script.Layout

/-!
What a written expression will be read as again. It differs from the expression in two places only: a
negative number becomes an operator before a number, and operands of a comma become the parts of a
sequence.
-/

namespace Arborist.Script

variable {ι : Type}

def rereadNumber (text : String) : Expr Unit :=
  if Text.beginsWith text "-" then
    .unary () .minus (.number () (readNumber (withoutSign text)) (some (withoutSign text)))
  else .number () (readNumber text) (some text)

/-- One more part behind a sequence, or the second part behind any other expression. -/
def splice (left right : Expr Unit) : Expr Unit :=
  match left with
  | .sequence _ parts => .sequence () (parts ++ [right])
  | other => .sequence () [other, right]

namespace Expr

mutual

/-- What the text of an expression is read as. -/
def reread : Expr ι → Expr Unit
  | .name _ text => .name () text
  | .number _ value raw => rereadNumber (raw.getD value.display)
  | .string _ value raw => .string () value (some (raw.getD (quote value)))
  | .boolean _ value => .boolean () value
  | .null _ => .null ()
  | .array _ elements => .array () (rereadElements elements)
  | .binary _ operator left right =>
    if operator = .comma then splice left.reread right.reread
    else .binary () operator left.reread right.reread
  | .unary _ operator argument => .unary () operator argument.reread
  | .update _ operator before argument => .update () operator before argument.reread
  | .assignment _ operator target value => .assignment () operator target.reread value.reread
  | .conditional _ test consequent alternate =>
    .conditional () test.reread consequent.reread alternate.reread
  | .sequence _ parts => .sequence () (rereadList parts)
  | .call _ callee arguments => .call () callee.reread (rereadList arguments)
  | .member _ object property computed => .member () object.reread property.reread computed

def rereadList : List (Expr ι) → List (Expr Unit)
  | [] => []
  | e :: rest => e.reread :: rereadList rest

def rereadElements : List (Option (Expr ι)) → List (Option (Expr Unit))
  | [] => []
  | none :: rest => none :: rereadElements rest
  | some e :: rest => some e.reread :: rereadElements rest

end

@[simp] theorem rereadList_eq_map (list : List (Expr ι)) : rereadList list = list.map reread := by
  induction list with
  | nil => rfl
  | cons e rest ih => rw [rereadList, ih, List.map_cons]

@[simp] theorem rereadElements_eq_map (list : List (Option (Expr ι))) :
    rereadElements list = list.map (Option.map reread) := by
  induction list with
  | nil => rfl
  | cons entry rest ih => cases entry <;> rw [rereadElements, ih] <;> rfl

section Equations

variable {n : ι} {e left right : Expr ι} {list : List (Expr ι)}

@[simp] theorem reread_name {text : String} : (name n text).reread = .name () text := rfl

@[simp] theorem reread_number {value : Number} {raw : Option String} :
    (number n value raw).reread = rereadNumber (raw.getD value.display) := rfl

@[simp] theorem reread_string {value : String} {raw : Option String} :
    (string n value raw).reread = .string () value (some (raw.getD (quote value))) := rfl

@[simp] theorem reread_boolean {value : Bool} : (boolean n value).reread = .boolean () value := rfl

@[simp] theorem reread_null : (null n).reread = .null () := rfl

@[simp] theorem reread_array {elements : List (Option (Expr ι))} :
    (array n elements).reread = .array () (elements.map (Option.map reread)) :=
  congrArg (Expr.array ()) (rereadElements_eq_map elements)

@[simp] theorem reread_binary {operator : BinaryOperator} :
    (binary n operator left right).reread =
      if operator = .comma then splice left.reread right.reread
      else .binary () operator left.reread right.reread := rfl

@[simp] theorem reread_unary {operator : UnaryOperator} :
    (unary n operator e).reread = .unary () operator e.reread := rfl

@[simp] theorem reread_update {operator : UpdateOperator} {before : Bool} :
    (update n operator before e).reread = .update () operator before e.reread := rfl

@[simp] theorem reread_assignment {operator : AssignmentOperator} :
    (assignment n operator left right).reread =
      .assignment () operator left.reread right.reread := rfl

@[simp] theorem reread_conditional :
    (conditional n e left right).reread = .conditional () e.reread left.reread right.reread := rfl

@[simp] theorem reread_sequence :
    (sequence n list).reread = .sequence () (list.map reread) :=
  congrArg (Expr.sequence ()) (rereadList_eq_map list)

@[simp] theorem reread_call : (call n e list).reread = .call () e.reread (list.map reread) :=
  congrArg (Expr.call () e.reread) (rereadList_eq_map list)

@[simp] theorem reread_member {computed : Bool} :
    (member n left right computed).reread = .member () left.reread right.reread computed := rfl

end Equations

theorem reread_mapNote {κ : Type} (f : ι → κ) (e : Expr ι) : (e.mapNote f).reread = e.reread := by
  induction e using Expr.induct with
  | name | number | string | boolean | null => rfl
  | array n elements ih =>
    simp only [mapNote, reread_array, mapNoteElements_eq_map, List.map_map]
    congr 1
    refine List.map_congr_left fun entry member => ?_
    cases entry with
    | none => rfl
    | some e => exact congrArg some (ih e member)
  | sequence n parts ih =>
    simp only [mapNote, reread_sequence, mapNoteList_eq_map, List.map_map]
    exact congrArg _ (List.map_congr_left ih)
  | call n callee arguments ihCallee ih =>
    simp only [mapNote, reread_call, mapNoteList_eq_map, List.map_map, ihCallee]
    exact congrArg _ (List.map_congr_left ih)
  | binary n operator left right first second | assignment n operator left right first second
  | member n left right computed first second =>
    simp only [mapNote, reread_binary, reread_assignment, reread_member, first, second]
  | unary n operator argument ih | update n operator before argument ih =>
    simp only [mapNote, reread_unary, reread_update, ih]
  | conditional n test consequent alternate first second third =>
    simp only [mapNote, reread_conditional, first, second, third]

theorem reread_bare (e : Expr ι) : e.bare.reread = e.reread := reread_mapNote _ e

theorem isAssignable_reread {e : Expr ι} (assignable : e.isAssignable = true) :
    e.reread.isAssignable = true := by
  cases e with
  | name | member => rfl
  | _ => simp [isAssignable] at assignable

theorem splice_reread {e : Expr ι} (level : e.write.level ≠ Level.sequence) (right : Expr Unit) :
    splice e.reread right = .sequence () [e.reread, right] := by
  cases e with
  | number n value raw =>
    rw [reread_number, rereadNumber]
    split <;> rfl
  | binary n operator left second =>
    by_cases comma : operator = .comma
    · subst comma
      exact absurd rfl level
    · rw [reread_binary, if_neg comma]
      rfl
  | sequence n parts => exact absurd rfl level
  | _ => rfl

end Expr

end Arborist.Script

import Mathlib
import Arborist.Proofs.Script.Outline

/-!
Trees of values without what says where they stand, and with all else: that an expression has
parentheses around it is kept, where they open is not. Two trees that differ in their places alone
cannot be told apart then.
-/

namespace Arborist

/-- Notes on a literal or on parentheses, without the offset of the parentheses. -/
def Value.unopened : Value → Value
  | .object entries => .object (entries.filter fun entry => entry.1 != "parenStart")
  | other => other

def Fields.unplaced (fields : Fields) : Fields :=
  fields.filterMap fun entry =>
    if ["start", "end", "loc"].contains entry.1 then none
    else if entry.1 = "extra" then some ("extra", entry.2.unopened)
    else some entry

def Value.unplaced (value : Value) : Value := value.mapNodes Fields.unplaced

namespace Script

open Value (mapNodesFields)

variable {kind : String} {lines : LineIndex}

theorem unplaced_append (front rest : Fields) :
    Fields.unplaced (front ++ rest) = Fields.unplaced front ++ Fields.unplaced rest :=
  List.filterMap_append

theorem unplaced_own {fields : Fields} (own : ∀ key ∈ fields.map Prod.fst, key ∉ frameKeys) :
    Fields.unplaced (mapNodesFields Fields.unplaced fields) =
      mapNodesFields Fields.unplaced fields := by
  rw [← keys_mapNodesFields Fields.unplaced] at own
  generalize mapNodesFields Fields.unplaced fields = entries at own
  induction entries with
  | nil => rfl
  | cons entry rest ih =>
    rw [List.map_cons, List.forall_mem_cons] at own
    have first := own.1
    simp only [frameKeys, List.mem_cons, List.not_mem_nil, or_false, not_or] at first
    have keep : Fields.unplaced (entry :: rest) = entry :: Fields.unplaced rest := by
      simp [Fields.unplaced, first]
    rw [keep, ih own.2]

def enclosedFields (enclosed : Bool) : Fields :=
  if enclosed then [("parenthesized", .bool true)] else []

theorem unplaced_nodeFields (span : Span) (fields : Fields) :
    (Value.object (nodeFields lines kind span fields)).unplaced =
      outlineNode kind (Fields.unplaced (mapNodesFields Fields.unplaced fields)) := by
  rw [Value.unplaced, Value.mapNodes, if_pos (by rfl), nodeFields, Value.mapNodesFields_append,
    unplaced_append]
  rfl

theorem unplaced_plainNode {fields : Fields} (own : ∀ key ∈ fields.map Prod.fst, key ∉ frameKeys)
    (place : Place) :
    (plainNode lines kind place fields).unplaced = outlineNode kind
      (mapNodesFields Fields.unplaced fields ++
        extraFields (enclosedFields place.paren.isSome)) := by
  have note : Fields.unplaced (mapNodesFields Fields.unplaced
      (extraFields (parenFields place.paren))) =
      extraFields (enclosedFields place.paren.isSome) := by
    cases place.paren <;> rfl
  rw [plainNode, unplaced_nodeFields, Value.mapNodesFields_append, unplaced_append,
    unplaced_own own, note]

theorem mapNodesFields_extra {f : Fields → Fields} {entries : Fields}
    (plain : entries.isNode = false) (same : mapNodesFields f entries = entries) :
    mapNodesFields f (extraFields entries) = extraFields entries := by
  unfold extraFields
  split
  · rfl
  · simp only [mapNodesFields, Value.mapNodes, plain, same, Bool.false_eq_true, if_false]

theorem unplaced_literalNode {value : Value} (scalar : value.mapNodes Fields.unplaced = value)
    (place : Place) (raw : Option String) :
    (literalNode lines kind place value raw).unplaced = outlineNode kind
      (extraFields (rawFields value raw ++ enclosedFields place.paren.isSome) ++
        [("value", value)]) := by
  have notes : mapNodesFields Fields.unplaced (rawFields value raw ++ parenFields place.paren) =
      rawFields value raw ++ parenFields place.paren := by
    cases raw <;> cases place.paren <;>
      simp only [rawFields, parenFields, List.cons_append, List.nil_append, mapNodesFields,
        scalar] <;>
      rfl
  have plain : Fields.isNode (rawFields value raw ++ parenFields place.paren) = false := by
    cases raw <;> cases place.paren <;> rfl
  have note : Fields.unplaced (extraFields (rawFields value raw ++ parenFields place.paren)) =
      extraFields (rawFields value raw ++ enclosedFields place.paren.isSome) := by
    cases raw <;> cases place.paren <;> rfl
  rw [literalNode, unplaced_nodeFields, Value.mapNodesFields_append, unplaced_append,
    mapNodesFields_extra plain notes, note]
  simp [mapNodesFields, Fields.unplaced, scalar]

section Notes

/- Any change of places that keeps the parentheses. -/
variable {f : Place → Place} (keeps : ∀ place, (f place).paren.isSome = place.paren.isSome)
  {other : LineIndex}

include keeps

theorem unplaced_plainNode_congr {fields others : Fields} {place : Place}
    (own : ∀ key ∈ fields.map Prod.fst, key ∉ frameKeys)
    (same : mapNodesFields Fields.unplaced others = mapNodesFields Fields.unplaced fields) :
    (plainNode other kind (f place) others).unplaced =
      (plainNode lines kind place fields).unplaced := by
  have keys : others.map Prod.fst = fields.map Prod.fst := by
    rw [← keys_mapNodesFields Fields.unplaced, same, keys_mapNodesFields]
  rw [unplaced_plainNode own, unplaced_plainNode (by rwa [keys]), keeps, same]

omit keeps in
theorem unplaced_list {α : Type} {list : List α} {first second : α → Value}
    (members : ∀ a ∈ list, (first a).unplaced = (second a).unplaced) :
    (Value.list (list.map first)).mapNodes Fields.unplaced =
      (Value.list (list.map second)).mapNodes Fields.unplaced := by
  simp only [Value.mapNodes, Value.mapNodesItems_eq_map, List.map_map, Value.list.injEq]
  exact List.map_congr_left members

omit keeps in
theorem Expr.unplaced_elements {list : List (Option (Expr Place))}
    (members : ∀ e, some e ∈ list →
      ((e.mapNote f).encode other).unplaced = (e.encode lines).unplaced) :
    (Value.list (Expr.encodeElements other (Expr.mapNoteElements f list))).mapNodes
        Fields.unplaced =
      (Value.list (Expr.encodeElements lines list)).mapNodes Fields.unplaced := by
  simp only [Value.mapNodes, Value.mapNodesItems_eq_map, Value.list.injEq]
  induction list with
  | nil => rfl
  | cons entry rest ih =>
    have others := ih fun e member => members e (List.mem_cons_of_mem entry member)
    cases entry with
    | none => simp only [Expr.mapNoteElements, Expr.encodeElements, List.map_cons, others]
    | some e =>
      have first := members e List.mem_cons_self
      simp only [Value.unplaced] at first
      simp only [Expr.mapNoteElements, Expr.encodeElements, List.map_cons, others, first]

/-- Where an expression stands is all that a change of places changes. -/
theorem Expr.unplaced_mapNote (e : Expr Place) :
    ((e.mapNote f).encode other).unplaced = (e.encode lines).unplaced := by
  induction e using Expr.induct with
  | name | boolean | null => exact unplaced_plainNode_congr keeps (by simp [frameKeys]) rfl
  | number | string =>
    rw [Expr.mapNote, Expr.encode, Expr.encode, unplaced_literalNode rfl, unplaced_literalNode rfl,
      keeps]
  | array n elements ih =>
    apply unplaced_plainNode_congr keeps (by simp [frameKeys])
    simp only [mapNodesFields, Expr.unplaced_elements ih]
  | binary n operator left right first second =>
    simp only [Value.unplaced] at first second
    apply unplaced_plainNode_congr keeps (by simp [frameKeys])
    simp only [mapNodesFields, first, second]
  | unary n operator argument ih | update n operator before argument ih =>
    simp only [Value.unplaced] at ih
    apply unplaced_plainNode_congr keeps (by simp [frameKeys])
    simp only [mapNodesFields, ih]
  | assignment n operator target value first second
  | member n target value computed first second =>
    simp only [Value.unplaced] at first second
    apply unplaced_plainNode_congr keeps (by simp [frameKeys])
    simp only [mapNodesFields, first, second]
  | conditional n test consequent alternate first second third =>
    simp only [Value.unplaced] at first second third
    apply unplaced_plainNode_congr keeps (by simp [frameKeys])
    simp only [mapNodesFields, first, second, third]
  | sequence n parts ih =>
    apply unplaced_plainNode_congr keeps (by simp [frameKeys])
    rw [Expr.encodeList_eq_map, Expr.encodeList_eq_map, Expr.mapNoteList_eq_map, List.map_map]
    simp only [mapNodesFields, Function.comp_def, unplaced_list ih]
  | call n callee arguments first ih =>
    simp only [Value.unplaced] at first
    apply unplaced_plainNode_congr keeps (by simp [frameKeys])
    rw [Expr.encodeList_eq_map, Expr.encodeList_eq_map, Expr.mapNoteList_eq_map, List.map_map]
    simp only [mapNodesFields, Function.comp_def, first, unplaced_list ih]

theorem Expr.unplaced_option (entry : Option (Expr Place)) :
    (Expr.encodeOption other (entry.map (Expr.mapNote f))).mapNodes Fields.unplaced =
      (Expr.encodeOption lines entry).mapNodes Fields.unplaced := by
  cases entry with
  | none => rfl
  | some e => exact Expr.unplaced_mapNote keeps e

theorem Declarator.unplaced_mapNote (d : Declarator Place) :
    ((d.mapNote f).encode other).unplaced = (d.encode lines).unplaced := by
  have target : ((d.target.mapNote f).encode other).unplaced = (d.target.encode lines).unplaced :=
    Expr.unplaced_mapNote keeps d.target
  have value := @Expr.unplaced_option lines f keeps other d.value
  simp only [Value.unplaced] at target
  apply unplaced_plainNode_congr keeps (by simp [frameKeys])
  simp only [Declarator.mapNote, mapNodesFields, target, value]

theorem unplaced_block {place : Place} {body : List (Stmt Place)}
    (members : ∀ s ∈ body, ((s.mapNote f).encode other).unplaced = (s.encode lines).unplaced) :
    (blockNode other (f place) (Stmt.encodeList other (body.map (Stmt.mapNote f)))).unplaced =
      (blockNode lines place (Stmt.encodeList lines body)).unplaced := by
  apply unplaced_plainNode_congr keeps (by simp [frameKeys])
  rw [Stmt.encodeList_eq_map, Stmt.encodeList_eq_map, List.map_map]
  simp only [mapNodesFields, Function.comp_def, unplaced_list members]

theorem Stmt.unplaced_mapNote (s : Stmt Place) :
    ((s.mapNote f).encode other).unplaced = (s.encode lines).unplaced := by
  induction s using Stmt.induct with
  | declaration n kind declarators =>
    have each : ∀ d ∈ declarators, ((d.mapNote f).encode other).unplaced =
        (d.encode lines).unplaced := fun d _ => Declarator.unplaced_mapNote keeps d
    apply unplaced_plainNode_congr keeps (by simp [frameKeys])
    rw [List.map_map]
    simp only [mapNodesFields, Function.comp_def, unplaced_list each]
  | function n head block body ih =>
    have name : ((head.name.mapNote f).encode other).unplaced = (head.name.encode lines).unplaced :=
      Expr.unplaced_mapNote keeps head.name
    have each : ∀ e ∈ head.parameters, ((e.mapNote f).encode other).unplaced =
        (e.encode lines).unplaced := fun e _ => Expr.unplaced_mapNote keeps e
    have inner := @unplaced_block lines f keeps other block body ih
    simp only [Value.unplaced] at name inner
    apply unplaced_plainNode_congr keeps (by simp [frameKeys])
    rw [FunctionHead.mapNote, Expr.encodeList_eq_map, Expr.encodeList_eq_map, List.map_map,
      Stmt.mapNoteList_eq_map]
    simp only [mapNodesFields, Function.comp_def, name, unplaced_list each, inner]
  | block n body ih =>
    rw [Stmt.mapNote, Stmt.mapNoteList_eq_map]
    exact unplaced_block keeps ih
  | ret n argument =>
    have value := @Expr.unplaced_option lines f keeps other argument
    apply unplaced_plainNode_congr keeps (by simp [frameKeys])
    simp only [mapNodesFields, value]
  | expression n e =>
    have body : ((e.mapNote f).encode other).unplaced = (e.encode lines).unplaced :=
      Expr.unplaced_mapNote keeps e
    simp only [Value.unplaced] at body
    apply unplaced_plainNode_congr keeps (by simp [frameKeys])
    simp only [mapNodesFields, body]
  | branch n test consequent alternate ih ihOther =>
    have condition : ((test.mapNote f).encode other).unplaced = (test.encode lines).unplaced :=
      Expr.unplaced_mapNote keeps test
    have another : (Stmt.encodeOption other (Stmt.mapNoteOption f alternate)).mapNodes
        Fields.unplaced = (Stmt.encodeOption lines alternate).mapNodes Fields.unplaced := by
      cases alternate with
      | none => rfl
      | some s => exact ihOther s rfl
    simp only [Value.unplaced] at condition ih
    apply unplaced_plainNode_congr keeps (by simp [frameKeys])
    simp only [mapNodesFields, condition, ih, another]
  | empty n => exact unplaced_plainNode_congr keeps (by simp [frameKeys]) rfl

end Notes

end Script

end Arborist

import Mathlib
import Arborist.Proofs.Script.Dangling

/-!
Programs that were not read from a text are printed, and the code is read as their normal form as
long as no `else` is printed behind a statement that would take it. The printer sets no braces there.
-/

namespace Arborist.Script

open Token (Kind)

def Finite (value : Number) (raw : Option String) : Prop := raw = none ∧ value.isFinite = true

section Readers

variable {α : Type}

/-- A tree is read from the node, and it holds all that the grammar gives to the node. -/
structure ReadsTree (reader : Fields → Except CompileError α) (outline : α → Value) (node : Fields)
    (tree : α) : Prop where
  isNode : node.isNode = true
  read : reader node = .ok tree
  shaped : (Value.object node).shaped = outline tree

abbrev ReadsTrees (reader : Fields → Except CompileError α) (outline : α → Value) :
    List Fields → List α → Prop := List.Forall₂ (ReadsTree reader outline)

variable {reader : Fields → Except CompileError α} {outline : α → Value} {node inner : Fields}
  {field : String} {tree : α} {list : List Fields} {trees : List α}

theorem exists_readsTrees {good : α → Prop}
    (each : ∀ node ∈ list, ∃ tree, ReadsTree reader outline node tree ∧ good tree) :
    ∃ trees, ReadsTrees reader outline list trees ∧ ∀ tree ∈ trees, good tree := by
  induction list with
  | nil => exact ⟨[], .nil, by simp⟩
  | cons node rest ih =>
    obtain ⟨⟨tree, reads, holds⟩, others⟩ := List.forall_mem_cons.mp each
    obtain ⟨trees, all, hold⟩ := ih others
    exact ⟨tree :: trees, .cons reads all, List.forall_mem_cons.mpr ⟨holds, hold⟩⟩

theorem ReadsTrees.isNode (reads : ReadsTrees reader outline list trees) :
    ∀ node ∈ list, node.isNode = true := by
  induction reads with
  | nil => simp
  | cons one _ ih => exact List.forall_mem_cons.mpr ⟨one.isNode, ih⟩

theorem ReadsTrees.read (reads : ReadsTrees reader outline list trees) :
    list.mapM reader = .ok trees := by
  induction reads with
  | nil => rfl
  | cons one _ ih =>
    rw [List.mapM_cons, one.read, ih]
    rfl

theorem ReadsTrees.shaped (reads : ReadsTrees reader outline list trees) :
    (Value.list (list.map .object)).shaped = .list (trees.map outline) := by
  have same : list.map (fun node => (Value.object node).shaped) = trees.map outline :=
    map_eq_of_forall₂ (reads.imp fun _ _ one => one.shaped)
  rw [Value.shaped, Value.mapNodes, Value.mapNodesItems_eq_map, List.map_map, ← same]
  rfl

theorem ReadsTree.child (reads : ReadsTree reader outline inner tree)
    (held : node.valueOr field .null = .object inner) :
    ∃ less, Decode.child node field = .ok ⟨inner, less⟩ :=
  Decode.child_eq_ok (Fields.get?_of_valueOr held (by simp)) reads.isNode

theorem ReadsTree.optionalChild (reads : ReadsTree reader outline inner tree)
    (held : node.valueOr field .null = .object inner) :
    ∃ less, Decode.optionalChild node field = .ok (some ⟨inner, less⟩) :=
  Decode.optionalChild_eq_some (Fields.get?_of_valueOr held (by simp)) reads.isNode

theorem ReadsTrees.children (reads : ReadsTrees reader outline list trees)
    (held : node.valueOr field .null = .list (list.map .object)) :
    ∃ inners, Decode.children node field = .ok inners ∧ inners.length = trees.length ∧
      inners.mapM (fun inner => reader inner.1) = .ok trees := by
  obtain ⟨inners, run, same⟩ :=
    Decode.children_eq_ok (Fields.get?_of_valueOr held (by simp)) reads.isNode
  refine ⟨inners, run, ?_, ?_⟩
  · rw [← reads.length_eq, ← same, List.length_map]
  · rw [mapM_val reader, same, reads.read]

theorem optionalChild_of_null (bare : node.valueOr field .null = .null) :
    Decode.optionalChild node field = .ok none := by
  cases found : node.get? field with
  | none => rw [Decode.optionalChild, found]
  | some value =>
    rw [Fields.valueOr_null found] at bare
    rw [Decode.optionalChild, found, bare]

theorem flagField_of_valueOr {flag : Bool} (held : node.valueOr field (.bool false) = .bool flag) :
    Decode.flagField node field = .ok flag := by
  unfold Fields.valueOr at held
  unfold Decode.flagField
  split at held
  · rename_i missing
    cases held
    simp only [missing]
  · rename_i null
    cases held
    simp only [null]
  · rename_i found
    simp only [found, held]

theorem operatorField_of_valueOr {β : Type} {ofText? : String → Option β} {text : String}
    {operator : β} (held : node.valueOr "operator" .null = .string text)
    (known : ofText? text = some operator) : Decode.operatorField node ofText? = .ok operator :=
  Decode.operatorField_eq_ok (Fields.get?_of_valueOr held (by simp)) known

end Readers

def LoadsExpr (node : Fields) (e : Expr Lines) : Prop :=
  ReadsTree Decode.expression (Expr.outline false) node e ∧ PrintableWith Finite e

section Expressions

variable {node inner left right : Fields} {e first second third : Expr Lines} {text : String}

theorem readsTree_of_kind {α : Type} {reader : Fields → Except CompileError α} {outline : α → Value}
    {kind : String} {fields : Fields} {tree : α} (same : node.kind = kind)
    (own : grammar.lookup kind = some fields) (read : reader node = .ok tree)
    (shaped : outlineNode kind (fields.map fun field =>
      (field.1, (node.valueOr field.1 field.2).shaped)) = outline tree) :
    ReadsTree reader outline node tree where
  isNode := Fields.isNode_of_kind same (named_of_lookup own)
  read := read
  shaped := (shaped_node same own).trans shaped

theorem Names.reads (names : Names node text) :
    ReadsTree Decode.expression (Expr.outline false) node (.name (Decode.linesOf node) text) := by
  have found := Fields.get?_of_valueOr names.name (by simp)
  refine readsTree_of_kind names.kind rfl ?_ ?_
  · rw [Decode.expression]
    simp only [names.kind, Decode.stringField, found]
    rfl
  · simp only [List.map_cons, List.map_nil, names.name]
    rfl

theorem loads_name (binding : IsBinding node) : ∃ e, LoadsExpr node e := by
  obtain ⟨text, names, free⟩ := binding
  exact ⟨_, names.reads, .name names.word.spelled free⟩

theorem spelling?_of_plain (plain : node.get? "extra" = none) (holds : Value → Bool) :
    Decode.spelling? node holds = none := by
  simp only [Decode.spelling?, plain]

theorem loads_number {value : Number} (kind : node.kind = "NumericLiteral")
    (held : node.valueOr "value" .null = .number value) (finite : value.isFinite = true)
    (plain : node.get? "extra" = none) : ∃ e, LoadsExpr node e := by
  have found := Fields.get?_of_valueOr held (by simp)
  refine ⟨.number (Decode.linesOf node) value none, readsTree_of_kind kind rfl ?_ ?_,
    .number ⟨rfl, finite⟩⟩
  · rw [Decode.expression]
    simp only [kind, Decode.required, found, Decode.ok_bind, Decode.numberSpelling?,
      spelling?_of_plain plain]
    rfl
  · simp only [List.map_cons, List.map_nil, held]
    rfl

theorem loads_string (kind : node.kind = "StringLiteral")
    (held : node.valueOr "value" .null = .string text) (plain : node.get? "extra" = none) :
    ∃ e, LoadsExpr node e := by
  have found := Fields.get?_of_valueOr held (by simp)
  refine ⟨.string (Decode.linesOf node) text none, readsTree_of_kind kind rfl ?_ ?_,
    .string (spelled_quote text)⟩
  · rw [Decode.expression]
    simp only [kind, Decode.required, found, Decode.ok_bind, Decode.stringSpelling?,
      spelling?_of_plain plain]
    rfl
  · simp only [List.map_cons, List.map_nil, held]
    rfl

theorem loads_boolean {flag : Bool} (kind : node.kind = "BooleanLiteral")
    (held : node.valueOr "value" .null = .bool flag) : ∃ e, LoadsExpr node e := by
  have found := Fields.get?_of_valueOr held (by simp)
  refine ⟨.boolean (Decode.linesOf node) flag, readsTree_of_kind kind rfl ?_ ?_, .boolean⟩
  · rw [Decode.expression]
    simp only [kind, Decode.required, found]
    rfl
  · simp only [List.map_cons, List.map_nil, held]
    rfl

theorem loads_null (kind : node.kind = "NullLiteral") : ∃ e, LoadsExpr node e := by
  refine ⟨.null (Decode.linesOf node), readsTree_of_kind kind rfl ?_ rfl, .null⟩
  rw [Decode.expression]
  simp only [kind]
  rfl

theorem loads_binary {operator : BinaryOperator}
    (kind : node.kind = if operator.isLogical then "LogicalExpression" else "BinaryExpression")
    (mark : node.valueOr "operator" .null = .string operator.text)
    (hasLeft : node.valueOr "left" .null = .object left)
    (hasRight : node.valueOr "right" .null = .object right)
    (loadsLeft : LoadsExpr left first) (loadsRight : LoadsExpr right second) :
    ∃ e, LoadsExpr node e := by
  obtain ⟨lessLeft, runLeft⟩ := loadsLeft.1.child hasLeft
  obtain ⟨lessRight, runRight⟩ := loadsRight.1.child hasRight
  have runOperator := operatorField_of_valueOr mark (Decode.binaryOperator?_text operator)
  have own : grammar.lookup
      (if operator.isLogical then "LogicalExpression" else "BinaryExpression") =
      some [("left", .null), ("operator", .null), ("right", .null)] := by split <;> rfl
  refine ⟨.binary (Decode.linesOf node) operator first second,
    readsTree_of_kind kind own ?_ ?_, .binary loadsLeft.2 loadsRight.2⟩
  · rw [Decode.expression]
    cases logical : operator.isLogical <;>
    · simp only [logical, Bool.false_eq_true, if_true, if_false] at kind runOperator
      simp only [kind, runOperator, runLeft, loadsLeft.1.read, runRight, loadsRight.1.read,
        Decode.ok_bind]
      rfl
  · simp only [List.map_cons, List.map_nil, hasLeft, mark, hasRight, loadsLeft.1.shaped,
      loadsRight.1.shaped]
    rfl

theorem loads_unary {operator : UnaryOperator} (kind : node.kind = "UnaryExpression")
    (mark : node.valueOr "operator" .null = .string operator.text)
    (before : node.valueOr "prefix" (.bool true) = .bool true)
    (hasArgument : node.valueOr "argument" .null = .object inner) (loads : LoadsExpr inner e) :
    ∃ e, LoadsExpr node e := by
  obtain ⟨less, run⟩ := loads.1.child hasArgument
  have runOperator := operatorField_of_valueOr mark operator.ofText?_text
  refine ⟨.unary (Decode.linesOf node) operator e, readsTree_of_kind kind rfl ?_ ?_,
    .unary loads.2⟩
  · rw [Decode.expression]
    simp only [kind, runOperator, run, loads.1.read, Decode.ok_bind]
    rfl
  · simp only [List.map_cons, List.map_nil, mark, before, hasArgument,
      loads.1.shaped]
    rfl

theorem loads_update {operator : UpdateOperator} {before : Bool}
    (kind : node.kind = "UpdateExpression")
    (mark : node.valueOr "operator" .null = .string operator.text)
    (flag : node.valueOr "prefix" (.bool false) = .bool before)
    (hasArgument : node.valueOr "argument" .null = .object inner) (loads : LoadsExpr inner e) :
    ∃ e, LoadsExpr node e := by
  obtain ⟨less, run⟩ := loads.1.child hasArgument
  have runOperator := operatorField_of_valueOr mark operator.ofText?_text
  refine ⟨.update (Decode.linesOf node) operator before e,
    readsTree_of_kind kind rfl ?_ ?_, .update loads.2⟩
  · rw [Decode.expression]
    simp only [kind, runOperator, run, loads.1.read, flagField_of_valueOr flag, Decode.ok_bind]
    rfl
  · simp only [List.map_cons, List.map_nil, mark, flag, hasArgument,
      loads.1.shaped]
    rfl

theorem LoadsExpr.assignable (loads : LoadsExpr node e)
    (target : node.kind ∈ ["Identifier", "MemberExpression"]) : e.isAssignable = true := by
  obtain ⟨fields, own⟩ : ∃ fields, grammar.lookup node.kind = some fields := by
    simp only [List.mem_cons, List.not_mem_nil, or_false] at target
    rcases target with same | same <;> exact ⟨_, by rw [same]; rfl⟩
  have shaped := loads.1.shaped
  rw [shaped_node rfl own] at shaped
  cases e with
  | name | member => rfl
  | binary _ operator =>
    simp only [Expr.outline, outlineNode, Value.object.injEq, List.cons.injEq, Prod.mk.injEq,
      Value.string.injEq, true_and] at shaped
    rw [shaped.1] at target
    cases logical : operator.isLogical <;>
    · rw [logical] at target
      exact absurd target (by decide)
  | _ =>
    simp only [Expr.outline, outlineNode, literalOutline, Value.object.injEq, List.cons.injEq,
      Prod.mk.injEq, Value.string.injEq, true_and] at shaped
    rw [shaped.1] at target
    exact absurd target (by decide)

theorem loads_assignment {operator : AssignmentOperator} (kind : node.kind = "AssignmentExpression")
    (mark : node.valueOr "operator" .null = .string operator.text)
    (hasLeft : node.valueOr "left" .null = .object left)
    (hasRight : node.valueOr "right" .null = .object right)
    (target : left.kind ∈ ["Identifier", "MemberExpression"])
    (loadsLeft : LoadsExpr left first) (loadsRight : LoadsExpr right second) :
    ∃ e, LoadsExpr node e := by
  obtain ⟨lessLeft, runLeft⟩ := loadsLeft.1.child hasLeft
  obtain ⟨lessRight, runRight⟩ := loadsRight.1.child hasRight
  have runOperator := operatorField_of_valueOr mark operator.ofText?_text
  refine ⟨.assignment (Decode.linesOf node) operator first second,
    readsTree_of_kind kind rfl ?_ ?_,
    .assignment (loadsLeft.assignable target) loadsLeft.2 loadsRight.2⟩
  · rw [Decode.expression]
    simp only [kind, runOperator, runLeft, loadsLeft.1.read, runRight, loadsRight.1.read,
      Decode.ok_bind]
    rfl
  · simp only [List.map_cons, List.map_nil, mark, hasLeft, hasRight,
      loadsLeft.1.shaped, loadsRight.1.shaped]
    rfl

theorem loads_conditional {alternate : Fields} (kind : node.kind = "ConditionalExpression")
    (hasTest : node.valueOr "test" .null = .object inner)
    (hasConsequent : node.valueOr "consequent" .null = .object left)
    (hasAlternate : node.valueOr "alternate" .null = .object alternate)
    (condition : LoadsExpr inner first) (positive : LoadsExpr left second)
    (negative : LoadsExpr alternate third) : ∃ e, LoadsExpr node e := by
  obtain ⟨lessTest, runTest⟩ := condition.1.child hasTest
  obtain ⟨lessLeft, runLeft⟩ := positive.1.child hasConsequent
  obtain ⟨lessRight, runRight⟩ := negative.1.child hasAlternate
  refine ⟨.conditional (Decode.linesOf node) first second third,
    readsTree_of_kind kind rfl ?_ ?_, .conditional condition.2 positive.2 negative.2⟩
  · rw [Decode.expression]
    simp only [kind, runTest, condition.1.read, runLeft, positive.1.read, runRight,
      negative.1.read, Decode.ok_bind]
    rfl
  · simp only [List.map_cons, List.map_nil, hasTest, hasConsequent, hasAlternate,
      condition.1.shaped, positive.1.shaped, negative.1.shaped]
    rfl

theorem loads_dot (kind : node.kind = "MemberExpression")
    (hasObject : node.valueOr "object" .null = .object left)
    (flag : node.valueOr "computed" (.bool false) = .bool false)
    (hasProperty : node.valueOr "property" .null = .object right) (loads : LoadsExpr left first)
    (names : Names right text) : ∃ e, LoadsExpr node e := by
  obtain ⟨lessObject, runObject⟩ := loads.1.child hasObject
  obtain ⟨lessProperty, runProperty⟩ := names.reads.child hasProperty
  refine ⟨.member (Decode.linesOf node) first (.name (Decode.linesOf right) text) false,
    readsTree_of_kind kind rfl ?_ ?_, .dot loads.2 names.word.spelled⟩
  · rw [Decode.expression]
    simp only [kind, runObject, loads.1.read, runProperty, names.reads.read,
      flagField_of_valueOr flag, Decode.ok_bind]
    rfl
  · simp only [List.map_cons, List.map_nil, hasObject, flag, hasProperty,
      loads.1.shaped, names.reads.shaped]
    rfl

theorem loads_bracket (kind : node.kind = "MemberExpression")
    (hasObject : node.valueOr "object" .null = .object left)
    (flag : node.valueOr "computed" (.bool false) = .bool true)
    (hasProperty : node.valueOr "property" .null = .object right) (loads : LoadsExpr left first)
    (index : LoadsExpr right second) : ∃ e, LoadsExpr node e := by
  obtain ⟨lessObject, runObject⟩ := loads.1.child hasObject
  obtain ⟨lessProperty, runProperty⟩ := index.1.child hasProperty
  refine ⟨.member (Decode.linesOf node) first second true,
    readsTree_of_kind kind rfl ?_ ?_, .bracket loads.2 index.2⟩
  · rw [Decode.expression]
    simp only [kind, runObject, loads.1.read, runProperty, index.1.read, flagField_of_valueOr flag,
      Decode.ok_bind]
    rfl
  · simp only [List.map_cons, List.map_nil, hasObject, flag, hasProperty,
      loads.1.shaped, index.1.shaped]
    rfl

theorem readElements_eq_ok {list : List Fields} {trees : List (Expr Lines)}
    (reads : ReadsTrees Decode.expression (Expr.outline false) list trees)
    {items : List { item : Value // sizeOf item < sizeOf node }}
    (same : items.map Subtype.val = list.map .object) :
    items.mapM (readElement node) = .ok (trees.map some) := by
  induction reads generalizing items with
  | nil =>
    rw [List.map_nil, List.map_eq_nil_iff] at same
    rw [same]
    rfl
  | @cons inner tree rest trees one _ ih =>
    obtain ⟨item, tail, rfl, shape, behind⟩ := List.map_eq_cons_iff.mp same
    obtain ⟨less, found⟩ := Decode.innerOf_eq_some shape one.isNode
    have element : readElement node item = .ok (some tree) := by
      unfold readElement
      split
      · rename_i null
        simp [shape] at null
      · simp only [found, one.read]
        rfl
    rw [List.mapM_cons, element, ih behind]
    rfl

section Lists

variable {list : List Fields} (members : ∀ e ∈ list, ∃ tree, LoadsExpr e tree)

include members

theorem loads_array (kind : node.kind = "ArrayExpression")
    (held : node.valueOr "elements" .null = .list (list.map .object)) : ∃ e, LoadsExpr node e := by
  obtain ⟨trees, reads, printable⟩ := exists_readsTrees members
  obtain ⟨items, run, same⟩ := Decode.itemsField_eq_ok (Fields.get?_of_valueOr held (by simp))
  refine ⟨.array (Decode.linesOf node) (trees.map some), readsTree_of_kind kind rfl ?_ ?_,
    .array printable⟩
  · rw [Decode.expression]
    simp only [kind, run, Decode.ok_bind]
    change (items.mapM (readElement node) >>= fun trees =>
      pure (Expr.array (Decode.linesOf node) trees)) = _
    rw [readElements_eq_ok reads same]
    rfl
  · simp only [List.map_cons, List.map_nil, held, reads.shaped, Expr.outline,
      Expr.outlineElements_some]

theorem loads_sequence (kind : node.kind = "SequenceExpression")
    (held : node.valueOr "expressions" .null = .list (list.map .object)) (some : 2 ≤ list.length) :
    ∃ e, LoadsExpr node e := by
  obtain ⟨trees, reads, printable⟩ := exists_readsTrees members
  obtain ⟨inners, run, -, runs⟩ := reads.children held
  obtain ⟨first, second, rest, rfl⟩ : ∃ first second rest, trees = first :: second :: rest := by
    match trees, reads.length_eq with
    | [], length | [_], length =>
      rw [length] at some
      exact absurd some (by simp)
    | first :: second :: rest, _ => exact ⟨first, second, rest, rfl⟩
  refine ⟨.sequence (Decode.linesOf node) (first :: second :: rest),
    readsTree_of_kind kind rfl ?_ ?_, .sequence printable⟩
  · rw [Decode.expression]
    simp only [kind, run, runs, Decode.ok_bind]
    rfl
  · simp only [List.map_cons, List.map_nil, held, reads.shaped, Expr.outline,
      Expr.outlineList_eq_map]

theorem loads_call (kind : node.kind = "CallExpression")
    (hasCallee : node.valueOr "callee" .null = .object inner)
    (held : node.valueOr "arguments" .null = .list (list.map .object)) (loads : LoadsExpr inner e) :
    ∃ e, LoadsExpr node e := by
  obtain ⟨trees, reads, printable⟩ := exists_readsTrees members
  obtain ⟨inners, run, -, runs⟩ := reads.children held
  obtain ⟨less, runCallee⟩ := loads.1.child hasCallee
  refine ⟨.call (Decode.linesOf node) e trees, readsTree_of_kind kind rfl ?_ ?_,
    .call loads.2 printable⟩
  · rw [Decode.expression]
    simp only [kind, runCallee, loads.1.read, run, runs, Decode.ok_bind]
    rfl
  · simp only [List.map_cons, List.map_nil, hasCallee, held, loads.1.shaped,
      reads.shaped, Expr.outline, Expr.outlineList_eq_map]

end Lists

/-- From an expression of the grammar an expression is read that can be printed. -/
theorem IsExpression.loads (is : IsExpression node) : ∃ e, LoadsExpr node e := by
  induction is with
  | name binding => exact loads_name binding
  | number kind held finite plain => exact loads_number kind held finite plain
  | string kind held plain => exact loads_string kind held plain
  | boolean kind held => exact loads_boolean kind held
  | null kind => exact loads_null kind
  | array kind held _ members => exact loads_array members kind held
  | binary kind mark hasLeft hasRight _ _ first second =>
    obtain ⟨_, first⟩ := first
    obtain ⟨_, second⟩ := second
    exact loads_binary kind mark hasLeft hasRight first second
  | unary kind mark before hasArgument _ inner =>
    obtain ⟨_, inner⟩ := inner
    exact loads_unary kind mark before hasArgument inner
  | update kind mark flag hasArgument _ inner =>
    obtain ⟨_, inner⟩ := inner
    exact loads_update kind mark flag hasArgument inner
  | assignment kind mark hasLeft hasRight target _ _ first second =>
    obtain ⟨_, first⟩ := first
    obtain ⟨_, second⟩ := second
    exact loads_assignment kind mark hasLeft hasRight target first second
  | conditional kind hasTest hasConsequent hasAlternate _ _ _ first second third =>
    obtain ⟨_, first⟩ := first
    obtain ⟨_, second⟩ := second
    obtain ⟨_, third⟩ := third
    exact loads_conditional kind hasTest hasConsequent hasAlternate first second third
  | sequence kind held some _ members => exact loads_sequence members kind held some
  | call kind hasCallee held _ _ inner members =>
    obtain ⟨_, inner⟩ := inner
    exact loads_call members kind hasCallee held inner
  | dot kind hasObject flag hasProperty _ names inner =>
    obtain ⟨_, inner⟩ := inner
    exact loads_dot kind hasObject flag hasProperty inner names
  | bracket kind hasObject flag hasProperty _ _ inner index =>
    obtain ⟨_, inner⟩ := inner
    obtain ⟨_, index⟩ := index
    exact loads_bracket kind hasObject flag hasProperty inner index

end Expressions

section Statements

variable {ι : Type} {node inner : Fields} {e : Expr Lines}

theorem loads_binding (binding : IsBinding node) :
    ∃ e, ReadsTree Decode.expression (Expr.outline false) node e ∧ PrintableName e := by
  obtain ⟨text, names, free⟩ := binding
  exact ⟨_, names.reads, .intro names.word.spelled free⟩

theorem IsDeclarator.loads (is : IsDeclarator node) :
    ∃ d, ReadsTree Decode.declarator (Declarator.outline false) node d ∧
      PrintableName d.target ∧ ∀ e ∈ d.value, PrintableWith Finite e := by
  cases is with
  | plain kind hasId binding bare =>
    obtain ⟨target, reads, name⟩ := loads_binding binding
    obtain ⟨less, run⟩ := reads.child hasId
    refine ⟨⟨Decode.linesOf node, target, none⟩, readsTree_of_kind kind rfl ?_ ?_, name,
      by simp⟩
    · rw [Decode.declarator, if_pos kind]
      simp only [run, reads.read, optionalChild_of_null bare, Decode.ok_bind]
      rfl
    · simp only [List.map_cons, List.map_nil, hasId, bare, reads.shaped]
      rfl
  | initial kind hasId binding hasValue value =>
    obtain ⟨target, reads, name⟩ := loads_binding binding
    obtain ⟨e, loads⟩ := value.loads
    obtain ⟨less, run⟩ := reads.child hasId
    obtain ⟨lessValue, runValue⟩ := loads.1.optionalChild hasValue
    refine ⟨⟨Decode.linesOf node, target, some e⟩, readsTree_of_kind kind rfl ?_ ?_, name,
      by simpa using loads.2⟩
    · rw [Decode.declarator, if_pos kind]
      simp only [run, reads.read, runValue, loads.1.read, Decode.ok_bind]
      rfl
    · simp only [List.map_cons, List.map_nil, hasId, hasValue, reads.shaped,
        loads.1.shaped]
      rfl

/-- A statement is read from the node, and where no `else` is taken by a statement before it, it can
be printed. -/
def LoadsStmt (node : Fields) (s : Stmt Lines) : Prop :=
  ReadsTree Decode.statement (Stmt.outline false) node s ∧
    ((s.outline false).EachNode Fields.Closed → PrintableStmtWith Finite s)

theorem loads_declaration {word : DeclarationKind} {list : List Fields}
    (kind : node.kind = "VariableDeclaration")
    (mark : node.valueOr "kind" .null = .string word.text)
    (held : node.valueOr "declarations" .null = .list (list.map .object)) (some : list ≠ [])
    (members : ∀ d ∈ list, IsDeclarator d) : ∃ s, LoadsStmt node s := by
  obtain ⟨trees, reads, printable⟩ := exists_readsTrees fun d member => (members d member).loads
  obtain ⟨inners, run, length, runs⟩ := reads.children held
  have found := Fields.get?_of_valueOr mark (by simp)
  have filled : trees ≠ [] := by
    rintro rfl
    exact some (List.forall₂_nil_right_iff.mp reads)
  have many : inners.isEmpty = false := by
    rw [List.isEmpty_eq_false_iff, ← List.length_pos_iff, length, List.length_pos_iff]
    exact filled
  refine ⟨.declaration (Decode.linesOf node) word trees, readsTree_of_kind kind rfl ?_ ?_,
    fun _ => .declaration filled (fun d member => (printable d member).1)
      fun d member => (printable d member).2⟩
  · rw [Decode.statement]
    simp only [kind, Decode.declaration, Decode.stringField, found, Decode.ok_bind,
      DeclarationKind.ofText?_text, run, many, runs]
    rfl
  · simp only [List.map_cons, List.map_nil, mark, held, reads.shaped]
    rfl

theorem shaped_braces {list : List Fields} {trees : List (Stmt Lines)} (braces : Braces node list)
    (reads : ReadsTrees Decode.statement (Stmt.outline false) list trees) :
    (Value.object node).shaped = blockOutline (trees.map (Stmt.outline false)) := by
  rw [shaped_node braces.kind rfl]
  simp only [List.map_cons, List.map_nil, braces.body, braces.directives,
    reads.shaped]
  rfl

theorem blockChildren_of_braces {list : List Fields} {trees : List (Stmt Lines)}
    (braces : Braces node list)
    (reads : ReadsTrees Decode.statement (Stmt.outline false) list trees) :
    ∃ inners, Decode.blockChildren node = .ok inners ∧
      inners.mapM (fun inner => Decode.statement inner.1) = .ok trees := by
  obtain ⟨inners, run, -, runs⟩ := reads.children braces.body
  exact ⟨inners, by rw [Decode.blockChildren, if_pos braces.kind, run], runs⟩

theorem closed_of_block {list : List (Stmt Lines)}
    (closed : (blockOutline (list.map (Stmt.outline false))).EachNode Fields.Closed) :
    ∀ s ∈ list, (s.outline false).EachNode Fields.Closed := by
  intro s member
  exact Value.eachItem_iff.mp closed.2.2.1 _ (List.mem_map_of_mem member)

section Lists

variable {list : List Fields} (members : ∀ s ∈ list, ∃ tree, LoadsStmt s tree)

include members

theorem loads_block (braces : Braces node list) : ∃ s, LoadsStmt node s := by
  obtain ⟨trees, reads, printable⟩ := exists_readsTrees members
  obtain ⟨inners, run, runs⟩ := blockChildren_of_braces braces reads
  refine ⟨.block (Decode.linesOf node) trees,
    ⟨Fields.isNode_of_kind braces.kind (by decide), ?_, ?_⟩, fun closed => ?_⟩
  · rw [Decode.statement]
    simp only [braces.kind, run, runs, Decode.ok_bind]
    rfl
  · rw [shaped_braces braces reads, Stmt.outline, Stmt.outlineList_eq_map]
  · rw [Stmt.outline, Stmt.outlineList_eq_map] at closed
    exact .block fun s member => printable s member (closed_of_block closed s member)

theorem loads_function {id block : Fields} {parameters : List Fields} {isAsync isGenerator : Bool}
    (kind : node.kind = "FunctionDeclaration")
    (async : node.valueOr "async" (.bool false) = .bool isAsync)
    (generator : node.valueOr "generator" (.bool false) = .bool isGenerator)
    (hasId : node.valueOr "id" .null = .object id) (binding : IsBinding id)
    (held : node.valueOr "params" .null = .list (parameters.map .object))
    (bindings : ∀ p ∈ parameters, IsBinding p)
    (hasBody : node.valueOr "body" .null = .object block) (braces : Braces block list) :
    ∃ s, LoadsStmt node s := by
  obtain ⟨trees, reads, printable⟩ := exists_readsTrees members
  obtain ⟨inners, runBlock, runs⟩ := blockChildren_of_braces braces reads
  obtain ⟨name, readsName, nameable⟩ := loads_binding binding
  obtain ⟨names, readsNames, nameables⟩ :=
    exists_readsTrees fun p member => loads_binding (bindings p member)
  obtain ⟨lessName, runName⟩ := readsName.child hasId
  obtain ⟨innerNames, runNames, -, runsNames⟩ := readsNames.children held
  obtain ⟨lessBody, runBody⟩ := Decode.child_eq_ok (Fields.get?_of_valueOr hasBody (by simp))
    (Fields.isNode_of_kind braces.kind (by decide))
  refine ⟨.function (Decode.linesOf node) ⟨isAsync, isGenerator, name, names⟩
    (Decode.linesOf block) trees, readsTree_of_kind kind rfl ?_ ?_, fun closed => ?_⟩
  · rw [Decode.statement]
    simp only [kind, Decode.functionHead, flagField_of_valueOr async,
      flagField_of_valueOr generator, runName, readsName.read, runNames, runsNames, runBody,
      runBlock, runs, Decode.ok_bind]
    rfl
  · simp only [List.map_cons, List.map_nil, hasId, generator, async, held, hasBody,
      readsName.shaped, readsNames.shaped, shaped_braces braces reads]
    rw [Stmt.outline, Stmt.outlineList_eq_map, Expr.outlineList_eq_map]
    rfl
  · rw [Stmt.outline, Stmt.outlineList_eq_map] at closed
    exact .function nameable nameables fun s member =>
      printable s member (closed_of_block closed.2.2.2.2.2.2.1 s member)

end Lists

theorem loads_leave (kind : node.kind = "ReturnStatement")
    (bare : node.valueOr "argument" .null = .null) : ∃ s, LoadsStmt node s := by
  refine ⟨.ret (Decode.linesOf node) none, readsTree_of_kind kind rfl ?_ ?_,
    fun _ => .ret (by simp)⟩
  · rw [Decode.statement]
    simp only [kind, optionalChild_of_null bare, Decode.ok_bind]
    rfl
  · simp only [List.map_cons, List.map_nil, bare]
    rfl

theorem loads_ret (kind : node.kind = "ReturnStatement")
    (hasArgument : node.valueOr "argument" .null = .object inner) (loads : LoadsExpr inner e) :
    ∃ s, LoadsStmt node s := by
  obtain ⟨less, run⟩ := loads.1.optionalChild hasArgument
  refine ⟨.ret (Decode.linesOf node) (some e), readsTree_of_kind kind rfl ?_ ?_,
    fun _ => .ret (by simpa using loads.2)⟩
  · rw [Decode.statement]
    simp only [kind, run, loads.1.read, Decode.ok_bind]
    rfl
  · simp only [List.map_cons, List.map_nil, hasArgument, loads.1.shaped]
    rfl

theorem loads_expression (kind : node.kind = "ExpressionStatement")
    (hasBody : node.valueOr "expression" .null = .object inner) (loads : LoadsExpr inner e) :
    ∃ s, LoadsStmt node s := by
  obtain ⟨less, run⟩ := loads.1.child hasBody
  refine ⟨.expression (Decode.linesOf node) e, readsTree_of_kind kind rfl ?_ ?_,
    fun _ => .expression loads.2⟩
  · rw [Decode.statement]
    simp only [kind, run, loads.1.read, Decode.ok_bind]
    rfl
  · simp only [List.map_cons, List.map_nil, hasBody, loads.1.shaped]
    rfl

theorem loads_empty (kind : node.kind = "EmptyStatement") : ∃ s, LoadsStmt node s := by
  refine ⟨.empty (Decode.linesOf node), readsTree_of_kind kind rfl ?_ rfl, fun _ => .empty⟩
  rw [Decode.statement]
  simp only [kind]
  rfl

section Branches

variable {consequent alternate : Fields} {first second : Stmt Lines}

theorem loads_branch (kind : node.kind = "IfStatement")
    (hasTest : node.valueOr "test" .null = .object inner)
    (hasConsequent : node.valueOr "consequent" .null = .object consequent)
    (bare : node.valueOr "alternate" .null = .null) (condition : LoadsExpr inner e)
    (positive : LoadsStmt consequent first) : ∃ s, LoadsStmt node s := by
  obtain ⟨lessTest, runTest⟩ := condition.1.child hasTest
  obtain ⟨less, run⟩ := positive.1.child hasConsequent
  refine ⟨.branch (Decode.linesOf node) e first none, readsTree_of_kind kind rfl ?_ ?_,
    fun closed => .branch condition.2 (positive.2 (closed_branch_iff.mp closed).2.2.1)⟩
  · rw [Decode.statement]
    simp only [kind, runTest, condition.1.read, run, positive.1.read, optionalChild_of_null bare,
      Decode.ok_bind]
    rfl
  · simp only [List.map_cons, List.map_nil, hasTest, hasConsequent, bare, condition.1.shaped,
      positive.1.shaped]
    rfl

theorem loads_choice (kind : node.kind = "IfStatement")
    (hasTest : node.valueOr "test" .null = .object inner)
    (hasConsequent : node.valueOr "consequent" .null = .object consequent)
    (hasAlternate : node.valueOr "alternate" .null = .object alternate)
    (condition : LoadsExpr inner e) (positive : LoadsStmt consequent first)
    (negative : LoadsStmt alternate second) : ∃ s, LoadsStmt node s := by
  obtain ⟨lessTest, runTest⟩ := condition.1.child hasTest
  obtain ⟨less, run⟩ := positive.1.child hasConsequent
  obtain ⟨lessLast, runLast⟩ := negative.1.optionalChild hasAlternate
  refine ⟨.branch (Decode.linesOf node) e first (some second), readsTree_of_kind kind rfl ?_ ?_,
    fun closed => ?_⟩
  · rw [Decode.statement]
    simp only [kind, runTest, condition.1.read, run, positive.1.read, runLast, negative.1.read,
      Decode.ok_bind]
    rfl
  · simp only [List.map_cons, List.map_nil, hasTest, hasConsequent, hasAlternate,
      condition.1.shaped, positive.1.shaped, negative.1.shaped]
    rfl
  · obtain ⟨own, -, closedFirst, closedSecond⟩ := closed_branch_iff.mp closed
    refine .choice condition.2 (positive.2 closedFirst) ?_ (negative.2 closedSecond)
    rw [Bool.eq_false_iff, ne_eq, ← dangles_outline_iff]
    exact own (outline_ne_null second)

end Branches

theorem IsStatement.loads (is : IsStatement node) : ∃ s, LoadsStmt node s := by
  induction is with
  | declaration kind mark held some members => exact loads_declaration kind mark held some members
  | function kind async generator hasId binding held bindings hasBody braces _ members =>
    exact loads_function members kind async generator hasId binding held bindings hasBody braces
  | block braces _ members => exact loads_block members braces
  | leave kind bare => exact loads_leave kind bare
  | ret kind hasArgument inner =>
    obtain ⟨_, inner⟩ := inner.loads
    exact loads_ret kind hasArgument inner
  | expression kind hasBody inner =>
    obtain ⟨_, inner⟩ := inner.loads
    exact loads_expression kind hasBody inner
  | branch kind hasTest hasConsequent bare condition _ positive =>
    obtain ⟨_, condition⟩ := condition.loads
    obtain ⟨_, positive⟩ := positive
    exact loads_branch kind hasTest hasConsequent bare condition positive
  | choice kind hasTest hasConsequent hasAlternate condition _ _ positive negative =>
    obtain ⟨_, condition⟩ := condition.loads
    obtain ⟨_, positive⟩ := positive
    obtain ⟨_, negative⟩ := negative
    exact loads_choice kind hasTest hasConsequent hasAlternate condition positive negative
  | empty kind => exact loads_empty kind

end Statements

theorem IsProgram.loads {root : Fields} (program : IsProgram root) :
    ∃ trees, Decode.root root = .ok trees ∧
      (Value.object root).shaped = programOutline false trees ∧
      ((Value.object root).shaped.EachNode Fields.Closed →
        ∀ s ∈ trees, PrintableStmtWith Finite s) := by
  obtain ⟨list, held, members⟩ := program.body
  obtain ⟨trees, reads, printable⟩ := exists_readsTrees fun s member => (members s member).loads
  obtain ⟨inners, run, -, runs⟩ := reads.children held
  have shaped : (Value.object root).shaped = programOutline false trees := by
    rw [shaped_node program.kind rfl, programOutline, Stmt.outlineList_eq_map]
    simp only [List.map_cons, List.map_nil, program.sourceType, program.interpreter, held,
      program.directives, reads.shaped]
    rfl
  refine ⟨trees, ?_, shaped, fun closed s member => ?_⟩
  · simp only [Decode.root, program.kind, Decode.body, run, runs, Decode.ok_bind]
  · rw [shaped, programOutline, Stmt.outlineList_eq_map] at closed
    exact printable s member
      (Value.eachItem_iff.mp closed.2.2.2.2.1 _ (List.mem_map_of_mem member))

/-- A program of the grammar is compiled, whoever made its tree, and the code is parsed into the
normal form of the program, in all fields that the grammar has, unless the consequent of a branch
takes the `else` printed behind it. -/
theorem parse_compile_loaded {root : Fields} (program : IsProgram root) (width : Nat) :
    ∃ code, compile width root = .ok code ∧
      ((Value.object root).shaped.EachNode Fields.Closed ↔
        ∃ again, parseProgram code = .ok again ∧
          (Value.object root).shaped.normal.Agrees ((Value.object again).trim false)) := by
  obtain ⟨trees, decoded, shaped, printable⟩ := program.loads
  refine ⟨_, compile_of_decode decoded width, fun closed => ?_, ?_⟩
  · have finite := printable closed
    have numeric : ∀ s ∈ trees, PrintableStmt s := fun s member =>
      (finite s member).imp fun {value raw} ⟨bare, real⟩ => bare ▸ (shown_finite real).1
    have shown : ∀ s ∈ trees, PrintableStmtWith Shown s := fun s member =>
      (finite s member).imp fun {value raw} ⟨bare, real⟩ => bare ▸ (shown_finite real).2
    obtain ⟨front, finish, again, reads⟩ := readsAs numeric width
    refine ⟨_, reads.parsed, ?_⟩
    rw [shaped, trim_program, ← programOutline_bare again, reads.same]
    exact normal_agrees_program shown
  · rintro ⟨again, parsed, agrees⟩
    rw [shaped] at agrees ⊢
    exact showsClosed_program trees _ agrees (closed_of_parseProgram parsed)

def wordNode (text : String) : Fields :=
  [("type", .string "Identifier"), ("name", .string text)]

def lineNode (text : String) : Fields :=
  [("type", .string "ExpressionStatement"), ("expression", .object (wordNode text))]

def branchNode (test : String) (consequent : Fields) (alternate : Value) : Fields :=
  [("type", .string "IfStatement"), ("test", .object (wordNode test)),
    ("consequent", .object consequent), ("alternate", alternate)]

def bracesNode (inner : Fields) : Fields :=
  [("type", .string "BlockStatement"), ("body", .list [.object inner]), ("directives", .list [])]

/-- The program `if (a) … else d;`. -/
def elseNode (consequent : Fields) : Fields :=
  [("type", .string "Program"), ("sourceType", .string "script"), ("interpreter", .null),
    ("body", .list [.object (branchNode "a" consequent (.object (lineNode "d")))]),
    ("directives", .list [])]

/-- The branch `if (b) c;`. -/
def bareNode : Fields := branchNode "b" (lineNode "c") .null

theorem isExpression_letter {text : String} (letter : text ∈ ["a", "b", "c", "d"]) :
    IsExpression (wordNode text) := by
  have scanned : Token.scan text.toList =
      .ok [⟨.word text, 0, 1, false⟩, ⟨.finish, 1, 1, false⟩] ∧ isReserved text = false := by
    revert text
    decide +kernel
  exact .name ⟨text, ⟨rfl, rfl, _, _, scanned.1, rfl⟩, scanned.2⟩

theorem isStatement_letter {text : String} (letter : text ∈ ["a", "b", "c", "d"]) :
    IsStatement (lineNode text) := .expression rfl rfl (isExpression_letter letter)

theorem isStatement_bareNode : IsStatement bareNode :=
  .branch rfl rfl rfl rfl (isExpression_letter (by simp)) (isStatement_letter (by simp))

theorem isProgram_elseNode {consequent : Fields} (is : IsStatement consequent) :
    IsProgram (elseNode consequent) where
  kind := rfl
  sourceType := rfl
  interpreter := rfl
  directives := rfl
  body := by
    refine ⟨[branchNode "a" consequent (.object (lineNode "d"))], rfl, ?_⟩
    rw [List.forall_mem_singleton]
    exact .choice rfl rfl rfl rfl (isExpression_letter (by simp)) is (isStatement_letter (by simp))

def bareTree : Stmt Unit := .branch () (.name () "b") (.expression () (.name () "c")) none

def elseTree (consequent : Stmt Unit) : Stmt Unit :=
  .branch () (.name () "a") consequent (some (.expression () (.name () "d")))

theorem closed_bareTree : (bareTree.outline false).EachNode Fields.Closed :=
  closed_branch_iff.mpr ⟨fun some => absurd rfl some, closed_expr _,
    closed_node (by decide) ⟨closed_expr _, trivial⟩, trivial⟩

theorem closed_elseTree_iff {consequent : Stmt Unit} :
    ((elseTree consequent).outline false).EachNode Fields.Closed ↔
      consequent.dangles = false ∧ (consequent.outline false).EachNode Fields.Closed := by
  rw [elseTree, Stmt.outline, closed_branch_iff, dangles_outline_iff, Bool.not_eq_true]
  constructor
  · rintro ⟨own, -, inner, -⟩
    exact ⟨own (outline_ne_null _), inner⟩
  · rintro ⟨own, inner⟩
    exact ⟨fun _ => own, closed_expr _, inner, closed_node (by decide) ⟨closed_expr _, trivial⟩⟩

theorem parse_compile_loaded_braces :
    let root := elseNode (bracesNode bareNode)
    IsProgram root ∧ (Value.object root).shaped.EachNode Fields.Closed ∧
      ∃ code again, compile 2 root = .ok code ∧ parseProgram code = .ok again ∧
        (Value.object root).shaped.normal.Agrees ((Value.object again).trim false) := by
  intro root
  have braces : Braces (bracesNode bareNode) [bareNode] := ⟨rfl, rfl, rfl⟩
  have program : IsProgram root :=
    isProgram_elseNode (.block braces (List.forall_mem_singleton.mpr isStatement_bareNode))
  have closed : (programOutline false [elseTree (.block () [bareTree])]).EachNode Fields.Closed :=
    closed_program (List.forall_mem_singleton.mpr (closed_elseTree_iff.mpr
      ⟨rfl, closed_block (List.forall_mem_singleton.mpr closed_bareTree)⟩))
  obtain ⟨code, compiled, parsed⟩ := parse_compile_loaded program 2
  obtain ⟨again, parsed, agrees⟩ := parsed.mp closed
  exact ⟨program, closed, code, again, compiled, parsed, agrees⟩

/-- Without braces the inner branch takes the `else`: the code is read as another program. -/
theorem compile_dangling :
    let root := elseNode bareNode
    IsProgram root ∧ compile 2 root = .ok "if (a) if (b) c; else d;" ∧
      ∃ again, parseProgram "if (a) if (b) c; else d;" = .ok again ∧
        ¬ (Value.object root).shaped.normal.Agrees ((Value.object again).trim false) := by
  intro root
  obtain ⟨again, parsed⟩ : ∃ again, parseProgram "if (a) if (b) c; else d;" = .ok again :=
    exists_of_isOk (by decide +kernel)
  refine ⟨isProgram_elseNode isStatement_bareNode, by decide +kernel, again, parsed,
    fun agrees => ?_⟩
  have closed : (programOutline false [elseTree bareTree]).EachNode Fields.Closed :=
    showsClosed_program _ _ agrees (closed_of_parseProgram parsed)
  have inside : ((elseTree bareTree).outline false).EachNode Fields.Closed := closed.2.2.2.2.1.1
  exact absurd (closed_elseTree_iff.mp inside).1 (by decide)

end Arborist.Script

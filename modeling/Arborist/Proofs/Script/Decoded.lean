import Mathlib
import Arborist.Proofs.Script.Edited
import Arborist.Proofs.Script.Fields
import Arborist.Proofs.Script.Outline

/-!
Encoded trees are read back. Whatever was written over registered fields of an encoded tree, the
reader takes it apart into the edited tree, and what is left of the values without positions and
spellings is the outline of that tree.
-/

namespace Arborist.Script

open Value (Allowance Varies VariesItems VariesFields)

variable {α β : Type}

section Framed

variable {kind key : String} {fields node inner : Fields} {value : Value}

theorem Framed.field (framed : Framed kind fields node) (own : key ∉ frameKeys)
    (held : fields.get? key = some value) : node.get? key = some value := by
  rw [framed.get?_eq own, held]

theorem Framed.child (framed : Framed kind fields node) (own : key ∉ frameKeys)
    (held : fields.get? key = some (.object inner)) (isNode : inner.isNode = true) :
    ∃ less, Decode.child node key = .ok ⟨inner, less⟩ :=
  Decode.child_eq_ok (framed.field own held) isNode

end Framed

structure ReadAs (reader : Fields → Except CompileError β) (edited : α → β → Prop)
    (outline : β → Value) (a : α) (value : Value) (node : Fields) (tree : β) : Prop where
  shape : value = .object node
  isNode : node.isNode = true
  read : reader node = .ok tree
  edited : edited a tree
  trimmed : value.trim false = outline tree

structure ReadAll (reader : Fields → Except CompileError β) (edited : α → β → Prop)
    (outline : β → Value) (list : List α) (values : List Value) (nodes : List Fields)
    (trees : List β) : Prop where
  shape : values = nodes.map .object
  areNodes : ∀ node ∈ nodes, Fields.isNode node = true
  read : nodes.mapM reader = .ok trees
  edited : List.Forall₂ edited list trees
  trimmed : values.map (Value.trim false) = trees.map outline

section Readers

variable {reader : Fields → Except CompileError β} {edited : α → β → Prop} {outline : β → Value}
  {kind key : String} {fields node : Fields}

theorem ReadAs.child {a : α} {value : Value} {inner : Fields} {tree : β}
    (read : ReadAs reader edited outline a value inner tree) (framed : Framed kind fields node)
    (own : key ∉ frameKeys) (held : fields.get? key = some value) :
    ∃ less, Decode.child node key = .ok ⟨inner, less⟩ :=
  framed.child own (by rw [held, read.shape]) read.isNode

theorem readAll_of_varies {allows : Allowance} {encode : α → Value} {list : List α}
    (members : ∀ a ∈ list, ∀ {value}, Varies allows (encode a) value →
      ∃ node tree, ReadAs reader edited outline a value node tree)
    {values : List Value} (varies : VariesItems allows (list.map encode) values) :
    ∃ nodes trees, ReadAll reader edited outline list values nodes trees := by
  induction list generalizing values with
  | nil =>
    rw [List.map_nil, VariesItems] at varies
    exact ⟨[], [], varies, by simp, rfl, .nil, by rw [varies]; rfl⟩
  | cons a rest ih =>
    obtain ⟨value, more, rfl, one, others⟩ := varies
    obtain ⟨first, behind⟩ := List.forall_mem_cons.mp members
    obtain ⟨node, tree, read⟩ := first one
    obtain ⟨nodes, trees, reads⟩ := ih behind others
    refine ⟨node :: nodes, tree :: trees, ?_,
      List.forall_mem_cons.mpr ⟨read.isNode, reads.areNodes⟩, ?_, .cons read.edited reads.edited, ?_⟩
    · rw [read.shape, reads.shape, List.map_cons]
    · rw [List.mapM_cons, read.read, reads.read]
      rfl
    · rw [List.map_cons, List.map_cons, read.trimmed, reads.trimmed]

variable {list : List α} {values : List Value} {nodes : List Fields} {trees : List β}

theorem ReadAll.children (reads : ReadAll reader edited outline list values nodes trees)
    (framed : Framed kind fields node) (own : key ∉ frameKeys)
    (held : fields.get? key = some (.list values)) :
    ∃ inners, Decode.children node key = .ok inners ∧ inners.length = list.length ∧
      inners.mapM (fun inner => reader inner.1) = .ok trees := by
  rw [reads.shape] at held
  obtain ⟨inners, run, same⟩ := Decode.children_eq_ok (framed.field own held) reads.areNodes
  refine ⟨inners, run, ?_, ?_⟩
  · have lengths := congrArg List.length reads.trimmed
    have counts := congrArg List.length reads.shape
    have sizes := congrArg List.length same
    rw [List.length_map] at sizes
    rw [List.length_map, List.length_map] at lengths
    rw [List.length_map] at counts
    rw [reads.edited.length_eq]
    omega
  · rw [mapM_val reader, same, reads.read]

theorem ReadAll.trim_list (reads : ReadAll reader edited outline list values nodes trees) :
    (Value.list values).trim false = .list (trees.map outline) := by
  rw [Value.trim, Value.mapNodes, Value.mapNodesItems_eq_map, ← reads.trimmed]
  rfl

end Readers

abbrev ReadExpr (allows : Allowance) : Expr Place → Value → Fields → Expr Lines → Prop :=
  ReadAs Decode.expression (Expr.Edited allows) (Expr.outline false)

/-- However the encoded expression varies, an edited expression is read from it. -/
def Expr.Decodes (allows : Allowance) (lines : LineIndex) (e : Expr Place) : Prop :=
  ∀ {value}, Varies allows (e.encode lines) value → ∃ node tree, ReadExpr allows e value node tree

section Leaves

variable {allows : Allowance} (registered : allows.Registered) {lines : LineIndex} {place : Place}

include registered

theorem decodes_name {text : String} : (Expr.name place text).Decodes allows lines := by
  intro value varies
  obtain ⟨node, others, rfl, framed, other, _, rfl, same, rfl⟩ :=
    framed_of_plainNode registered varies
  obtain ⟨next, rfl, kept⟩ : ∃ next, other = .string next ∧
      Kept allows "Identifier" "name" (.string text) (.string next) := by
    rcases same with same | written
    · exact ⟨text, same, .inl rfl⟩
    · obtain ⟨input, found, takes⟩ := registered.input written
      cases found
      obtain ⟨next, rfl⟩ := takes
      exact ⟨next, rfl, .inr written⟩
  refine ⟨node, .name (Decode.linesOf node) next, rfl, framed.isNode, ?_, ⟨_, next, rfl, kept⟩,
    framed.trim (by simp [frameKeys])⟩
  rw [Decode.expression]
  simp only [framed.kind_eq, Decode.stringField, framed.field (by decide : "name" ∉ frameKeys) rfl]
  rfl

theorem decodes_number {n : Number} {raw : Option String} :
    (Expr.number place n raw).Decodes allows lines := by
  intro value varies
  have scalar : ∀ other, Varies allows (.number n) other → other = .number n := fun _ same => same
  obtain ⟨node, other, rfl, framed, same, spelling⟩ :=
    framed_of_literalNode registered scalar varies
  obtain ⟨next, rfl, kept⟩ : ∃ next, other = .number next ∧
      Kept allows "NumericLiteral" "value" (.number n) (.number next) := by
    rcases same with rfl | written
    · exact ⟨n, rfl, .inl rfl⟩
    · obtain ⟨input, found, takes⟩ := registered.input written
      cases found
      obtain ⟨next, rfl⟩ := takes
      exact ⟨next, rfl, .inr written⟩
  refine ⟨node, .number (Decode.linesOf node) next (if n.agrees next then raw else none), rfl,
    framed.isNode, ?_, ⟨_, next, rfl, kept⟩, framed.trim (by simp [frameKeys])⟩
  rw [Decode.expression]
  simp only [framed.kind_eq, Decode.required, framed.field (by decide : "value" ∉ frameKeys) rfl,
    Decode.numberSpelling?, spelling]
  rfl

theorem decodes_string {text : String} {raw : Option String} :
    (Expr.string place text raw).Decodes allows lines := by
  intro value varies
  have scalar : ∀ other, Varies allows (.string text) other → other = .string text :=
    fun _ same => same
  obtain ⟨node, other, rfl, framed, same, spelling⟩ :=
    framed_of_literalNode registered scalar varies
  obtain rfl : other = .string text := by
    rcases same with same | written
    · exact same
    · obtain ⟨input, found, -⟩ := registered.input written
      cases found
  refine ⟨node, .string (Decode.linesOf node) text raw, rfl, framed.isNode, ?_, ⟨_, rfl⟩,
    framed.trim (by simp [frameKeys])⟩
  rw [Decode.expression]
  simp only [framed.kind_eq, Decode.required, framed.field (by decide : "value" ∉ frameKeys) rfl,
    Decode.stringSpelling?, spelling, Decode.ok_bind, beq_self_eq_true, if_true]
  rfl

theorem decodes_boolean {b : Bool} : (Expr.boolean place b).Decodes allows lines := by
  intro value varies
  obtain ⟨node, others, rfl, framed, other, _, rfl, same, rfl⟩ :=
    framed_of_plainNode registered varies
  obtain rfl : other = .bool b := registered.varies rfl same
  refine ⟨node, .boolean (Decode.linesOf node) b, rfl, framed.isNode, ?_, ⟨_, rfl⟩,
    framed.trim (by simp [frameKeys])⟩
  rw [Decode.expression]
  simp only [framed.kind_eq, Decode.required, framed.field (by decide : "value" ∉ frameKeys) rfl]
  rfl

theorem decodes_null : (Expr.null place).Decodes allows lines := by
  intro value varies
  obtain ⟨node, others, rfl, framed, rfl⟩ := framed_of_plainNode registered varies
  refine ⟨node, .null (Decode.linesOf node), rfl, framed.isNode, ?_, ⟨_, rfl⟩,
    framed.trim (by simp [frameKeys])⟩
  rw [Decode.expression]
  simp only [framed.kind_eq]
  rfl

end Leaves

section Operands

variable {allows : Allowance} (registered : allows.Registered) {lines : LineIndex} {place : Place}
  {left right e : Expr Place}

include registered

theorem kept_operator {operator : BinaryOperator} {other : Value}
    (same : (textValue operator.text).Varies allows other ∨
      allows (if operator.isLogical then "LogicalExpression" else "BinaryExpression") "operator"
        (.string operator.text) other) :
    ∃ next : BinaryOperator, other = .string next.text ∧ next.isLogical = operator.isLogical ∧
      KeptOperator allows operator next := by
  rcases same with same | written
  · exact ⟨operator, same, rfl, .inl rfl⟩
  · obtain ⟨input, found, takes⟩ := registered.input written
    cases logical : operator.isLogical with
    | true =>
      simp only [logical, if_true] at found
      cases found
    | false =>
      simp only [logical, Bool.false_eq_true, if_false] at found written
      cases found
      obtain ⟨text, offered, rfl⟩ := takes
      obtain ⟨next, rfl, plain⟩ := exists_operator offered
      exact ⟨next, rfl, plain, .inr ⟨logical, plain, written⟩⟩

theorem decodes_binary {operator : BinaryOperator} (first : left.Decodes allows lines)
    (second : right.Decodes allows lines) :
    (Expr.binary place operator left right).Decodes allows lines := by
  intro value varies
  obtain ⟨node, others, rfl, framed, a, _, rfl, sameLeft, b, _, rfl, sameOperator, d, _, rfl,
    sameRight, rfl⟩ := framed_of_plainNode registered varies
  obtain ⟨next, rfl, logical, kept⟩ := kept_operator registered sameOperator
  have free : Registry.builtinInput?
      (if operator.isLogical then "LogicalExpression" else "BinaryExpression") "left" = none ∧
      Registry.builtinInput?
      (if operator.isLogical then "LogicalExpression" else "BinaryExpression") "right" = none := by
    cases operator.isLogical <;> exact ⟨rfl, rfl⟩
  obtain ⟨leftNode, leftTree, readLeft⟩ := first (registered.varies free.1 sameLeft)
  obtain ⟨rightNode, rightTree, readRight⟩ := second (registered.varies free.2 sameRight)
  obtain ⟨lessLeft, runLeft⟩ := readLeft.child framed (by decide : "left" ∉ frameKeys) rfl
  obtain ⟨lessRight, runRight⟩ := readRight.child framed (by decide : "right" ∉ frameKeys) rfl
  have runOperator := Decode.operatorField_eq_ok
    (framed.field (by decide : "operator" ∉ frameKeys) rfl) (Decode.binaryOperator?_text next)
  rw [logical] at runOperator
  refine ⟨node, .binary (Decode.linesOf node) next leftTree rightTree, rfl, framed.isNode, ?_,
    ⟨_, next, leftTree, rightTree, rfl, kept, readLeft.edited, readRight.edited⟩, ?_⟩
  · rw [Decode.expression]
    cases shape : operator.isLogical <;>
    · rw [shape] at runOperator framed
      simp only [framed.kind_eq, Bool.false_eq_true, if_true, if_false, runOperator, runLeft,
        readLeft.read, runRight, readRight.read, Decode.ok_bind]
      rfl
  · rw [framed.trim (by simp [frameKeys]), Expr.outline, logical]
    simp only [mapNodesFields_trim_cons, readLeft.trimmed, readRight.trimmed]
    rfl

theorem decodes_unary {operator : UnaryOperator} (inner : e.Decodes allows lines) :
    (Expr.unary place operator e).Decodes allows lines := by
  intro value varies
  obtain ⟨node, others, rfl, framed, a, _, rfl, sameOperator, b, _, rfl, sameFlag, d, _, rfl, same,
    rfl⟩ := framed_of_plainNode registered varies
  obtain rfl : a = .string operator.text := registered.varies rfl sameOperator
  obtain rfl : b = .bool true := registered.varies rfl sameFlag
  obtain ⟨child, tree, argument⟩ := inner (registered.varies rfl same)
  obtain ⟨less, run⟩ := argument.child framed (by decide : "argument" ∉ frameKeys) rfl
  have runOperator := Decode.operatorField_eq_ok
    (framed.field (by decide : "operator" ∉ frameKeys) rfl) operator.ofText?_text
  refine ⟨node, .unary (Decode.linesOf node) operator tree, rfl, framed.isNode, ?_,
    ⟨_, tree, rfl, argument.edited⟩, ?_⟩
  · rw [Decode.expression]
    simp only [framed.kind_eq, runOperator, run, argument.read, Decode.ok_bind]
    rfl
  · rw [framed.trim (by simp [frameKeys])]
    simp only [mapNodesFields_trim_cons, argument.trimmed]
    rfl

theorem decodes_update {operator : UpdateOperator} {before : Bool} (inner : e.Decodes allows lines) :
    (Expr.update place operator before e).Decodes allows lines := by
  intro value varies
  obtain ⟨node, others, rfl, framed, a, _, rfl, sameOperator, b, _, rfl, sameFlag, d, _, rfl, same,
    rfl⟩ := framed_of_plainNode registered varies
  obtain rfl : a = .string operator.text := registered.varies rfl sameOperator
  obtain rfl : b = .bool before := registered.varies rfl sameFlag
  obtain ⟨child, tree, argument⟩ := inner (registered.varies rfl same)
  obtain ⟨less, run⟩ := argument.child framed (by decide : "argument" ∉ frameKeys) rfl
  have runOperator := Decode.operatorField_eq_ok
    (framed.field (by decide : "operator" ∉ frameKeys) rfl) operator.ofText?_text
  refine ⟨node, .update (Decode.linesOf node) operator before tree, rfl, framed.isNode, ?_,
    ⟨_, tree, rfl, argument.edited⟩, ?_⟩
  · rw [Decode.expression]
    simp only [framed.kind_eq, runOperator, run, argument.read, Decode.ok_bind, Decode.flagField,
      framed.field (by decide : "prefix" ∉ frameKeys) rfl]
    rfl
  · rw [framed.trim (by simp [frameKeys])]
    simp only [mapNodesFields_trim_cons, argument.trimmed]
    rfl

theorem decodes_assignment {operator : AssignmentOperator} (first : left.Decodes allows lines)
    (second : right.Decodes allows lines) :
    (Expr.assignment place operator left right).Decodes allows lines := by
  intro value varies
  obtain ⟨node, others, rfl, framed, a, _, rfl, sameOperator, b, _, rfl, sameLeft, d, _, rfl,
    sameRight, rfl⟩ := framed_of_plainNode registered varies
  obtain rfl : a = .string operator.text := registered.varies rfl sameOperator
  obtain ⟨leftNode, leftTree, readLeft⟩ := first (registered.varies rfl sameLeft)
  obtain ⟨rightNode, rightTree, readRight⟩ := second (registered.varies rfl sameRight)
  obtain ⟨lessLeft, runLeft⟩ := readLeft.child framed (by decide : "left" ∉ frameKeys) rfl
  obtain ⟨lessRight, runRight⟩ := readRight.child framed (by decide : "right" ∉ frameKeys) rfl
  have runOperator := Decode.operatorField_eq_ok
    (framed.field (by decide : "operator" ∉ frameKeys) rfl) operator.ofText?_text
  refine ⟨node, .assignment (Decode.linesOf node) operator leftTree rightTree, rfl, framed.isNode,
    ?_, ⟨_, leftTree, rightTree, rfl, readLeft.edited, readRight.edited⟩, ?_⟩
  · rw [Decode.expression]
    simp only [framed.kind_eq, runOperator, runLeft, readLeft.read, runRight, readRight.read,
      Decode.ok_bind]
    rfl
  · rw [framed.trim (by simp [frameKeys])]
    simp only [mapNodesFields_trim_cons, readLeft.trimmed, readRight.trimmed]
    rfl

theorem decodes_conditional (condition : e.Decodes allows lines) (first : left.Decodes allows lines)
    (second : right.Decodes allows lines) :
    (Expr.conditional place e left right).Decodes allows lines := by
  intro value varies
  obtain ⟨node, others, rfl, framed, a, _, rfl, sameTest, b, _, rfl, sameLeft, d, _, rfl,
    sameRight, rfl⟩ := framed_of_plainNode registered varies
  obtain ⟨testNode, testTree, readTest⟩ := condition (registered.varies rfl sameTest)
  obtain ⟨leftNode, leftTree, readLeft⟩ := first (registered.varies rfl sameLeft)
  obtain ⟨rightNode, rightTree, readRight⟩ := second (registered.varies rfl sameRight)
  obtain ⟨lessTest, runTest⟩ := readTest.child framed (by decide : "test" ∉ frameKeys) rfl
  obtain ⟨lessLeft, runLeft⟩ := readLeft.child framed (by decide : "consequent" ∉ frameKeys) rfl
  obtain ⟨lessRight, runRight⟩ := readRight.child framed (by decide : "alternate" ∉ frameKeys) rfl
  refine ⟨node, .conditional (Decode.linesOf node) testTree leftTree rightTree, rfl, framed.isNode,
    ?_, ⟨_, testTree, leftTree, rightTree, rfl, readTest.edited, readLeft.edited,
      readRight.edited⟩, ?_⟩
  · rw [Decode.expression]
    simp only [framed.kind_eq, runTest, readTest.read, runLeft, readLeft.read, runRight,
      readRight.read, Decode.ok_bind]
    rfl
  · rw [framed.trim (by simp [frameKeys])]
    simp only [mapNodesFields_trim_cons, readTest.trimmed, readLeft.trimmed, readRight.trimmed]
    rfl

theorem decodes_member {computed : Bool} (first : left.Decodes allows lines)
    (second : right.Decodes allows lines) :
    (Expr.member place left right computed).Decodes allows lines := by
  intro value varies
  obtain ⟨node, others, rfl, framed, a, _, rfl, sameLeft, b, _, rfl, sameFlag, d, _, rfl,
    sameRight, rfl⟩ := framed_of_plainNode registered varies
  obtain rfl : b = .bool computed := registered.varies rfl sameFlag
  obtain ⟨leftNode, leftTree, readLeft⟩ := first (registered.varies rfl sameLeft)
  obtain ⟨rightNode, rightTree, readRight⟩ := second (registered.varies rfl sameRight)
  obtain ⟨lessLeft, runLeft⟩ := readLeft.child framed (by decide : "object" ∉ frameKeys) rfl
  obtain ⟨lessRight, runRight⟩ := readRight.child framed (by decide : "property" ∉ frameKeys) rfl
  refine ⟨node, .member (Decode.linesOf node) leftTree rightTree computed, rfl, framed.isNode,
    ?_, ⟨_, leftTree, rightTree, rfl, readLeft.edited, readRight.edited⟩, ?_⟩
  · rw [Decode.expression]
    simp only [framed.kind_eq, runLeft, readLeft.read, runRight, readRight.read, Decode.ok_bind,
      Decode.flagField, framed.field (by decide : "computed" ∉ frameKeys) rfl]
    rfl
  · rw [framed.trim (by simp [frameKeys])]
    simp only [mapNodesFields_trim_cons, readLeft.trimmed, readRight.trimmed]
    rfl

end Operands

section Lists

variable {allows : Allowance} {lines : LineIndex} {place : Place} {list : List (Expr Place)}

theorem readList_of_varies (members : ∀ e ∈ list, e.Decodes allows lines) {values : List Value}
    (varies : VariesItems allows (Expr.encodeList lines list) values) :
    ∃ nodes trees, ReadAll Decode.expression (Expr.Edited allows) (Expr.outline false) list values
      nodes trees := by
  rw [Expr.encodeList_eq_map] at varies
  exact readAll_of_varies members varies

variable (registered : allows.Registered)

include registered

theorem decodes_sequence (members : ∀ e ∈ list, e.Decodes allows lines) :
    (Expr.sequence place list).Decodes allows lines := by
  intro value varies
  obtain ⟨node, others, rfl, framed, a, _, rfl, same, rfl⟩ := framed_of_plainNode registered varies
  obtain ⟨values, rfl, items⟩ := registered.varies rfl same
  obtain ⟨nodes, trees, reads⟩ := readList_of_varies members items
  obtain ⟨inners, run, -, runs⟩ := reads.children framed (by decide : "expressions" ∉ frameKeys) rfl
  refine ⟨node, .sequence (Decode.linesOf node) trees, rfl, framed.isNode, ?_,
    ⟨_, trees, rfl, Expr.editedList_iff.mpr reads.edited⟩, ?_⟩
  · rw [Decode.expression]
    simp only [framed.kind_eq, run, runs, Decode.ok_bind]
    rfl
  · rw [framed.trim (by simp [frameKeys])]
    simp only [mapNodesFields_trim_cons, reads.trim_list, Expr.outline, Expr.outlineList_eq_map]
    rfl

theorem decodes_call {callee : Expr Place} (first : callee.Decodes allows lines)
    (members : ∀ e ∈ list, e.Decodes allows lines) :
    (Expr.call place callee list).Decodes allows lines := by
  intro value varies
  obtain ⟨node, others, rfl, framed, a, _, rfl, sameCallee, b, _, rfl, same, rfl⟩ :=
    framed_of_plainNode registered varies
  obtain ⟨values, rfl, items⟩ := registered.varies rfl same
  obtain ⟨inner, tree, read⟩ := first (registered.varies rfl sameCallee)
  obtain ⟨nodes, trees, reads⟩ := readList_of_varies members items
  obtain ⟨less, runCallee⟩ := read.child framed (by decide : "callee" ∉ frameKeys) rfl
  obtain ⟨inners, run, -, runs⟩ := reads.children framed (by decide : "arguments" ∉ frameKeys) rfl
  refine ⟨node, .call (Decode.linesOf node) tree trees, rfl, framed.isNode, ?_,
    ⟨_, tree, trees, rfl, read.edited, Expr.editedList_iff.mpr reads.edited⟩, ?_⟩
  · rw [Decode.expression]
    simp only [framed.kind_eq, runCallee, read.read, run, runs, Decode.ok_bind]
    rfl
  · rw [framed.trim (by simp [frameKeys])]
    simp only [mapNodesFields_trim_cons, read.trimmed, reads.trim_list, Expr.outline,
      Expr.outlineList_eq_map]
    rfl

end Lists

section Elements

variable {allows : Allowance} {lines : LineIndex} {place : Place}
  {elements : List (Option (Expr Place))} {node : Fields}

def readElement (node : Fields) (item : { item : Value // sizeOf item < sizeOf node }) :
    Except CompileError (Option (Expr Lines)) :=
  match item.1 with
  | .null => pure none
  | other =>
    match Decode.innerOf item with
    | some inner => some <$> Decode.expression inner.1
    | none => throw (Decode.invalid node "elements" .nodes other)

theorem readElement_eq_some {item : { item : Value // sizeOf item < sizeOf node }} {e : Expr Place}
    {inner : Fields} {tree : Expr Lines} (read : ReadExpr allows e item.1 inner tree) :
    readElement node item = .ok (some tree) := by
  obtain ⟨less, found⟩ := Decode.innerOf_eq_some read.shape read.isNode
  unfold readElement
  split
  · rename_i null
    simp [read.shape] at null
  · simp only [found, read.read]
    rfl

theorem readElements_of_varies (members : ∀ e, some e ∈ elements → e.Decodes allows lines)
    {values : List Value} (varies : VariesItems allows (Expr.encodeElements lines elements) values)
    {items : List { item : Value // sizeOf item < sizeOf node }}
    (same : items.map Subtype.val = values) :
    ∃ trees, items.mapM (readElement node) = .ok trees ∧
      Expr.EditedElements allows elements trees ∧
      values.map (Value.trim false) = Expr.outlineElements false trees := by
  induction elements generalizing values items with
  | nil =>
    rw [Expr.encodeElements, VariesItems] at varies
    rw [varies, List.map_eq_nil_iff] at same
    subst same
    exact ⟨[], rfl, rfl, by rw [varies]; rfl⟩
  | cons entry rest ih =>
    have behind : ∀ e, some e ∈ rest → e.Decodes allows lines := fun e member =>
      members e (List.mem_cons_of_mem entry member)
    cases entry with
    | none =>
      obtain ⟨value, more, rfl, one, others⟩ := varies
      obtain ⟨item, tail, rfl, null, rfl⟩ := List.map_eq_cons_iff.mp same
      obtain ⟨trees, runs, edited, trimmed⟩ := ih behind others rfl
      obtain rfl : value = .null := one
      refine ⟨none :: trees, ?_, ⟨trees, rfl, edited⟩, ?_⟩
      · have run : readElement node item = .ok none := by simp only [readElement, null]; rfl
        rw [List.mapM_cons, run, runs]
        rfl
      · rw [List.map_cons, trimmed]
        rfl
    | some e =>
      obtain ⟨value, more, rfl, one, others⟩ := varies
      obtain ⟨item, tail, rfl, rfl, rfl⟩ := List.map_eq_cons_iff.mp same
      obtain ⟨trees, runs, edited, trimmed⟩ := ih behind others rfl
      obtain ⟨inner, tree, read⟩ := members e List.mem_cons_self one
      refine ⟨some tree :: trees, ?_, ⟨tree, trees, rfl, read.edited, edited⟩, ?_⟩
      · rw [List.mapM_cons, readElement_eq_some read, runs]
        rfl
      · rw [List.map_cons, trimmed, read.trimmed, Expr.outlineElements]

theorem decodes_array (registered : allows.Registered)
    (members : ∀ e, some e ∈ elements → e.Decodes allows lines) :
    (Expr.array place elements).Decodes allows lines := by
  intro value varies
  obtain ⟨node, others, rfl, framed, a, _, rfl, same, rfl⟩ := framed_of_plainNode registered varies
  obtain ⟨values, rfl, inside⟩ := registered.varies rfl same
  obtain ⟨items, run, vals⟩ :=
    Decode.itemsField_eq_ok (framed.field (by decide : "elements" ∉ frameKeys) rfl)
  obtain ⟨trees, runs, edited, trimmed⟩ := readElements_of_varies members inside vals
  refine ⟨node, .array (Decode.linesOf node) trees, rfl, framed.isNode, ?_,
    ⟨_, trees, rfl, edited⟩, ?_⟩
  · rw [Decode.expression]
    simp only [framed.kind_eq, run, Decode.ok_bind]
    change (items.mapM (readElement node) >>= fun trees =>
      pure (Expr.array (Decode.linesOf node) trees)) = _
    rw [runs]
    rfl
  · rw [framed.trim (by simp [frameKeys]), Expr.outline, ← trimmed]
    simp only [Value.mapNodesFields, Value.mapNodes, Value.mapNodesItems_eq_map]
    rfl

end Elements

/-- However an encoded expression varies in registered fields, it is read as an edited one. -/
theorem Expr.decodes {allows : Allowance} (registered : allows.Registered) (lines : LineIndex)
    (e : Expr Place) : e.Decodes allows lines := by
  induction e using Expr.induct with
  | name => exact decodes_name registered
  | number => exact decodes_number registered
  | string => exact decodes_string registered
  | boolean => exact decodes_boolean registered
  | null => exact decodes_null registered
  | array _ _ ih => exact decodes_array registered ih
  | binary _ _ _ _ first second => exact decodes_binary registered first second
  | unary _ _ _ ih => exact decodes_unary registered ih
  | update _ _ _ _ ih => exact decodes_update registered ih
  | assignment _ _ _ _ first second => exact decodes_assignment registered first second
  | conditional _ _ _ _ test first second => exact decodes_conditional registered test first second
  | sequence _ _ ih => exact decodes_sequence registered ih
  | call _ _ _ first ih => exact decodes_call registered first ih
  | member _ _ _ _ first second => exact decodes_member registered first second

end Arborist.Script

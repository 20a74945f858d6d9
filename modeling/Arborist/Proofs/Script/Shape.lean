import Mathlib
import Arborist.Proofs.Script.EditedRoundTrip

/-!
Trees that were not read from a text. A node counts as one of the grammar when the fields that the
grammar gives to its kind hold what belongs there: further fields and the order of the fields do not
matter, and a field that has a default may be missing. From such a tree a script tree is read.
-/

namespace Arborist

namespace Fields

def valueOr (node : Fields) (key : String) (default : Value) : Value :=
  match node.get? key with
  | none => default
  | some .null => default
  | some value => value

theorem get?_of_valueOr {node : Fields} {key : String} {default value : Value}
    (held : node.valueOr key default = value) (other : default ≠ value) :
    node.get? key = some value := by
  unfold valueOr at held
  split at held
  · exact absurd held other
  · exact absurd held other
  · rename_i found
    rw [found, held]

theorem valueOr_null {node : Fields} {key : String} {value : Value}
    (found : node.get? key = some value) : node.valueOr key .null = value := by
  unfold valueOr
  rw [found]
  cases value <;> rfl

theorem isNode_of_kind {node : Fields} {kind : String} (same : node.kind = kind)
    (named : kind ≠ "") : node.isNode = true := by
  subst same
  unfold Fields.kind at named
  split at named
  · rename_i found
    simp [isNode, contains, found]
  · exact absurd rfl named

end Fields

namespace Script

/-- The kinds of nodes of the grammar with their fields, each with its default. -/
def grammar : List (String × Fields) :=
  [("Identifier", [("name", .null)]),
    ("NumericLiteral", [("value", .null)]),
    ("StringLiteral", [("value", .null)]),
    ("BooleanLiteral", [("value", .null)]),
    ("NullLiteral", []),
    ("ArrayExpression", [("elements", .null)]),
    ("BinaryExpression", [("left", .null), ("operator", .null), ("right", .null)]),
    ("LogicalExpression", [("left", .null), ("operator", .null), ("right", .null)]),
    ("UnaryExpression", [("operator", .null), ("prefix", .bool true), ("argument", .null)]),
    ("UpdateExpression", [("operator", .null), ("prefix", .bool false), ("argument", .null)]),
    ("AssignmentExpression", [("operator", .null), ("left", .null), ("right", .null)]),
    ("ConditionalExpression", [("test", .null), ("consequent", .null), ("alternate", .null)]),
    ("SequenceExpression", [("expressions", .null)]),
    ("CallExpression", [("callee", .null), ("arguments", .null)]),
    ("MemberExpression", [("object", .null), ("computed", .bool false), ("property", .null)]),
    ("VariableDeclarator", [("id", .null), ("init", .null)]),
    ("VariableDeclaration", [("declarations", .null), ("kind", .null)]),
    ("FunctionDeclaration", [("id", .null), ("generator", .bool false), ("async", .bool false),
      ("params", .null), ("body", .null)]),
    ("BlockStatement", [("body", .null), ("directives", .list [])]),
    ("ReturnStatement", [("argument", .null)]),
    ("ExpressionStatement", [("expression", .null)]),
    ("IfStatement", [("test", .null), ("consequent", .null), ("alternate", .null)]),
    ("EmptyStatement", []),
    ("Program", [("sourceType", .string "script"), ("interpreter", .null), ("body", .null),
      ("directives", .list [])])]

def grammarFields (kind : String) : Fields := (grammar.lookup kind).getD []

end Script

/-- The node with the fields of the grammar only, in the order of the grammar. -/
def Fields.shaped (node : Fields) : Fields :=
  ("type", .string node.kind) ::
    (Script.grammarFields node.kind).map fun field => (field.1, node.valueOr field.1 field.2)

namespace Value

def shaped (value : Value) : Value := value.mapNodes Fields.shaped

theorem get?_mapNodesFields (f : Fields → Fields) (node : Fields) (key : String) :
    Fields.get? (mapNodesFields f node) key = (node.get? key).map (mapNodes f) := by
  induction node with
  | nil => rfl
  | cons entry rest ih =>
    rw [mapNodesFields, Fields.get?_cons, Fields.get?_cons]
    split
    · rfl
    · exact ih

theorem kind_mapNodesFields (f : Fields → Fields) (node : Fields) :
    Fields.kind (mapNodesFields f node) = node.kind := by
  unfold Fields.kind
  rw [get?_mapNodesFields]
  cases found : node.get? "type" with
  | none => rfl
  | some value => cases value <;> rfl

theorem valueOr_mapNodesFields {f : Fields → Fields} {default : Value}
    (fixed : default.mapNodes f = default) (node : Fields) (key : String) :
    Fields.valueOr (mapNodesFields f node) key default = (node.valueOr key default).mapNodes f := by
  unfold Fields.valueOr
  rw [get?_mapNodesFields]
  cases node.get? key with
  | none => exact fixed.symm
  | some value =>
    cases value with
    | null => exact fixed.symm
    | _ => rfl

end Value

namespace Script

theorem shaped_default (kind : String) :
    ∀ field ∈ grammarFields kind, field.2.mapNodes Fields.shaped = field.2 := by
  have all : ∀ entry ∈ grammar, ∀ field ∈ entry.2, field.2.mapNodes Fields.shaped = field.2 := by
    simp only [grammar, List.forall_mem_cons, List.not_mem_nil, false_implies, implies_true,
      Value.mapNodes, Value.mapNodesItems, and_self]
  unfold grammarFields
  cases found : grammar.lookup kind with
  | none => simp
  | some fields =>
    obtain ⟨front, rest, split, -⟩ := List.lookup_eq_some_iff.mp found
    exact all (kind, fields) (by simp [split])

theorem named_of_lookup {kind : String} {fields : Fields}
    (own : grammar.lookup kind = some fields) : kind ≠ "" := by
  rintro rfl
  cases own

theorem shaped_node {node : Fields} {kind : String} {fields : Fields} (same : node.kind = kind)
    (own : grammar.lookup kind = some fields) :
    (Value.object node).shaped = outlineNode kind
      (fields.map fun field => (field.1, (node.valueOr field.1 field.2).shaped)) := by
  have isNode := Fields.isNode_of_kind same (named_of_lookup own)
  have shape : grammarFields kind = fields := by rw [grammarFields, own, Option.getD_some]
  rw [Value.shaped, Value.mapNodes, if_pos isNode, Fields.shaped, Value.kind_mapNodesFields, same,
    shape, outlineNode]
  congr 2
  refine List.map_congr_left fun field member => ?_
  rw [Value.valueOr_mapNodesFields (shaped_default kind field (shape ▸ member)), Value.shaped]

structure Names (node : Fields) (text : String) : Prop where
  kind : node.kind = "Identifier"
  name : node.valueOr "name" .null = .string text
  word : IsWord text

def IsBinding (node : Fields) : Prop := ∃ text, Names node text ∧ isReserved text = false

/-- Nodes that are expressions of the grammar: literals without a recorded spelling, finite numbers,
arrays without holes, sequences of at least two parts, and names or members on the left of
assignments. -/
inductive IsExpression : Fields → Prop where
  | name {node : Fields} (binding : IsBinding node) : IsExpression node
  | number {node : Fields} {value : Number} (kind : node.kind = "NumericLiteral")
      (held : node.valueOr "value" .null = .number value) (finite : value.isFinite = true)
      (plain : node.get? "extra" = none) : IsExpression node
  | string {node : Fields} {text : String} (kind : node.kind = "StringLiteral")
      (held : node.valueOr "value" .null = .string text) (plain : node.get? "extra" = none) :
      IsExpression node
  | boolean {node : Fields} {flag : Bool} (kind : node.kind = "BooleanLiteral")
      (held : node.valueOr "value" .null = .bool flag) : IsExpression node
  | null {node : Fields} (kind : node.kind = "NullLiteral") : IsExpression node
  | array {node : Fields} {list : List Fields} (kind : node.kind = "ArrayExpression")
      (held : node.valueOr "elements" .null = .list (list.map .object))
      (members : ∀ e ∈ list, IsExpression e) : IsExpression node
  | binary {node left right : Fields} {operator : BinaryOperator}
      (kind : node.kind = if operator.isLogical then "LogicalExpression" else "BinaryExpression")
      (mark : node.valueOr "operator" .null = .string operator.text)
      (hasLeft : node.valueOr "left" .null = .object left)
      (hasRight : node.valueOr "right" .null = .object right) (first : IsExpression left)
      (second : IsExpression right) : IsExpression node
  | unary {node argument : Fields} {operator : UnaryOperator} (kind : node.kind = "UnaryExpression")
      (mark : node.valueOr "operator" .null = .string operator.text)
      (before : node.valueOr "prefix" (.bool true) = .bool true)
      (hasArgument : node.valueOr "argument" .null = .object argument)
      (inner : IsExpression argument) : IsExpression node
  | update {node argument : Fields} {operator : UpdateOperator} {before : Bool}
      (kind : node.kind = "UpdateExpression")
      (mark : node.valueOr "operator" .null = .string operator.text)
      (flag : node.valueOr "prefix" (.bool false) = .bool before)
      (hasArgument : node.valueOr "argument" .null = .object argument)
      (inner : IsExpression argument) : IsExpression node
  | assignment {node left right : Fields} {operator : AssignmentOperator}
      (kind : node.kind = "AssignmentExpression")
      (mark : node.valueOr "operator" .null = .string operator.text)
      (hasLeft : node.valueOr "left" .null = .object left)
      (hasRight : node.valueOr "right" .null = .object right)
      (target : left.kind ∈ ["Identifier", "MemberExpression"]) (first : IsExpression left)
      (second : IsExpression right) : IsExpression node
  | conditional {node test consequent alternate : Fields}
      (kind : node.kind = "ConditionalExpression")
      (hasTest : node.valueOr "test" .null = .object test)
      (hasConsequent : node.valueOr "consequent" .null = .object consequent)
      (hasAlternate : node.valueOr "alternate" .null = .object alternate)
      (condition : IsExpression test) (positive : IsExpression consequent)
      (negative : IsExpression alternate) : IsExpression node
  | sequence {node : Fields} {list : List Fields} (kind : node.kind = "SequenceExpression")
      (held : node.valueOr "expressions" .null = .list (list.map .object)) (some : 2 ≤ list.length)
      (members : ∀ e ∈ list, IsExpression e) : IsExpression node
  | call {node callee : Fields} {list : List Fields} (kind : node.kind = "CallExpression")
      (hasCallee : node.valueOr "callee" .null = .object callee)
      (held : node.valueOr "arguments" .null = .list (list.map .object))
      (inner : IsExpression callee) (members : ∀ e ∈ list, IsExpression e) : IsExpression node
  | dot {node object property : Fields} {text : String} (kind : node.kind = "MemberExpression")
      (hasObject : node.valueOr "object" .null = .object object)
      (flag : node.valueOr "computed" (.bool false) = .bool false)
      (hasProperty : node.valueOr "property" .null = .object property)
      (inner : IsExpression object) (names : Names property text) : IsExpression node
  | bracket {node object property : Fields} (kind : node.kind = "MemberExpression")
      (hasObject : node.valueOr "object" .null = .object object)
      (flag : node.valueOr "computed" (.bool false) = .bool true)
      (hasProperty : node.valueOr "property" .null = .object property)
      (inner : IsExpression object) (index : IsExpression property) : IsExpression node

inductive IsDeclarator : Fields → Prop where
  | plain {node id : Fields} (kind : node.kind = "VariableDeclarator")
      (hasId : node.valueOr "id" .null = .object id) (binding : IsBinding id)
      (bare : node.valueOr "init" .null = .null) : IsDeclarator node
  | initial {node id value : Fields} (kind : node.kind = "VariableDeclarator")
      (hasId : node.valueOr "id" .null = .object id) (binding : IsBinding id)
      (hasValue : node.valueOr "init" .null = .object value) (inner : IsExpression value) :
      IsDeclarator node

structure Braces (node : Fields) (list : List Fields) : Prop where
  kind : node.kind = "BlockStatement"
  body : node.valueOr "body" .null = .list (list.map .object)
  directives : node.valueOr "directives" (.list []) = .list []

inductive IsStatement : Fields → Prop where
  | declaration {node : Fields} {word : DeclarationKind} {list : List Fields}
      (kind : node.kind = "VariableDeclaration")
      (mark : node.valueOr "kind" .null = .string word.text)
      (held : node.valueOr "declarations" .null = .list (list.map .object)) (some : list ≠ [])
      (members : ∀ d ∈ list, IsDeclarator d) : IsStatement node
  | function {node id block : Fields} {parameters list : List Fields} {isAsync isGenerator : Bool}
      (kind : node.kind = "FunctionDeclaration")
      (async : node.valueOr "async" (.bool false) = .bool isAsync)
      (generator : node.valueOr "generator" (.bool false) = .bool isGenerator)
      (hasId : node.valueOr "id" .null = .object id) (binding : IsBinding id)
      (held : node.valueOr "params" .null = .list (parameters.map .object))
      (bindings : ∀ p ∈ parameters, IsBinding p)
      (hasBody : node.valueOr "body" .null = .object block) (braces : Braces block list)
      (members : ∀ s ∈ list, IsStatement s) : IsStatement node
  | block {node : Fields} {list : List Fields} (braces : Braces node list)
      (members : ∀ s ∈ list, IsStatement s) : IsStatement node
  | leave {node : Fields} (kind : node.kind = "ReturnStatement")
      (bare : node.valueOr "argument" .null = .null) : IsStatement node
  | ret {node argument : Fields} (kind : node.kind = "ReturnStatement")
      (hasArgument : node.valueOr "argument" .null = .object argument)
      (inner : IsExpression argument) : IsStatement node
  | expression {node body : Fields} (kind : node.kind = "ExpressionStatement")
      (hasBody : node.valueOr "expression" .null = .object body) (inner : IsExpression body) :
      IsStatement node
  | branch {node test consequent : Fields} (kind : node.kind = "IfStatement")
      (hasTest : node.valueOr "test" .null = .object test)
      (hasConsequent : node.valueOr "consequent" .null = .object consequent)
      (bare : node.valueOr "alternate" .null = .null) (condition : IsExpression test)
      (positive : IsStatement consequent) : IsStatement node
  | choice {node test consequent alternate : Fields} (kind : node.kind = "IfStatement")
      (hasTest : node.valueOr "test" .null = .object test)
      (hasConsequent : node.valueOr "consequent" .null = .object consequent)
      (hasAlternate : node.valueOr "alternate" .null = .object alternate)
      (condition : IsExpression test) (positive : IsStatement consequent)
      (negative : IsStatement alternate) : IsStatement node
  | empty {node : Fields} (kind : node.kind = "EmptyStatement") : IsStatement node

structure IsProgram (node : Fields) : Prop where
  kind : node.kind = "Program"
  sourceType : node.valueOr "sourceType" (.string "script") = .string "script"
  interpreter : node.valueOr "interpreter" .null = .null
  directives : node.valueOr "directives" (.list []) = .list []
  body : ∃ list : List Fields, node.valueOr "body" .null = .list (list.map .object) ∧
    ∀ s ∈ list, IsStatement s

end Script

end Arborist

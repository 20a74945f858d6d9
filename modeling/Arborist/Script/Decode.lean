import Arborist.Script.Printer
import Arborist.Value.Basic

/-!
From a tree of values to a script tree that can be written. Every field is checked when it is
reached, in the order in which the text is written, so of several faults the first in that order is
reported. Fields that do not bear on the text are never looked at. A node is taken apart only into
nodes that lie inside it, which is why the reading ends.
-/

namespace Arborist.Script

inductive Wanted where
  | node | nodes | list | string | boolean | number | block | declarationKind
  deriving DecidableEq, Repr

namespace Wanted

def text : Wanted → String
  | .node => "a node"
  | .nodes => "a list of nodes"
  | .list => "a list"
  | .string => "a string"
  | .boolean => "a boolean"
  | .number => "a number"
  | .block => "a block"
  | .declarationKind => "one of var, let, const"

end Wanted

inductive CompileError where
  | unsupportedNode (kind : String)
  | missingField (kind field : String)
  | invalidField (kind field : String) (wanted : Wanted) (found : String)
  | unknownOperator (kind operator : String)
  deriving DecidableEq, Repr

namespace CompileError

def message : CompileError → String
  | .unsupportedNode kind => "Unsupported node type '" ++ kind ++ "'"
  | .missingField kind field => kind ++ " is missing required field '" ++ field ++ "'"
  | .invalidField kind field wanted found =>
    kind ++ "." ++ field ++ " must be " ++ wanted.text ++ ", got " ++ found
  | .unknownOperator kind operator => kind ++ " does not support operator '" ++ operator ++ "'"

end CompileError

namespace Decode

theorem sizeOf_get? {fields : Fields} {key : String} {value : Value}
    (h : fields.get? key = some value) : sizeOf value < sizeOf fields := by
  induction fields with
  | nil => simp [Fields.get?] at h
  | cons entry rest ih =>
    obtain ⟨k, v⟩ := entry
    simp only [Fields.get?, List.lookup_cons] at h
    split at h
    · simp only [Option.some.injEq] at h
      subst h
      simp +arith
    · have := ih h
      simp +arith
      omega

theorem sizeOf_asNode? {value : Value} {node : Fields} (h : value.asNode? = some node) :
    sizeOf node < sizeOf value := by
  cases value with
  | object fields =>
    simp only [Value.asNode?] at h
    split at h
    · simp only [Option.some.injEq] at h
      subst h
      simp +arith
    · simp at h
  | _ => simp [Value.asNode?] at h

theorem sizeOf_asList? {value : Value} {items : List Value} (h : value.asList? = some items) :
    sizeOf items < sizeOf value := by
  cases value with
  | list _ =>
    simp only [Value.asList?, Option.some.injEq] at h
    subst h
    simp +arith
  | _ => simp [Value.asList?] at h

abbrev Inner (node : Fields) := { inner : Fields // sizeOf inner < sizeOf node }

def missing (node : Fields) (field : String) : CompileError := .missingField node.kind field

def invalid (node : Fields) (field : String) (wanted : Wanted) (found : Value) : CompileError :=
  .invalidField node.kind field wanted found.shape

def required (node : Fields) (field : String) : Except CompileError Value :=
  match node.get? field with
  | none => .error (missing node field)
  | some value => .ok value

def child (node : Fields) (field : String) : Except CompileError (Inner node) :=
  match h : node.get? field with
  | none => .error (missing node field)
  | some .null => .error (missing node field)
  | some value =>
    match k : value.asNode? with
    | none => .error (invalid node field .node value)
    | some inner => .ok ⟨inner, Nat.lt_trans (sizeOf_asNode? k) (sizeOf_get? h)⟩

def optionalChild (node : Fields) (field : String) :
    Except CompileError (Option (Inner node)) :=
  match node.get? field with
  | none => .ok none
  | some .null => .ok none
  | some _ => (child node field).map some

def children (node : Fields) (field : String) : Except CompileError (List (Inner node)) :=
  match h : node.get? field with
  | none => .error (missing node field)
  | some value =>
    match k : value.asList? with
    | none => .error (invalid node field .nodes value)
    | some items => items.attach.mapM fun ⟨item, mem⟩ =>
      match l : item.asNode? with
      | none => .error (invalid node field .nodes item)
      | some inner => .ok ⟨inner,
          Nat.lt_trans (sizeOf_asNode? l) (Nat.lt_trans (List.sizeOf_lt_of_mem mem)
            (Nat.lt_trans (sizeOf_asList? k) (sizeOf_get? h)))⟩

def itemsField (node : Fields) (field : String) :
    Except CompileError (List { item : Value // sizeOf item < sizeOf node }) :=
  match h : node.get? field with
  | none => .error (missing node field)
  | some value =>
    match k : value.asList? with
    | none => .error (invalid node field .list value)
    | some items => .ok (items.attach.map fun ⟨item, mem⟩ => ⟨item,
        Nat.lt_trans (List.sizeOf_lt_of_mem mem)
          (Nat.lt_trans (sizeOf_asList? k) (sizeOf_get? h))⟩)

def innerOf {node : Fields} (item : { item : Value // sizeOf item < sizeOf node }) :
    Option (Inner node) :=
  match h : item.1.asNode? with
  | none => none
  | some inner => some ⟨inner, Nat.lt_trans (sizeOf_asNode? h) item.2⟩

def stringField (node : Fields) (field : String) : Except CompileError String :=
  match node.get? field with
  | none => .error (missing node field)
  | some (.string s) => .ok s
  | some value => .error (invalid node field .string value)

def flagField (node : Fields) (field : String) : Except CompileError Bool :=
  match node.get? field with
  | none => .ok false
  | some .null => .ok false
  | some (.bool b) => .ok b
  | some value => .error (invalid node field .boolean value)

def operatorField {α : Type} (node : Fields) (ofText? : String → Option α) :
    Except CompileError α := do
  let text ← stringField node "operator"
  match ofText? text with
  | some operator => return operator
  | none => throw (.unknownOperator node.kind text)

def binaryOperator? (logical : Bool) (s : String) : Option BinaryOperator :=
  match BinaryOperator.ofText? s with
  | some operator => if operator.isLogical = logical then some operator else none
  | none => none

def lineAt (node : Fields) (edge : String) : Option Number :=
  match node.get? "loc" with
  | some (.object loc) =>
    match Fields.get? loc edge with
    | some (.object point) => (Fields.get? point "line").bind Value.asNumber?
    | _ => none
  | _ => none

def linesOf (node : Fields) : Lines := ⟨lineAt node "start", lineAt node "end"⟩

/-- The recorded spelling of a literal, while the value recorded with it `holds`. -/
def spelling? (node : Fields) (holds : Value → Bool) : Option String :=
  match node.get? "extra" with
  | some (.object extra) =>
    match Fields.get? extra "rawValue" with
    | some value =>
      if holds value then (Fields.get? extra "raw").bind Value.asString? else none
    | none => none
  | _ => none

def numberSpelling? (node : Fields) (n : Number) : Option String :=
  spelling? node fun value =>
    match value with
    | .number m => m.agrees n
    | _ => false

def stringSpelling? (node : Fields) (s : String) : Option String :=
  spelling? node fun value =>
    match value with
    | .string t => t == s
    | _ => false

def expression (node : Fields) : Except CompileError (Expr Lines) := do
  let note := linesOf node
  match node.kind with
  | "Identifier" => return .name note (← stringField node "name")
  | "NumericLiteral" =>
    match ← required node "value" with
    | .number n => return .number note n (numberSpelling? node n)
    | other => throw (invalid node "value" .number other)
  | "StringLiteral" =>
    match ← required node "value" with
    | .string s => return .string note s (stringSpelling? node s)
    | other => throw (invalid node "value" .string other)
  | "BooleanLiteral" =>
    match ← required node "value" with
    | .bool b => return .boolean note b
    | other => throw (invalid node "value" .boolean other)
  | "NullLiteral" => return .null note
  | "BinaryExpression" =>
    let operator ← operatorField node (binaryOperator? false)
    let left ← child node "left"
    let leftTree ← expression left.1
    let right ← child node "right"
    return .binary note operator leftTree (← expression right.1)
  | "LogicalExpression" =>
    let operator ← operatorField node (binaryOperator? true)
    let left ← child node "left"
    let leftTree ← expression left.1
    let right ← child node "right"
    return .binary note operator leftTree (← expression right.1)
  | "UnaryExpression" =>
    let operator ← operatorField node UnaryOperator.ofText?
    let argument ← child node "argument"
    return .unary note operator (← expression argument.1)
  | "UpdateExpression" =>
    let operator ← operatorField node UpdateOperator.ofText?
    let argument ← child node "argument"
    let tree ← expression argument.1
    return .update note operator (← flagField node "prefix") tree
  | "AssignmentExpression" =>
    let operator ← operatorField node AssignmentOperator.ofText?
    let target ← child node "left"
    let targetTree ← expression target.1
    let value ← child node "right"
    return .assignment note operator targetTree (← expression value.1)
  | "ConditionalExpression" =>
    let test ← child node "test"
    let testTree ← expression test.1
    let consequent ← child node "consequent"
    let consequentTree ← expression consequent.1
    let alternate ← child node "alternate"
    return .conditional note testTree consequentTree (← expression alternate.1)
  | "SequenceExpression" =>
    let parts ← children node "expressions"
    return .sequence note (← parts.mapM fun part => expression part.1)
  | "CallExpression" =>
    let callee ← child node "callee"
    let calleeTree ← expression callee.1
    let arguments ← children node "arguments"
    return .call note calleeTree (← arguments.mapM fun argument => expression argument.1)
  | "MemberExpression" =>
    let object ← child node "object"
    let objectTree ← expression object.1
    let property ← child node "property"
    let computed ← flagField node "computed"
    return .member note objectTree (← expression property.1) computed
  | "ArrayExpression" =>
    let items ← itemsField node "elements"
    let elements ← items.mapM fun item =>
      match item.1 with
      | .null => pure none
      | other =>
        match innerOf item with
        | some inner => some <$> expression inner.1
        | none => throw (invalid node "elements" .nodes other)
    return .array note elements
  | kind => throw (.unsupportedNode kind)
termination_by sizeOf node
decreasing_by
  all_goals first
    | exact left.2
    | exact right.2
    | exact argument.2
    | exact target.2
    | exact value.2
    | exact test.2
    | exact consequent.2
    | exact alternate.2
    | exact part.2
    | exact callee.2
    | exact object.2
    | exact property.2
    | exact inner.2

def declarator (node : Fields) : Except CompileError (Declarator Lines) := do
  if node.kind = "VariableDeclarator" then
    let target ← expression (← child node "id").1
    match ← optionalChild node "init" with
    | some value => return ⟨linesOf node, target, some (← expression value.1)⟩
    | none => return ⟨linesOf node, target, none⟩
  else throw (.unsupportedNode node.kind)

def declaration (node : Fields) : Except CompileError (Stmt Lines) := do
  let text ← stringField node "kind"
  match DeclarationKind.ofText? text with
  | none => throw (.invalidField node.kind "kind" .declarationKind ("'" ++ text ++ "'"))
  | some kind =>
    let declarators ← children node "declarations"
    if declarators.isEmpty then throw (missing node "declarations")
    else
      return .declaration (linesOf node) kind (← declarators.mapM fun inner => declarator inner.1)

def functionHead (node : Fields) : Except CompileError (FunctionHead Lines) := do
  let isAsync ← flagField node "async"
  let isGenerator ← flagField node "generator"
  let name ← expression (← child node "id").1
  let parameters ← children node "params"
  return ⟨isAsync, isGenerator, name, ← parameters.mapM fun inner => expression inner.1⟩

def blockChildren (node : Fields) : Except CompileError (List (Inner node)) :=
  if node.kind = "BlockStatement" then children node "body"
  else .error (invalid node "body" .block (.object node))

def statement (node : Fields) : Except CompileError (Stmt Lines) := do
  let note := linesOf node
  match node.kind with
  | "VariableDeclaration" => declaration node
  | "FunctionDeclaration" =>
    let head ← functionHead node
    let block ← child node "body"
    let body ← blockChildren block.1
    return .function note head (linesOf block.1) (← body.mapM fun inner => statement inner.1)
  | "BlockStatement" =>
    let body ← blockChildren node
    return .block note (← body.mapM fun inner => statement inner.1)
  | "ReturnStatement" =>
    match ← optionalChild node "argument" with
    | some argument => return .ret note (some (← expression argument.1))
    | none => return .ret note none
  | "ExpressionStatement" =>
    let body ← child node "expression"
    return .expression note (← expression body.1)
  | "IfStatement" =>
    let test ← expression (← child node "test").1
    let consequent ← child node "consequent"
    let consequentTree ← statement consequent.1
    match ← optionalChild node "alternate" with
    | some alternate => return .branch note test consequentTree (some (← statement alternate.1))
    | none => return .branch note test consequentTree none
  | "EmptyStatement" => return .empty note
  | kind => throw (.unsupportedNode kind)
termination_by sizeOf node
decreasing_by
  all_goals first
    | exact Nat.lt_trans inner.2 block.2
    | exact inner.2
    | exact consequent.2
    | exact alternate.2

def body (program : Fields) : Except CompileError (List (Stmt Lines)) := do
  let statements ← children program "body"
  statements.mapM fun inner => statement inner.1

/-- The statements of a root: those of a program, of the program in a file, or the root itself. -/
def root (node : Fields) : Except CompileError (List (Stmt Lines)) := do
  match node.kind with
  | "File" => body (← child node "program").1
  | "Program" => body node
  | _ => return [← statement node]

end Decode

def compile (width : Nat) (root : Fields) : Except CompileError String :=
  (Decode.root root).map (programText width)

end Arborist.Script

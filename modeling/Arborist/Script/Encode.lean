import Arborist.Script.Cursor
import Arborist.Value.Basic

/-!
Placed script trees as values. A node becomes an object with its kind, its span, its location and
then its own fields; parentheses around an expression are recorded under `extra`, after the spelling
of a literal.
-/

namespace Arborist.Script

def natValue (n : Nat) : Value := .number (.ofNat n)

def textValue (s : String) : Value := .string s

def pointValue (lines : LineIndex) (offset : Nat) : Value :=
  let position := lines.position offset
  .object [("line", natValue position.line), ("column", natValue position.column),
    ("index", natValue offset)]

def nodeFields (lines : LineIndex) (kind : String) (span : Span) (fields : Fields) : Fields :=
  [("type", textValue kind), ("start", natValue span.start), ("end", natValue span.stop),
    ("loc", .object [("start", pointValue lines span.start), ("end", pointValue lines span.stop)])]
    ++ fields

def parenFields : Option Nat → Fields
  | none => []
  | some start => [("parenthesized", .bool true), ("parenStart", natValue start)]

def extraFields (entries : Fields) : Fields :=
  if entries.isEmpty then [] else [("extra", .object entries)]

def rawFields (value : Value) : Option String → Fields
  | none => []
  | some raw => [("rawValue", value), ("raw", textValue raw)]

def plainNode (lines : LineIndex) (kind : String) (place : Place) (fields : Fields) : Value :=
  .object (nodeFields lines kind place.span (fields ++ extraFields (parenFields place.paren)))

def literalNode (lines : LineIndex) (kind : String) (place : Place) (value : Value)
    (raw : Option String) : Value :=
  .object (nodeFields lines kind place.span
    (extraFields (rawFields value raw ++ parenFields place.paren) ++ [("value", value)]))

namespace Expr

mutual

def encode (lines : LineIndex) : Expr Place → Value
  | .name place text => plainNode lines "Identifier" place [("name", textValue text)]
  | .number place value raw => literalNode lines "NumericLiteral" place (.number value) raw
  | .string place value raw => literalNode lines "StringLiteral" place (.string value) raw
  | .boolean place value => plainNode lines "BooleanLiteral" place [("value", .bool value)]
  | .null place => plainNode lines "NullLiteral" place []
  | .array place elements =>
    plainNode lines "ArrayExpression" place [("elements", .list (encodeElements lines elements))]
  | .binary place operator left right =>
    plainNode lines (if operator.isLogical then "LogicalExpression" else "BinaryExpression") place
      [("left", left.encode lines), ("operator", textValue operator.text),
        ("right", right.encode lines)]
  | .unary place operator argument =>
    plainNode lines "UnaryExpression" place
      [("operator", textValue operator.text), ("prefix", .bool true),
        ("argument", argument.encode lines)]
  | .update place operator before argument =>
    plainNode lines "UpdateExpression" place
      [("operator", textValue operator.text), ("prefix", .bool before),
        ("argument", argument.encode lines)]
  | .assignment place operator target value =>
    plainNode lines "AssignmentExpression" place
      [("operator", textValue operator.text), ("left", target.encode lines),
        ("right", value.encode lines)]
  | .conditional place test consequent alternate =>
    plainNode lines "ConditionalExpression" place
      [("test", test.encode lines), ("consequent", consequent.encode lines),
        ("alternate", alternate.encode lines)]
  | .sequence place parts =>
    plainNode lines "SequenceExpression" place [("expressions", .list (encodeList lines parts))]
  | .call place callee arguments =>
    plainNode lines "CallExpression" place
      [("callee", callee.encode lines), ("arguments", .list (encodeList lines arguments))]
  | .member place object property computed =>
    plainNode lines "MemberExpression" place
      [("object", object.encode lines), ("computed", .bool computed),
        ("property", property.encode lines)]

def encodeList (lines : LineIndex) : List (Expr Place) → List Value
  | [] => []
  | e :: rest => e.encode lines :: encodeList lines rest

def encodeElements (lines : LineIndex) : List (Option (Expr Place)) → List Value
  | [] => []
  | none :: rest => .null :: encodeElements lines rest
  | some e :: rest => e.encode lines :: encodeElements lines rest

end

def encodeOption (lines : LineIndex) : Option (Expr Place) → Value
  | none => .null
  | some e => e.encode lines

end Expr

namespace Declarator

def encode (lines : LineIndex) (d : Declarator Place) : Value :=
  plainNode lines "VariableDeclarator" d.note
    [("id", d.target.encode lines), ("init", Expr.encodeOption lines d.value)]

end Declarator

def blockNode (lines : LineIndex) (place : Place) (body : List Value) : Value :=
  plainNode lines "BlockStatement" place [("body", .list body), ("directives", .list [])]

namespace Stmt

mutual

def encode (lines : LineIndex) : Stmt Place → Value
  | .declaration place kind declarators =>
    plainNode lines "VariableDeclaration" place
      [("declarations", .list (declarators.map (Declarator.encode lines))),
        ("kind", textValue kind.text)]
  | .function place head blockPlace body =>
    plainNode lines "FunctionDeclaration" place
      [("id", head.name.encode lines), ("generator", .bool head.isGenerator),
        ("async", .bool head.isAsync), ("params", .list (Expr.encodeList lines head.parameters)),
        ("body", blockNode lines blockPlace (encodeList lines body))]
  | .block place body => blockNode lines place (encodeList lines body)
  | .ret place argument =>
    plainNode lines "ReturnStatement" place [("argument", Expr.encodeOption lines argument)]
  | .expression place body =>
    plainNode lines "ExpressionStatement" place [("expression", body.encode lines)]
  | .branch place test consequent alternate =>
    plainNode lines "IfStatement" place
      [("test", test.encode lines), ("consequent", consequent.encode lines),
        ("alternate", encodeOption lines alternate)]
  | .empty place => plainNode lines "EmptyStatement" place []

def encodeList (lines : LineIndex) : List (Stmt Place) → List Value
  | [] => []
  | s :: rest => s.encode lines :: encodeList lines rest

def encodeOption (lines : LineIndex) : Option (Stmt Place) → Value
  | none => .null
  | some s => s.encode lines

end

end Stmt

def programFields (lines : LineIndex) (length : Nat) (body : List (Stmt Place)) : Fields :=
  nodeFields lines "Program" ⟨0, length⟩
    [("sourceType", textValue "script"), ("interpreter", .null),
      ("body", .list (Stmt.encodeList lines body)), ("directives", .list [])]

def fileFields (lines : LineIndex) (length : Nat) (body : List (Stmt Place)) : Fields :=
  nodeFields lines "File" ⟨0, length⟩
    [("program", .object (programFields lines length body)), ("comments", .list [])]

end Arborist.Script

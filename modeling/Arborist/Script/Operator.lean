import Arborist.Source.Mark

/-!
Operators of a script, each with its text. The precedence of a binary operator is its binding power:
a higher one binds tighter, and only `**` groups to the right.
-/

namespace Arborist.Script

inductive BinaryOperator where
  | comma | logicalOr | logicalAnd | bitOr | bitXor | bitAnd
  | equal | unequal | strictEqual | strictUnequal
  | less | greater | lessEqual | greaterEqual | member | instanceOf
  | shiftLeft | shiftRight | shiftRightZero
  | plus | minus | times | divide | remainder | power
  deriving DecidableEq, Repr

namespace BinaryOperator

def text : BinaryOperator → String
  | .comma => ","
  | .logicalOr => "||"
  | .logicalAnd => "&&"
  | .bitOr => "|"
  | .bitXor => "^"
  | .bitAnd => "&"
  | .equal => "=="
  | .unequal => "!="
  | .strictEqual => "==="
  | .strictUnequal => "!=="
  | .less => "<"
  | .greater => ">"
  | .lessEqual => "<="
  | .greaterEqual => ">="
  | .member => "in"
  | .instanceOf => "instanceof"
  | .shiftLeft => "<<"
  | .shiftRight => ">>"
  | .shiftRightZero => ">>>"
  | .plus => "+"
  | .minus => "-"
  | .times => "*"
  | .divide => "/"
  | .remainder => "%"
  | .power => "**"

def all : List BinaryOperator :=
  [.comma, .logicalOr, .logicalAnd, .bitOr, .bitXor, .bitAnd, .equal, .unequal, .strictEqual,
    .strictUnequal, .less, .greater, .lessEqual, .greaterEqual, .member, .instanceOf, .shiftLeft,
    .shiftRight, .shiftRightZero, .plus, .minus, .times, .divide, .remainder, .power]

def ofText? (s : String) : Option BinaryOperator := all.find? fun op => op.text == s

def precedence : BinaryOperator → Nat
  | .comma => 0
  | .logicalOr => 1
  | .logicalAnd => 2
  | .bitOr => 3
  | .bitXor => 4
  | .bitAnd => 5
  | .equal | .unequal | .strictEqual | .strictUnequal => 6
  | .less | .greater | .lessEqual | .greaterEqual | .member | .instanceOf => 7
  | .shiftLeft | .shiftRight | .shiftRightZero => 8
  | .plus | .minus => 9
  | .times | .divide | .remainder => 10
  | .power => 11

def isLogical : BinaryOperator → Bool
  | .logicalOr | .logicalAnd => true
  | _ => false

/-- The operator that a mark stands for between two operands. A comma there separates the parts of
a sequence and is none. -/
def ofMark? : Mark → Option BinaryOperator
  | .orOr => some .logicalOr
  | .andAnd => some .logicalAnd
  | .bitOr => some .bitOr
  | .bitXor => some .bitXor
  | .bitAnd => some .bitAnd
  | .equal => some .equal
  | .unequal => some .unequal
  | .strictEqual => some .strictEqual
  | .strictUnequal => some .strictUnequal
  | .less => some .less
  | .greater => some .greater
  | .lessEqual => some .lessEqual
  | .greaterEqual => some .greaterEqual
  | .shiftLeft => some .shiftLeft
  | .shiftRight => some .shiftRight
  | .shiftRightZero => some .shiftRightZero
  | .plus => some .plus
  | .minus => some .minus
  | .times => some .times
  | .divide => some .divide
  | .remainder => some .remainder
  | .power => some .power
  | _ => none

def ofWord? (name : String) : Option BinaryOperator :=
  if name = "in" then some .member
  else if name = "instanceof" then some .instanceOf
  else none

end BinaryOperator

inductive UnaryOperator where
  | minus | plus | not | complement | typeOf | void | delete
  deriving DecidableEq, Repr

namespace UnaryOperator

def text : UnaryOperator → String
  | .minus => "-"
  | .plus => "+"
  | .not => "!"
  | .complement => "~"
  | .typeOf => "typeof"
  | .void => "void"
  | .delete => "delete"

def all : List UnaryOperator := [.minus, .plus, .not, .complement, .typeOf, .void, .delete]

def ofText? (s : String) : Option UnaryOperator := all.find? fun op => op.text == s

def isWord : UnaryOperator → Bool
  | .typeOf | .void | .delete => true
  | _ => false

def isSign : UnaryOperator → Bool
  | .minus | .plus => true
  | _ => false

def ofMark? : Mark → Option UnaryOperator
  | .minus => some .minus
  | .plus => some .plus
  | .not => some .not
  | .complement => some .complement
  | _ => none

def ofWord? (name : String) : Option UnaryOperator :=
  if name = "typeof" then some .typeOf
  else if name = "void" then some .void
  else if name = "delete" then some .delete
  else none

end UnaryOperator

inductive UpdateOperator where
  | increment | decrement
  deriving DecidableEq, Repr

namespace UpdateOperator

def text : UpdateOperator → String
  | .increment => "++"
  | .decrement => "--"

def ofText? (s : String) : Option UpdateOperator :=
  [increment, decrement].find? fun op => op.text == s

def ofMark? : Mark → Option UpdateOperator
  | .plusPlus => some .increment
  | .minusMinus => some .decrement
  | _ => none

end UpdateOperator

inductive AssignmentOperator where
  | assign | plusAssign | minusAssign | timesAssign | divideAssign | remainderAssign
  deriving DecidableEq, Repr

namespace AssignmentOperator

def text : AssignmentOperator → String
  | .assign => "="
  | .plusAssign => "+="
  | .minusAssign => "-="
  | .timesAssign => "*="
  | .divideAssign => "/="
  | .remainderAssign => "%="

def all : List AssignmentOperator :=
  [.assign, .plusAssign, .minusAssign, .timesAssign, .divideAssign, .remainderAssign]

def ofText? (s : String) : Option AssignmentOperator := all.find? fun op => op.text == s

def ofMark? : Mark → Option AssignmentOperator
  | .assign => some .assign
  | .plusAssign => some .plusAssign
  | .minusAssign => some .minusAssign
  | .timesAssign => some .timesAssign
  | .divideAssign => some .divideAssign
  | .remainderAssign => some .remainderAssign
  | _ => none

end AssignmentOperator

inductive DeclarationKind where
  | asVar | asLet | asConst
  deriving DecidableEq, Repr

namespace DeclarationKind

def text : DeclarationKind → String
  | .asVar => "var"
  | .asLet => "let"
  | .asConst => "const"

def all : List DeclarationKind := [.asVar, .asLet, .asConst]

def ofText? (s : String) : Option DeclarationKind := all.find? fun k => k.text == s

end DeclarationKind

def reserved : List String :=
  ["var", "let", "const", "function", "return", "if", "else", "true", "false", "null", "typeof",
    "void", "delete", "in", "instanceof"]

def isReserved (name : String) : Bool := reserved.contains name

end Arborist.Script

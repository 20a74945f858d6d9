import Arborist.Script.Tree
import Arborist.Source.Token

/-!
The reading position in a list of tokens. There is always a current token: the end of the text is
never passed. A parser consumes tokens from the cursor or stops at the first one that does not fit.
-/

namespace Arborist.Script

structure Span where
  start : Nat
  stop : Nat
  deriving DecidableEq, Repr

/-- Where a node stands: the bytes from its first to its last token, and the offset of the
outermost parenthesis around it. -/
structure Place where
  span : Span
  paren : Option Nat
  deriving DecidableEq, Repr

inductive Expectation where
  | mark (m : Mark)
  | identifier
  | propertyName
  | expression
  | assignmentTarget
  | functionWord
  | declarationWord
  deriving DecidableEq, Repr

namespace Expectation

def text : Expectation → String
  | .mark m => "'" ++ m.text ++ "'"
  | .identifier => "an identifier"
  | .propertyName => "a property name"
  | .expression => "an expression"
  | .assignmentTarget => "an assignable target before the operator"
  | .functionWord => "'function'"
  | .declarationWord => "a declaration keyword"

end Expectation

structure Surprise where
  expected : Expectation
  found : Token
  deriving DecidableEq, Repr

structure Cursor where
  previousEnd : Nat
  current : Token
  rest : List Token
  deriving DecidableEq, Repr

namespace Cursor

def ofTokens : List Token → Cursor
  | [] => ⟨0, ⟨.finish, 0, 0, false⟩, []⟩
  | token :: rest => ⟨0, token, rest⟩

def advance (c : Cursor) : Cursor :=
  match c.rest with
  | [] => c
  | token :: rest => ⟨c.current.stop, token, rest⟩

def isMark (c : Cursor) (m : Mark) : Bool := c.current.kind == .mark m

def isWord (c : Cursor) (name : String) : Bool := c.current.kind == .word name

def atWord (c : Cursor) : Bool :=
  match c.current.kind with
  | .word _ => true
  | _ => false

def atEnd (c : Cursor) : Bool := c.current.kind == .finish

def declarationKind? (c : Cursor) : Option DeclarationKind :=
  match c.current.kind with
  | .word name => DeclarationKind.ofText? name
  | _ => none

/-- A function starts with `function`, or with `async` and `function` on one line. -/
def startsFunction (c : Cursor) : Bool :=
  c.isWord "function" ||
    (c.isWord "async" &&
      match c.rest with
      | [] => false
      | next :: _ => next.kind == .word "function" && !next.newlineBefore)

def binaryOperator? (c : Cursor) : Option BinaryOperator :=
  match c.current.kind with
  | .mark m => BinaryOperator.ofMark? m
  | .word name => BinaryOperator.ofWord? name
  | _ => none

def unaryOperator? (c : Cursor) : Option UnaryOperator :=
  match c.current.kind with
  | .mark m => UnaryOperator.ofMark? m
  | .word name => UnaryOperator.ofWord? name
  | _ => none

def updateOperator? (c : Cursor) : Option UpdateOperator :=
  match c.current.kind with
  | .mark m => UpdateOperator.ofMark? m
  | _ => none

def assignmentOperator? (c : Cursor) : Option AssignmentOperator :=
  match c.current.kind with
  | .mark m => AssignmentOperator.ofMark? m
  | _ => none

/-- A statement may end without a semicolon before a line feed, a closing brace or the end. -/
def endsStatement (c : Cursor) : Bool :=
  c.current.newlineBefore || c.atEnd || c.isMark .closeBrace

end Cursor

abbrev Parser := StateT Cursor (Except Surprise)

namespace Parser

def fail {α : Type} (expected : Expectation) : Parser α := fun c =>
  .error ⟨expected, c.current⟩

def skip : Parser Unit := modify Cursor.advance

def eatMark (m : Mark) : Parser Bool := fun c =>
  if c.isMark m then .ok (true, c.advance) else .ok (false, c)

def eatWord (name : String) : Parser Bool := fun c =>
  if c.isWord name then .ok (true, c.advance) else .ok (false, c)

def expectMark (m : Mark) : Parser Unit := fun c =>
  if c.isMark m then .ok ((), c.advance) else .error ⟨.mark m, c.current⟩

def semicolon : Parser Unit := fun c =>
  if c.isMark .semicolon then .ok ((), c.advance)
  else if c.endsStatement then .ok ((), c)
  else .error ⟨.mark .semicolon, c.current⟩

def placeFrom (start : Nat) : Parser Place := fun c =>
  .ok (⟨⟨start, max c.previousEnd start⟩, none⟩, c)

def identifier : Parser (Expr Place) := do
  let token := (← get).current
  match token.kind with
  | .word name =>
    if isReserved name then fail .identifier
    else
      skip
      return .name (← placeFrom token.start) name
  | _ => fail .identifier

end Parser

end Arborist.Script

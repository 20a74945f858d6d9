import Arborist.Number.Basic
import Arborist.Script.Operator

/-!
Script trees. Every node carries a note of type `ι`: a tree that was read from a text notes where
its nodes stand there, a tree that is to be written notes the lines its statements came from, and
with the notes forgotten both are the program itself.
-/

namespace Arborist.Script

/-- Expressions. A literal may keep a spelling that stands for its value. An array has holes where
an element is missing, and the property of a member expression is a name unless it is computed. -/
inductive Expr (ι : Type) where
  | name (note : ι) (text : String)
  | number (note : ι) (value : Number) (raw : Option String)
  | string (note : ι) (value : String) (raw : Option String)
  | boolean (note : ι) (value : Bool)
  | null (note : ι)
  | array (note : ι) (elements : List (Option (Expr ι)))
  | binary (note : ι) (operator : BinaryOperator) (left right : Expr ι)
  | unary (note : ι) (operator : UnaryOperator) (argument : Expr ι)
  | update (note : ι) (operator : UpdateOperator) (before : Bool) (argument : Expr ι)
  | assignment (note : ι) (operator : AssignmentOperator) (target value : Expr ι)
  | conditional (note : ι) (test consequent alternate : Expr ι)
  | sequence (note : ι) (parts : List (Expr ι))
  | call (note : ι) (callee : Expr ι) (arguments : List (Expr ι))
  | member (note : ι) (object property : Expr ι) (computed : Bool)
  deriving Repr

structure Declarator (ι : Type) where
  note : ι
  target : Expr ι
  value : Option (Expr ι)
  deriving Repr

structure FunctionHead (ι : Type) where
  isAsync : Bool
  isGenerator : Bool
  name : Expr ι
  parameters : List (Expr ι)
  deriving Repr

inductive Stmt (ι : Type) where
  | declaration (note : ι) (kind : DeclarationKind) (declarators : List (Declarator ι))
  | function (note : ι) (head : FunctionHead ι) (blockNote : ι) (body : List (Stmt ι))
  | block (note : ι) (body : List (Stmt ι))
  | ret (note : ι) (argument : Option (Expr ι))
  | expression (note : ι) (body : Expr ι)
  | branch (note : ι) (test : Expr ι) (consequent : Stmt ι) (alternate : Option (Stmt ι))
  | empty (note : ι)
  deriving Repr

namespace Expr

variable {ι : Type}

def note : Expr ι → ι
  | .name n _ | .number n _ _ | .string n _ _ | .boolean n _ | .null n | .array n _
  | .binary n _ _ _ | .unary n _ _ | .update n _ _ _ | .assignment n _ _ _
  | .conditional n _ _ _ | .sequence n _ | .call n _ _ | .member n _ _ _ => n

def withNote (e : Expr ι) (n : ι) : Expr ι :=
  match e with
  | .name _ text => .name n text
  | .number _ value raw => .number n value raw
  | .string _ value raw => .string n value raw
  | .boolean _ value => .boolean n value
  | .null _ => .null n
  | .array _ elements => .array n elements
  | .binary _ operator left right => .binary n operator left right
  | .unary _ operator argument => .unary n operator argument
  | .update _ operator before argument => .update n operator before argument
  | .assignment _ operator target value => .assignment n operator target value
  | .conditional _ test consequent alternate => .conditional n test consequent alternate
  | .sequence _ parts => .sequence n parts
  | .call _ callee arguments => .call n callee arguments
  | .member _ object property computed => .member n object property computed

def isAssignable : Expr ι → Bool
  | .name .. | .member .. => true
  | _ => false

end Expr

namespace Stmt

variable {ι : Type}

def note : Stmt ι → ι
  | .declaration n _ _ | .function n _ _ _ | .block n _ | .ret n _ | .expression n _
  | .branch n _ _ _ | .empty n => n

end Stmt

end Arborist.Script

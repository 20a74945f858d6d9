import Arborist.Number.Layout
import Arborist.Script.Tree
import Arborist.Text.Join

/-!
Script text of a tree. An expression is written with a level, and it gets parentheses where it binds
looser than its place asks. Statements note the lines that they came from, and one blank line is
kept where they stood apart. The width of a step and the depth are natural numbers and so is their
product, the margin: no word bounds them, and they differ from a machine's only where a line would not
fit in its memory.
-/

namespace Arborist.Script

/-- The lines of the source at which a node began and ended, where they are known. -/
structure Lines where
  first : Option Number
  last : Option Number
  deriving DecidableEq, Repr

namespace Lines

def apart (previous next : Lines) : Bool :=
  match next.first, previous.last with
  | some first, some last => (last.add Number.one).less first
  | _, _ => false

end Lines

/-- How tightly a written expression binds; a higher level binds tighter. -/
abbrev Level := Nat

namespace Level

def sequence : Level := 0
def assignment : Level := 1
def conditional : Level := 2
def unary : Level := 14
def postfixed : Level := 15
def member : Level := 16
def primary : Level := 17

def ofBinary (operator : BinaryOperator) : Level :=
  if operator.precedence = 0 then sequence else operator.precedence + 2

def operands (operator : BinaryOperator) : Level × Level :=
  let level := ofBinary operator
  if operator = .power then (postfixed, level) else (level, level + 1)

end Level

def quoteChar (c : Char) : List Char :=
  if c = '"' then ['\\', '"']
  else if c = '\\' then ['\\', '\\']
  else if c = '\n' then ['\\', 'n']
  else if c = '\r' then ['\\', 'r']
  else if c = '\t' then ['\\', 't']
  else if c = '\x00' then ['\\', '0']
  else [c]

def quote (s : String) : String :=
  "\"" ++ String.ofList (s.toList.flatMap quoteChar) ++ "\""

def parenthesized (text : String) : String := "(" ++ text ++ ")"

def commaSeparated (parts : List String) : String := Text.join ", " parts

structure Written where
  text : String
  level : Level
  deriving DecidableEq, Repr

namespace Written

def atLevel (w : Written) (least : Level) : String :=
  if w.level < least then parenthesized w.text else w.text

end Written

def writeNumber (value : Number) (raw : Option String) : Written :=
  let text := raw.getD value.display
  ⟨text, if Text.beginsWith text "-" then Level.unary else Level.primary⟩

/-- A word operator and a sign before the same sign are set off by a blank. -/
def writeUnary (operator : UnaryOperator) (argument : String) : String :=
  if operator.isWord || (operator.isSign && Text.beginsWith argument operator.text) then
    operator.text ++ " " ++ argument
  else operator.text ++ argument

/-- A whole number would take the dot of a member as its own, and a sign would apply to the member;
both are put in parentheses. -/
def writeMemberObject (isNumber : Bool) (object : String) : String :=
  if isNumber && (Text.beginsWith object "-" || object.toList.all Char.isDigit) then
    parenthesized object
  else object

namespace Expr

variable {ι : Type}

def isNumber : Expr ι → Bool
  | .number .. => true
  | _ => false

mutual

def write : Expr ι → Written
  | .name _ text => ⟨text, Level.primary⟩
  | .number _ value raw => writeNumber value raw
  | .string _ value raw => ⟨raw.getD (quote value), Level.primary⟩
  | .boolean _ value => ⟨if value then "true" else "false", Level.primary⟩
  | .null _ => ⟨"null", Level.primary⟩
  | .array _ elements => ⟨"[" ++ commaSeparated (writeElements elements) ++ "]", Level.primary⟩
  | .binary _ operator left right =>
    let least := Level.operands operator
    let leftText := left.write.atLevel least.1
    let rightText := right.write.atLevel least.2
    ⟨if operator = .comma then leftText ++ ", " ++ rightText
      else leftText ++ " " ++ operator.text ++ " " ++ rightText, Level.ofBinary operator⟩
  | .unary _ operator argument =>
    ⟨writeUnary operator (argument.write.atLevel Level.unary), Level.unary⟩
  | .update _ operator before argument =>
    let text := argument.write.atLevel Level.member
    if before then ⟨operator.text ++ text, Level.unary⟩
    else ⟨text ++ operator.text, Level.postfixed⟩
  | .assignment _ operator target value =>
    ⟨target.write.atLevel Level.member ++ " " ++ operator.text ++ " " ++
      value.write.atLevel Level.assignment, Level.assignment⟩
  | .conditional _ test consequent alternate =>
    ⟨test.write.atLevel (Level.conditional + 1) ++ " ? " ++
      consequent.write.atLevel Level.assignment ++ " : " ++
      alternate.write.atLevel Level.assignment, Level.conditional⟩
  | .sequence _ parts => ⟨commaSeparated (writeList parts), Level.sequence⟩
  | .call _ callee arguments =>
    ⟨callee.write.atLevel Level.member ++ parenthesized (commaSeparated (writeList arguments)),
      Level.member⟩
  | .member _ object property computed =>
    let objectText := object.write.atLevel Level.member
    if computed then
      ⟨objectText ++ "[" ++ property.write.atLevel Level.sequence ++ "]", Level.member⟩
    else
      ⟨writeMemberObject object.isNumber objectText ++ "." ++
        property.write.atLevel Level.primary, Level.member⟩

def writeList : List (Expr ι) → List String
  | [] => []
  | e :: rest => e.write.atLevel Level.assignment :: writeList rest

def writeElements : List (Option (Expr ι)) → List String
  | [] => []
  | none :: rest => "" :: writeElements rest
  | some e :: rest => e.write.atLevel Level.assignment :: writeElements rest

end

def textAt (e : Expr ι) (least : Level) : String := e.write.atLevel least

end Expr

namespace Declarator

variable {ι : Type}

def text (d : Declarator ι) : String :=
  match d.value with
  | none => d.target.textAt Level.primary
  | some value => d.target.textAt Level.primary ++ " = " ++ value.textAt Level.assignment

end Declarator

namespace FunctionHead

variable {ι : Type}

def text (head : FunctionHead ι) : String :=
  (if head.isAsync then "async " else "") ++ "function" ++
    (if head.isGenerator then "*" else "") ++ " " ++ head.name.textAt Level.primary ++
    parenthesized (commaSeparated (Expr.writeList head.parameters))

end FunctionHead

def margin (width depth : Nat) : String := Text.blanks (width * depth)

/-- An expression statement must not look like a block or a function. -/
def expressionStatement (text : String) : String :=
  if Text.beginsWith text "\x7b" || Text.beginsWith text "function" then parenthesized text ++ ";"
  else text ++ ";"

def braced (width depth : Nat) (isEmpty : Bool) (inner : String) : String :=
  if isEmpty then "\x7b\x7d" else "\x7b\n" ++ inner ++ "\n" ++ margin width depth ++ "\x7d"

namespace Stmt

mutual

def text (width depth : Nat) : Stmt Lines → String
  | .declaration _ kind declarators =>
    kind.text ++ " " ++ commaSeparated (declarators.map Declarator.text) ++ ";"
  | .function _ head _ body =>
    head.text ++ " " ++ braced width depth body.isEmpty (listText width (depth + 1) none body)
  | .block _ body => braced width depth body.isEmpty (listText width (depth + 1) none body)
  | .ret _ none => "return;"
  | .ret _ (some argument) => "return " ++ argument.textAt Level.sequence ++ ";"
  | .expression _ body => expressionStatement (body.textAt Level.sequence)
  | .branch _ test consequent alternate =>
    "if " ++ parenthesized (test.textAt Level.sequence) ++ " " ++ consequent.text width depth ++
      elseText width depth alternate
  | .empty _ => ";"

def elseText (width depth : Nat) : Option (Stmt Lines) → String
  | none => ""
  | some alternate => " else " ++ alternate.text width depth

def listText (width depth : Nat) (previous : Option Lines) : List (Stmt Lines) → String
  | [] => ""
  | s :: rest =>
    let gap :=
      match previous with
      | none => ""
      | some lines => if lines.apart s.note then "\n\n" else "\n"
    gap ++ margin width depth ++ s.text width depth ++
      listText width depth (some s.note) rest

end

end Stmt

def programText (width : Nat) (body : List (Stmt Lines)) : String :=
  Stmt.listText width 0 none body

end Arborist.Script

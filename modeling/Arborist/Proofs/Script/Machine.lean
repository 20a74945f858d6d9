import Arborist.Script.Parser

/-!
The parsers over again, with nothing taken for granted: the tokens stay a list, and the reading
position is an index into it. Every look at a token is a look at an index, which may not be there;
every list is read by a loop, which may not have more rounds than there are tokens; and every call
that can lead back to its caller is one deeper, which may be too deep. A machine that has to do what
it may not halts and says so, so that a want of tokens, rounds or depth is told from a syntax error.
-/

namespace Arborist.Script

/-- Why a machine stops without an answer: at a token that does not fit, or for want of a token, of
rounds or of depth. -/
inductive Halt where
  | surprise (s : Surprise)
  | outOfBounds (index : Nat)
  | tooManyRounds
  | tooDeep
  deriving DecidableEq, Repr

abbrev Machine := StateT Nat (Except Halt)

namespace Machine

section Steps

variable {α σ : Type} (tokens : List Token)

def halt (cause : Halt) : Machine α := fun _ => .error cause

def lookup (index : Nat) : Machine Token :=
  match tokens[index]? with
  | some token => pure token
  | none => halt (.outOfBounds index)

/-- The token some steps behind the current one, or the last one. -/
def peekAt (steps : Nat) : Machine Token := do
  lookup tokens (min ((← get) + steps) (tokens.length - 1))

def peek : Machine Token := peekAt tokens 0

def sight : Machine Cursor := return ⟨0, ← peek tokens, []⟩

/-- The last token is never passed. -/
def advance : Machine Unit := do
  let _ ← peek tokens
  let index ← get
  if index < tokens.length - 1 then set (index + 1)

def previousEnd : Machine Nat := do
  let index ← get
  if index = 0 then return 0
  else return (← lookup tokens (index - 1)).stop

def fail (expected : Expectation) : Machine α := do
  let found ← peek tokens
  halt (.surprise ⟨expected, found⟩)

def eatMark (m : Mark) : Machine Bool := do
  if (← sight tokens).isMark m then
    advance tokens
    return true
  else return false

def eatWord (name : String) : Machine Bool := do
  if (← sight tokens).isWord name then
    advance tokens
    return true
  else return false

def expectMark (m : Mark) : Machine Unit := do
  if ← eatMark tokens m then return () else fail tokens (.mark m)

def semicolon : Machine Unit := do
  if ← eatMark tokens .semicolon then return ()
  else if (← sight tokens).endsStatement then return ()
  else fail tokens (.mark .semicolon)

def placeFrom (start : Nat) : Machine Place :=
  return ⟨⟨start, max (← previousEnd tokens) start⟩, none⟩

def startsFunction : Machine Bool := do
  let here ← sight tokens
  if here.isWord "function" then return true
  else if here.isWord "async" then
    let next ← peekAt tokens 1
    return next.kind == .word "function" && !next.newlineBefore
  else return false

/-- So many rounds at most, each of which leads to another state or ends the loop. -/
def loop (round : σ → Machine (σ ⊕ α)) : Nat → σ → Machine α
  | 0, _ => halt .tooManyRounds
  | rounds + 1, state => do
    match ← round state with
    | .inl next => loop round rounds next
    | .inr answer => return answer

def separated (closing : Mark) (item : Machine α) : Machine (List α) :=
  loop (fun list => do
    if (← sight tokens).isMark closing then return .inr list
    else
      let next ← item
      if ← eatMark tokens .comma then return .inl (list ++ [next])
      else return .inr (list ++ [next])) tokens.length []

def identifier : Machine (Expr Place) := do
  let token ← peek tokens
  match token.kind with
  | .word name =>
    if isReserved name then fail tokens .identifier
    else
      advance tokens
      return .name (← placeFrom tokens token.start) name
  | _ => fail tokens .identifier

end Steps

section Expressions

variable (tokens : List Token)

mutual

def expression : Nat → Machine (Expr Place)
  | 0 => halt .tooDeep
  | depth + 1 => do
    let start := (← peek tokens).start
    let first ← assignment depth
    if (← sight tokens).isMark .comma then
      let list ← loop (fun list => do
        if ← eatMark tokens .comma then
          let part ← assignment depth
          return .inl (list ++ [part])
        else return .inr list) tokens.length [first]
      return .sequence (← placeFrom tokens start) list
    else return first

def assignment : Nat → Machine (Expr Place)
  | 0 => halt .tooDeep
  | depth + 1 => do
    let start := (← peek tokens).start
    let target ← conditional depth
    match (← sight tokens).assignmentOperator? with
    | none => return target
    | some operator =>
      if target.isAssignable then
        advance tokens
        let value ← assignment depth
        return .assignment (← placeFrom tokens start) operator target value
      else fail tokens .assignmentTarget

def conditional : Nat → Machine (Expr Place)
  | 0 => halt .tooDeep
  | depth + 1 => do
    let start := (← peek tokens).start
    let test ← binary depth 1
    if ← eatMark tokens .question then
      let consequent ← assignment depth
      expectMark tokens .colon
      let alternate ← assignment depth
      return .conditional (← placeFrom tokens start) test consequent alternate
    else return test

def binary : Nat → Nat → Machine (Expr Place)
  | 0, _ => halt .tooDeep
  | depth + 1, least => do
    let start := (← peek tokens).start
    let first ← unary depth
    loop (fun left => do
      match (← sight tokens).binaryOperator? with
      | none => return .inr left
      | some operator =>
        if operator.precedence < least then return .inr left
        else
          advance tokens
          let right ← binary depth
            (if operator = .power then operator.precedence else operator.precedence + 1)
          return .inl (.binary (← placeFrom tokens start) operator left right))
      tokens.length first

def unary : Nat → Machine (Expr Place)
  | 0 => halt .tooDeep
  | depth + 1 => do
    let start := (← peek tokens).start
    let here ← sight tokens
    match here.unaryOperator?, here.updateOperator? with
    | some operator, _ =>
      advance tokens
      let argument ← unary depth
      return .unary (← placeFrom tokens start) operator argument
    | none, some operator =>
      advance tokens
      let argument ← unary depth
      return .update (← placeFrom tokens start) operator true argument
    | none, none =>
      let argument ← chain depth
      let behind ← sight tokens
      match behind.updateOperator? with
      | some operator =>
        if behind.current.newlineBefore then return argument
        else
          advance tokens
          return .update (← placeFrom tokens start) operator false argument
      | none => return argument

def chain : Nat → Machine (Expr Place)
  | 0 => halt .tooDeep
  | depth + 1 => do
    let start := (← peek tokens).start
    let first ← primary depth
    loop (fun inner => do
      if ← eatMark tokens .dot then
        let token ← peek tokens
        match token.kind with
        | .word name =>
          advance tokens
          let property := Expr.name (← placeFrom tokens token.start) name
          return .inl (.member (← placeFrom tokens start) inner property false)
        | _ => fail tokens .propertyName
      else if ← eatMark tokens .openBracket then
        let property ← expression depth
        expectMark tokens .closeBracket
        return .inl (.member (← placeFrom tokens start) inner property true)
      else if ← eatMark tokens .openParen then
        let arguments ← separated tokens .closeParen (assignment depth)
        expectMark tokens .closeParen
        return .inl (.call (← placeFrom tokens start) inner arguments)
      else return .inr inner) tokens.length first

def primary : Nat → Machine (Expr Place)
  | 0 => halt .tooDeep
  | depth + 1 => do
    let token ← peek tokens
    match token.kind with
    | .number value raw =>
      advance tokens
      return .number (← placeFrom tokens token.start) value (some raw)
    | .string value raw =>
      advance tokens
      return .string (← placeFrom tokens token.start) value (some raw)
    | .word name =>
      if name = "true" ∨ name = "false" then
        advance tokens
        return .boolean (← placeFrom tokens token.start) (name == "true")
      else if name = "null" then
        advance tokens
        return .null (← placeFrom tokens token.start)
      else identifier tokens
    | .mark .openParen =>
      advance tokens
      let inner ← expression depth
      expectMark tokens .closeParen
      return inner.withNote ⟨inner.note.span, some token.start⟩
    | .mark .openBracket =>
      advance tokens
      let elements ← separated tokens .closeBracket (assignment depth)
      expectMark tokens .closeBracket
      return .array (← placeFrom tokens token.start) (elements.map some)
    | _ => fail tokens .expression

end

end Expressions

section Statements

variable (tokens : List Token)

def initial (depth : Nat) : Machine (Option (Expr Place)) := do
  if ← eatMark tokens .assign then return some (← assignment tokens depth) else return none

def declarators (depth : Nat) : Machine (List (Declarator Place)) :=
  loop (fun list => do
    let start := (← peek tokens).start
    let target ← identifier tokens
    let value ← initial tokens depth
    let declarator : Declarator Place := ⟨← placeFrom tokens start, target, value⟩
    if ← eatMark tokens .comma then return .inl (list ++ [declarator])
    else return .inr (list ++ [declarator])) tokens.length []

def declaration (depth : Nat) (kind : DeclarationKind) : Machine (Stmt Place) := do
  let here ← sight tokens
  advance tokens
  if here.atWord then
    let list ← declarators tokens depth
    semicolon tokens
    return .declaration (← placeFrom tokens here.current.start) kind list
  else fail tokens .declarationWord

def functionHead : Machine (FunctionHead Place) := do
  let isAsync ← eatWord tokens "async"
  if ← eatWord tokens "function" then
    let isGenerator ← eatMark tokens .times
    let name ← identifier tokens
    expectMark tokens .openParen
    let list ← separated tokens .closeParen (identifier tokens)
    expectMark tokens .closeParen
    return ⟨isAsync, isGenerator, name, list⟩
  else fail tokens .functionWord

mutual

def statement : Nat → Machine (Stmt Place)
  | 0 => halt .tooDeep
  | depth + 1 => do
    let here ← sight tokens
    let start := here.current.start
    match here.declarationKind? with
    | some kind => declaration tokens depth kind
    | none =>
      if ← startsFunction tokens then function depth
      else if ← eatWord tokens "return" then
        let after ← sight tokens
        if after.isMark .semicolon || after.endsStatement then
          semicolon tokens
          return .ret (← placeFrom tokens start) none
        else
          let argument ← expression tokens depth
          semicolon tokens
          return .ret (← placeFrom tokens start) (some argument)
      else if ← eatWord tokens "if" then
        expectMark tokens .openParen
        let test ← expression tokens depth
        expectMark tokens .closeParen
        let consequent ← statement depth
        if ← eatWord tokens "else" then
          let alternate ← statement depth
          return .branch (← placeFrom tokens start) test consequent (some alternate)
        else return .branch (← placeFrom tokens start) test consequent none
      else if here.isMark .openBrace then
        let (place, body) ← block depth
        return .block place body
      else if ← eatMark tokens .semicolon then return .empty (← placeFrom tokens start)
      else
        let body ← expression tokens depth
        semicolon tokens
        return .expression (← placeFrom tokens start) body

def function : Nat → Machine (Stmt Place)
  | 0 => halt .tooDeep
  | depth + 1 => do
    let start := (← peek tokens).start
    let head ← functionHead tokens
    let (place, body) ← block depth
    return .function (← placeFrom tokens start) head place body

def block : Nat → Machine (Place × List (Stmt Place))
  | 0 => halt .tooDeep
  | depth + 1 => do
    let start := (← peek tokens).start
    expectMark tokens .openBrace
    let body ← loop (fun list => do
      let here ← sight tokens
      if here.isMark .closeBrace then return .inr list
      else if here.atEnd then fail tokens (.mark .closeBrace)
      else
        let next ← statement depth
        return .inl (list ++ [next])) tokens.length []
    expectMark tokens .closeBrace
    return (← placeFrom tokens start, body)

end

def program (depth : Nat) : Machine (List (Stmt Place)) :=
  loop (fun list => do
    if (← sight tokens).atEnd then return .inr list
    else
      let next ← statement tokens depth
      return .inl (list ++ [next])) tokens.length []

end Statements

end Machine

end Arborist.Script

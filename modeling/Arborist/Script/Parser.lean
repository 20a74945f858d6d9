import Arborist.Script.Cursor

/-!
Recursive descent from tokens to placed trees. Binary operators are read by precedence climbing, and
each list loop is a function of its own. Every call takes one unit of fuel; between two calls on the
same token there are fewer than sixteen others, so sixteen units for a token are enough.
-/

namespace Arborist.Script.Parser

mutual

def expression : Nat → Parser (Expr Place)
  | 0 => fail .expression
  | fuel + 1 => do
    let start := (← get).current.start
    let first ← assignment fuel
    if (← get).isMark .comma then
      let rest ← commaParts fuel
      return .sequence (← placeFrom start) (first :: rest)
    else return first

def commaParts : Nat → Parser (List (Expr Place))
  | 0 => fail .expression
  | fuel + 1 => do
    if ← eatMark .comma then
      let part ← assignment fuel
      let rest ← commaParts fuel
      return part :: rest
    else return []

def assignment : Nat → Parser (Expr Place)
  | 0 => fail .expression
  | fuel + 1 => do
    let start := (← get).current.start
    let target ← conditional fuel
    match (← get).assignmentOperator? with
    | none => return target
    | some operator =>
      if target.isAssignable then
        skip
        let value ← assignment fuel
        return .assignment (← placeFrom start) operator target value
      else fail .assignmentTarget

def conditional : Nat → Parser (Expr Place)
  | 0 => fail .expression
  | fuel + 1 => do
    let start := (← get).current.start
    let test ← binary fuel 1
    if ← eatMark .question then
      let consequent ← assignment fuel
      expectMark .colon
      let alternate ← assignment fuel
      return .conditional (← placeFrom start) test consequent alternate
    else return test

def binary : Nat → Nat → Parser (Expr Place)
  | 0, _ => fail .expression
  | fuel + 1, least => do
    let start := (← get).current.start
    let left ← unary fuel
    binaryFrom fuel start least left

def binaryFrom : Nat → Nat → Nat → Expr Place → Parser (Expr Place)
  | 0, _, _, _ => fail .expression
  | fuel + 1, start, least, left => do
    match (← get).binaryOperator? with
    | none => return left
    | some operator =>
      if operator.precedence < least then return left
      else
        skip
        let right ← binary fuel
          (if operator = .power then operator.precedence else operator.precedence + 1)
        let place ← placeFrom start
        binaryFrom fuel start least (.binary place operator left right)

def unary : Nat → Parser (Expr Place)
  | 0 => fail .expression
  | fuel + 1 => do
    let start := (← get).current.start
    match (← get).unaryOperator?, (← get).updateOperator? with
    | some operator, _ =>
      skip
      let argument ← unary fuel
      return .unary (← placeFrom start) operator argument
    | none, some operator =>
      skip
      let argument ← unary fuel
      return .update (← placeFrom start) operator true argument
    | none, none =>
      let argument ← chain fuel
      let here ← get
      match here.updateOperator? with
      | some operator =>
        if here.current.newlineBefore then return argument
        else
          skip
          return .update (← placeFrom start) operator false argument
      | none => return argument

def chain : Nat → Parser (Expr Place)
  | 0 => fail .expression
  | fuel + 1 => do
    let start := (← get).current.start
    let first ← primary fuel
    chainFrom fuel start first

def chainFrom : Nat → Nat → Expr Place → Parser (Expr Place)
  | 0, _, _ => fail .expression
  | fuel + 1, start, inner => do
    if ← eatMark .dot then
      let token := (← get).current
      match token.kind with
      | .word name =>
        skip
        let property := Expr.name (← placeFrom token.start) name
        let place ← placeFrom start
        chainFrom fuel start (.member place inner property false)
      | _ => fail .propertyName
    else if ← eatMark .openBracket then
      let property ← expression fuel
      expectMark .closeBracket
      let place ← placeFrom start
      chainFrom fuel start (.member place inner property true)
    else if ← eatMark .openParen then
      let arguments ← items fuel .closeParen
      expectMark .closeParen
      let place ← placeFrom start
      chainFrom fuel start (.call place inner arguments)
    else return inner

def items : Nat → Mark → Parser (List (Expr Place))
  | 0, _ => fail .expression
  | fuel + 1, closing => do
    if (← get).isMark closing then return []
    else
      let item ← assignment fuel
      if ← eatMark .comma then
        let rest ← items fuel closing
        return item :: rest
      else return [item]

def primary : Nat → Parser (Expr Place)
  | 0 => fail .expression
  | fuel + 1 => do
    let token := (← get).current
    match token.kind with
    | .number value raw =>
      skip
      return .number (← placeFrom token.start) value (some raw)
    | .string value raw =>
      skip
      return .string (← placeFrom token.start) value (some raw)
    | .word name =>
      if name = "true" ∨ name = "false" then
        skip
        return .boolean (← placeFrom token.start) (name == "true")
      else if name = "null" then
        skip
        return .null (← placeFrom token.start)
      else identifier
    | .mark .openParen =>
      skip
      let inner ← expression fuel
      expectMark .closeParen
      return inner.withNote ⟨inner.note.span, some token.start⟩
    | .mark .openBracket =>
      skip
      let elements ← items fuel .closeBracket
      expectMark .closeBracket
      return .array (← placeFrom token.start) (elements.map some)
    | _ => fail .expression

end

def parameters : Nat → Parser (List (Expr Place))
  | 0 => fail .identifier
  | fuel + 1 => do
    if (← get).isMark .closeParen then return []
    else
      let name ← identifier
      if ← eatMark .comma then
        let rest ← parameters fuel
        return name :: rest
      else return [name]

def declarators : Nat → Parser (List (Declarator Place))
  | 0 => fail .identifier
  | fuel + 1 => do
    let start := (← get).current.start
    let target ← identifier
    let value ← if ← eatMark .assign then some <$> assignment fuel else pure none
    let declarator : Declarator Place := ⟨← placeFrom start, target, value⟩
    if ← eatMark .comma then
      let rest ← declarators fuel
      return declarator :: rest
    else return [declarator]

/-- A declaration of the kind that its first word stands for. Any word is passed here; what is not a
word is refused, though only behind it. -/
def declaration (fuel : Nat) (kind : DeclarationKind) : Parser (Stmt Place) := do
  let here ← get
  skip
  if here.atWord then
    let list ← declarators fuel
    semicolon
    return .declaration (← placeFrom here.current.start) kind list
  else fail .declarationWord

def functionHead (fuel : Nat) : Parser (FunctionHead Place) := do
  let isAsync ← eatWord "async"
  if ← eatWord "function" then
    let isGenerator ← eatMark .times
    let name ← identifier
    expectMark .openParen
    let list ← parameters fuel
    expectMark .closeParen
    return ⟨isAsync, isGenerator, name, list⟩
  else fail .functionWord

mutual

def statement : Nat → Parser (Stmt Place)
  | 0 => fail .expression
  | fuel + 1 => do
    let here ← get
    let start := here.current.start
    match here.declarationKind? with
    | some kind => declaration fuel kind
    | none =>
      if here.startsFunction then
        let head ← functionHead fuel
        let (blockPlace, body) ← block fuel
        return .function (← placeFrom start) head blockPlace body
      else if ← eatWord "return" then
        let after ← get
        if after.isMark .semicolon || after.endsStatement then
          semicolon
          return .ret (← placeFrom start) none
        else
          let argument ← expression fuel
          semicolon
          return .ret (← placeFrom start) (some argument)
      else if ← eatWord "if" then
        expectMark .openParen
        let test ← expression fuel
        expectMark .closeParen
        let consequent ← statement fuel
        if ← eatWord "else" then
          let alternate ← statement fuel
          return .branch (← placeFrom start) test consequent (some alternate)
        else return .branch (← placeFrom start) test consequent none
      else if here.isMark .openBrace then
        let (place, body) ← block fuel
        return .block place body
      else if ← eatMark .semicolon then return .empty (← placeFrom start)
      else
        let body ← expression fuel
        semicolon
        return .expression (← placeFrom start) body

def block : Nat → Parser (Place × List (Stmt Place))
  | 0 => fail (.mark .openBrace)
  | fuel + 1 => do
    let start := (← get).current.start
    expectMark .openBrace
    let body ← blockBody fuel
    expectMark .closeBrace
    return (← placeFrom start, body)

def blockBody : Nat → Parser (List (Stmt Place))
  | 0 => fail (.mark .closeBrace)
  | fuel + 1 => do
    if (← get).isMark .closeBrace then return []
    else if (← get).atEnd then fail (.mark .closeBrace)
    else
      let first ← statement fuel
      let rest ← blockBody fuel
      return first :: rest

end

def body : Nat → Parser (List (Stmt Place))
  | 0 => fail .expression
  | fuel + 1 => do
    if (← get).atEnd then return []
    else
      let first ← statement fuel
      let rest ← body fuel
      return first :: rest

def program (tokens : List Token) : Except Surprise (List (Stmt Place)) :=
  (body (16 * (tokens.length + 1))).run' (Cursor.ofTokens tokens)

end Arborist.Script.Parser

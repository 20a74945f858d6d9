import Mathlib
import Arborist.Script.Parser
import Arborist.Script.Printer

/-!
The grammar of scripts as a relation between trees and tokens. Expressions are layered by the levels
at which they are written, so that every operator has one layer, and a phrase of one layer is a
phrase of every looser one. Where the end of a phrase depends on what comes next, the relation
carries the next token.
-/

namespace Arborist.Script

open Token (Kind)

namespace BinaryOperator

def kind : BinaryOperator → Kind
  | .comma => .mark .comma
  | .logicalOr => .mark .orOr
  | .logicalAnd => .mark .andAnd
  | .bitOr => .mark .bitOr
  | .bitXor => .mark .bitXor
  | .bitAnd => .mark .bitAnd
  | .equal => .mark .equal
  | .unequal => .mark .unequal
  | .strictEqual => .mark .strictEqual
  | .strictUnequal => .mark .strictUnequal
  | .less => .mark .less
  | .greater => .mark .greater
  | .lessEqual => .mark .lessEqual
  | .greaterEqual => .mark .greaterEqual
  | .member => .word "in"
  | .instanceOf => .word "instanceof"
  | .shiftLeft => .mark .shiftLeft
  | .shiftRight => .mark .shiftRight
  | .shiftRightZero => .mark .shiftRightZero
  | .plus => .mark .plus
  | .minus => .mark .minus
  | .times => .mark .times
  | .divide => .mark .divide
  | .remainder => .mark .remainder
  | .power => .mark .power

end BinaryOperator

namespace UnaryOperator

def kind : UnaryOperator → Kind
  | .minus => .mark .minus
  | .plus => .mark .plus
  | .not => .mark .not
  | .complement => .mark .complement
  | .typeOf => .word "typeof"
  | .void => .word "void"
  | .delete => .word "delete"

end UnaryOperator

namespace UpdateOperator

def kind : UpdateOperator → Kind
  | .increment => .mark .plusPlus
  | .decrement => .mark .minusMinus

end UpdateOperator

namespace AssignmentOperator

def kind : AssignmentOperator → Kind
  | .assign => .mark .assign
  | .plusAssign => .mark .plusAssign
  | .minusAssign => .mark .minusAssign
  | .timesAssign => .mark .timesAssign
  | .divideAssign => .mark .divideAssign
  | .remainderAssign => .mark .remainderAssign

end AssignmentOperator

def startOf (tokens : List Token) : Nat := (tokens.head?.map Token.start).getD 0

def stopOf (tokens : List Token) : Nat := (tokens.getLast?.map Token.stop).getD 0

/-- The place of a node that is spelled by these tokens. -/
def Place.over (tokens : List Token) : Place :=
  ⟨⟨startOf tokens, max (stopOf tokens) (startOf tokens)⟩, none⟩

/-- Nothing can be chained to a phrase that ends in an update operator. -/
def endsInUpdate (tokens : List Token) : Bool :=
  match tokens.getLast? with
  | some t => t.kind == .mark .plusPlus || t.kind == .mark .minusMinus
  | none => false

/-- The level at which a token behind a phrase would be taken into it. -/
def binds (phrase : List Token) (next : Token) : Option Level :=
  match next.kind with
  | .mark .dot | .mark .openBracket | .mark .openParen =>
    if endsInUpdate phrase then none else some Level.member
  | .mark .plusPlus | .mark .minusMinus =>
    if endsInUpdate phrase || next.newlineBefore then none else some Level.postfixed
  | .mark .question => some Level.conditional
  | .mark .comma => some Level.sequence
  | .mark m =>
    if (AssignmentOperator.ofMark? m).isSome then some Level.assignment
    else (BinaryOperator.ofMark? m).map Level.ofBinary
  | .word name => (BinaryOperator.ofWord? name).map Level.ofBinary
  | _ => none

def Stops (phrase : List Token) (next : Token) (least : Level) : Prop :=
  ∀ level ∈ binds phrase next, level < least

/-- What a list of tokens is read as: an expression that binds at least as tightly as a level, the
items of a list, or the parts of a sequence behind the first. -/
inductive Phrase where
  | expr (least : Level) (e : Expr Place)
  | items (list : List (Expr Place))
  | parts (list : List (Expr Place))

inductive Derives : Phrase → List Token → Prop where
  | name {t : Token} {text : String} (word : t.kind = .word text)
      (free : isReserved text = false) :
      Derives (.expr Level.primary (.name (Place.over [t]) text)) [t]
  | number {t : Token} {value : Number} {raw : String} (literal : t.kind = .number value raw) :
      Derives (.expr Level.primary (.number (Place.over [t]) value (some raw))) [t]
  | string {t : Token} {value raw : String} (literal : t.kind = .string value raw) :
      Derives (.expr Level.primary (.string (Place.over [t]) value (some raw))) [t]
  | boolean {t : Token} {value : Bool} (word : t.kind = .word (if value then "true" else "false")) :
      Derives (.expr Level.primary (.boolean (Place.over [t]) value)) [t]
  | null {t : Token} (word : t.kind = .word "null") :
      Derives (.expr Level.primary (.null (Place.over [t]))) [t]
  | paren {a b : Token} {ts : List Token} {e : Expr Place} (opening : a.kind = .mark .openParen)
      (inner : Derives (.expr Level.sequence e) ts) (closing : b.kind = .mark .closeParen) :
      Derives (.expr Level.primary (e.withNote ⟨e.note.span, some a.start⟩)) (a :: (ts ++ [b]))
  | array {a b : Token} {ts : List Token} {es : List (Expr Place)}
      (opening : a.kind = .mark .openBracket) (elements : Derives (.items es) ts)
      (closing : b.kind = .mark .closeBracket) :
      Derives (.expr Level.primary (.array (Place.over (a :: (ts ++ [b]))) (es.map some)))
        (a :: (ts ++ [b]))
  | dot {point word : Token} {ts : List Token} {object : Expr Place} {name : String}
      (inner : Derives (.expr Level.member object) ts) (mark : point.kind = .mark .dot)
      (property : word.kind = .word name) :
      Derives (.expr Level.member (.member (Place.over (ts ++ [point, word])) object
        (.name (Place.over [word]) name) false)) (ts ++ [point, word])
  | bracket {a b : Token} {ts us : List Token} {object property : Expr Place}
      (inner : Derives (.expr Level.member object) ts) (opening : a.kind = .mark .openBracket)
      (index : Derives (.expr Level.sequence property) us)
      (closing : b.kind = .mark .closeBracket) :
      Derives (.expr Level.member (.member (Place.over (ts ++ a :: (us ++ [b]))) object property
        true)) (ts ++ a :: (us ++ [b]))
  | call {a b : Token} {ts us : List Token} {callee : Expr Place} {es : List (Expr Place)}
      (inner : Derives (.expr Level.member callee) ts) (opening : a.kind = .mark .openParen)
      (arguments : Derives (.items es) us) (closing : b.kind = .mark .closeParen) :
      Derives (.expr Level.member (.call (Place.over (ts ++ a :: (us ++ [b]))) callee es))
        (ts ++ a :: (us ++ [b]))
  | updated {t : Token} {ts : List Token} {operator : UpdateOperator} {argument : Expr Place}
      (inner : Derives (.expr Level.member argument) ts) (mark : t.kind = operator.kind)
      (sameLine : t.newlineBefore = false) :
      Derives (.expr Level.postfixed (.update (Place.over (ts ++ [t])) operator false argument))
        (ts ++ [t])
  | unary {t : Token} {ts : List Token} {operator : UnaryOperator} {argument : Expr Place}
      (mark : t.kind = operator.kind) (inner : Derives (.expr Level.unary argument) ts) :
      Derives (.expr Level.unary (.unary (Place.over (t :: ts)) operator argument)) (t :: ts)
  | updating {t : Token} {ts : List Token} {operator : UpdateOperator} {argument : Expr Place}
      (mark : t.kind = operator.kind) (inner : Derives (.expr Level.unary argument) ts) :
      Derives (.expr Level.unary (.update (Place.over (t :: ts)) operator true argument)) (t :: ts)
  | power {t : Token} {ts us : List Token} {left right : Expr Place}
      (base : Derives (.expr Level.unary left) ts) (mark : t.kind = BinaryOperator.power.kind)
      (exponent : Derives (.expr (Level.ofBinary .power) right) us) :
      Derives (.expr (Level.ofBinary .power) (.binary (Place.over (ts ++ t :: us)) .power left right))
        (ts ++ t :: us)
  | binary {t : Token} {ts us : List Token} {operator : BinaryOperator} {left right : Expr Place}
      (notComma : operator ≠ .comma) (notPower : operator ≠ .power)
      (first : Derives (.expr (Level.ofBinary operator) left) ts) (mark : t.kind = operator.kind)
      (second : Derives (.expr (Level.ofBinary operator + 1) right) us) :
      Derives (.expr (Level.ofBinary operator)
        (.binary (Place.over (ts ++ t :: us)) operator left right)) (ts ++ t :: us)
  | conditional {a b : Token} {ts us vs : List Token} {test consequent alternate : Expr Place}
      (condition : Derives (.expr (Level.conditional + 1) test) ts)
      (question : a.kind = .mark .question)
      (positive : Derives (.expr Level.assignment consequent) us) (colon : b.kind = .mark .colon)
      (negative : Derives (.expr Level.assignment alternate) vs) :
      Derives (.expr Level.conditional
        (.conditional (Place.over (ts ++ a :: (us ++ b :: vs))) test consequent alternate))
        (ts ++ a :: (us ++ b :: vs))
  | assignment {t : Token} {ts us : List Token} {operator : AssignmentOperator}
      {target value : Expr Place} (left : Derives (.expr Level.conditional target) ts)
      (assignable : target.isAssignable = true) (mark : t.kind = operator.kind)
      (right : Derives (.expr Level.assignment value) us) :
      Derives (.expr Level.assignment (.assignment (Place.over (ts ++ t :: us)) operator target value))
        (ts ++ t :: us)
  | sequence {ts us : List Token} {first : Expr Place} {rest : List (Expr Place)}
      (head : Derives (.expr Level.assignment first) ts) (tail : Derives (.parts rest) us)
      (some : rest ≠ []) :
      Derives (.expr Level.sequence (.sequence (Place.over (ts ++ us)) (first :: rest))) (ts ++ us)
  | looser {least : Level} {e : Expr Place} {ts : List Token}
      (tighter : Derives (.expr (least + 1) e) ts) : Derives (.expr least e) ts
  | noItems : Derives (.items []) []
  | oneItem {e : Expr Place} {ts : List Token} (item : Derives (.expr Level.assignment e) ts) :
      Derives (.items [e]) ts
  | moreItems {t : Token} {e : Expr Place} {es : List (Expr Place)} {ts us : List Token}
      (item : Derives (.expr Level.assignment e) ts) (comma : t.kind = .mark .comma)
      (rest : Derives (.items es) us) : Derives (.items (e :: es)) (ts ++ t :: us)
  | noParts : Derives (.parts []) []
  | moreParts {t : Token} {e : Expr Place} {es : List (Expr Place)} {ts us : List Token}
      (comma : t.kind = .mark .comma) (part : Derives (.expr Level.assignment e) ts)
      (rest : Derives (.parts es) us) : Derives (.parts (e :: es)) (t :: (ts ++ us))

inductive Named : Expr Place → Token → Prop where
  | intro {t : Token} {text : String} (word : t.kind = .word text)
      (free : isReserved text = false) : Named (.name (Place.over [t]) text) t

inductive Parameters : List (Expr Place) → List Token → Prop where
  | none : Parameters [] []
  | one {e : Expr Place} {t : Token} (name : Named e t) : Parameters [e] [t]
  | more {e : Expr Place} {es : List (Expr Place)} {t u : Token} {ts : List Token}
      (name : Named e t) (comma : u.kind = .mark .comma) (rest : Parameters es ts) :
      Parameters (e :: es) (t :: u :: ts)

inductive Declares : Declarator Place → List Token → Token → Prop where
  | plain {e : Expr Place} {t next : Token} (name : Named e t) (bare : next.kind ≠ .mark .assign) :
      Declares ⟨Place.over [t], e, none⟩ [t] next
  | initial {e value : Expr Place} {t u next : Token} {ts : List Token} (name : Named e t)
      (mark : u.kind = .mark .assign) (inner : Derives (.expr Level.assignment value) ts)
      (stops : Stops ts next Level.assignment) :
      Declares ⟨Place.over (t :: u :: ts), e, some value⟩ (t :: u :: ts) next

inductive DeclaresAll : List (Declarator Place) → List Token → Token → Prop where
  | last {d : Declarator Place} {ts : List Token} {next : Token} (one : Declares d ts next)
      (ends : next.kind ≠ .mark .comma) : DeclaresAll [d] ts next
  | more {d : Declarator Place} {ds : List (Declarator Place)} {t next : Token} {ts us : List Token}
      (one : Declares d ts t) (comma : t.kind = .mark .comma) (rest : DeclaresAll ds us next) :
      DeclaresAll (d :: ds) (ts ++ t :: us) next

/-- The marks around the word `function`. -/
inductive Heads : FunctionHead Place → List Token → Prop where
  | intro {f a b n : Token} {front star ts : List Token} {isAsync isGenerator : Bool}
      {name : Expr Place} {parameters : List (Expr Place)}
      (async : if isAsync then ∃ t : Token, front = [t] ∧ t.kind = .word "async" ∧
        f.newlineBefore = false else front = [])
      (word : f.kind = .word "function")
      (generator : if isGenerator then ∃ t : Token, star = [t] ∧ t.kind = .mark .times
        else star = [])
      (named : Named name n) (opening : a.kind = .mark .openParen)
      (list : Parameters parameters ts) (closing : b.kind = .mark .closeParen) :
      Heads ⟨isAsync, isGenerator, name, parameters⟩ (front ++ f :: (star ++ n :: a :: (ts ++ [b])))

def MayEnd (next : Token) : Prop :=
  next.newlineBefore = true ∨ next.kind = .finish ∨ next.kind = .mark .closeBrace

inductive Terminated : List Token → Token → Prop where
  | semicolon {t next : Token} (mark : t.kind = .mark .semicolon) : Terminated [t] next
  | free {next : Token} (bare : next.kind ≠ .mark .semicolon) (ends : MayEnd next) :
      Terminated [] next

/-- What a list of tokens is read as: a statement, a block or a list of statements. -/
inductive Passage where
  | statement (s : Stmt Place)
  | block (place : Place) (body : List (Stmt Place))
  | body (list : List (Stmt Place))

inductive Forms : Passage → List Token → Token → Prop where
  | declaration {t next : Token} {ts us : List Token} {kind : DeclarationKind}
      {list : List (Declarator Place)} (word : t.kind = .word kind.text)
      (declarators : DeclaresAll list ts (us.headD next)) (ends : Terminated us next) :
      Forms (.statement (.declaration (Place.over (t :: (ts ++ us))) kind list)) (t :: (ts ++ us))
        next
  | function {next : Token} {ts us : List Token} {head : FunctionHead Place} {place : Place}
      {body : List (Stmt Place)} (front : Heads head ts)
      (inner : Forms (.block place body) us next) :
      Forms (.statement (.function (Place.over (ts ++ us)) head place body)) (ts ++ us) next
  | block {next : Token} {ts : List Token} {place : Place} {body : List (Stmt Place)}
      (inner : Forms (.block place body) ts next) :
      Forms (.statement (.block place body)) ts next
  | leave {t next : Token} {us : List Token} (word : t.kind = .word "return")
      (ends : Terminated us next) :
      Forms (.statement (.ret (Place.over (t :: us)) none)) (t :: us) next
  | ret {t next : Token} {ts us : List Token} {argument : Expr Place}
      (word : t.kind = .word "return") (inner : Derives (.expr Level.sequence argument) ts)
      (sameLine : ∀ first ∈ ts.head?, first.newlineBefore = false)
      (stops : Stops ts (us.headD next) Level.sequence) (ends : Terminated us next) :
      Forms (.statement (.ret (Place.over (t :: (ts ++ us))) (some argument))) (t :: (ts ++ us)) next
  | expression {next : Token} {ts us : List Token} {e : Expr Place}
      (inner : Derives (.expr Level.sequence e) ts)
      (stops : Stops ts (us.headD next) Level.sequence) (ends : Terminated us next) :
      Forms (.statement (.expression (Place.over (ts ++ us)) e)) (ts ++ us) next
  | branch {t a b next : Token} {ts us : List Token} {test : Expr Place} {consequent : Stmt Place}
      (word : t.kind = .word "if") (opening : a.kind = .mark .openParen)
      (condition : Derives (.expr Level.sequence test) ts) (closing : b.kind = .mark .closeParen)
      (positive : Forms (.statement consequent) us next) (bare : next.kind ≠ .word "else") :
      Forms (.statement (.branch (Place.over (t :: a :: (ts ++ b :: us))) test consequent none))
        (t :: a :: (ts ++ b :: us)) next
  | choice {t a b c next : Token} {ts us vs : List Token} {test : Expr Place}
      {consequent alternate : Stmt Place}
      (word : t.kind = .word "if") (opening : a.kind = .mark .openParen)
      (condition : Derives (.expr Level.sequence test) ts) (closing : b.kind = .mark .closeParen)
      (positive : Forms (.statement consequent) us c) (other : c.kind = .word "else")
      (negative : Forms (.statement alternate) vs next) :
      Forms (.statement (.branch (Place.over (t :: a :: (ts ++ b :: (us ++ c :: vs)))) test consequent
        (some alternate))) (t :: a :: (ts ++ b :: (us ++ c :: vs))) next
  | empty {t next : Token} (mark : t.kind = .mark .semicolon) :
      Forms (.statement (.empty (Place.over [t]))) [t] next
  | braces {a b next : Token} {ts : List Token} {list : List (Stmt Place)}
      (opening : a.kind = .mark .openBrace) (inner : Forms (.body list) ts b)
      (closing : b.kind = .mark .closeBrace) :
      Forms (.block (Place.over (a :: (ts ++ [b]))) list) (a :: (ts ++ [b])) next
  | done {next : Token} : Forms (.body []) [] next
  | more {next : Token} {ts us : List Token} {s : Stmt Place} {list : List (Stmt Place)}
      (first : Forms (.statement s) ts (us.headD next)) (rest : Forms (.body list) us next) :
      Forms (.body (s :: list)) (ts ++ us) next

end Arborist.Script

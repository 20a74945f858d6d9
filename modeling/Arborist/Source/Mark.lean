/-!
Punctuation marks. The list `Mark.all` has every mark after the longer marks that begin with it, so
the first match in it is the longest one.
-/

namespace Arborist

inductive Mark where
  | shiftRightZero | strictEqual | strictUnequal
  | power | equal | unequal | lessEqual | greaterEqual | shiftLeft | shiftRight | andAnd | orOr
  | plusAssign | minusAssign | timesAssign | divideAssign | remainderAssign
  | plusPlus | minusMinus
  | plus | minus | times | divide | remainder | bitAnd | bitOr | bitXor | not | complement
  | less | greater | assign
  | openParen | closeParen | openBrace | closeBrace | openBracket | closeBracket
  | semicolon | comma | dot | question | colon
  deriving DecidableEq, Repr

namespace Mark

def text : Mark → String
  | .shiftRightZero => ">>>"
  | .strictEqual => "==="
  | .strictUnequal => "!=="
  | .power => "**"
  | .equal => "=="
  | .unequal => "!="
  | .lessEqual => "<="
  | .greaterEqual => ">="
  | .shiftLeft => "<<"
  | .shiftRight => ">>"
  | .andAnd => "&&"
  | .orOr => "||"
  | .plusAssign => "+="
  | .minusAssign => "-="
  | .timesAssign => "*="
  | .divideAssign => "/="
  | .remainderAssign => "%="
  | .plusPlus => "++"
  | .minusMinus => "--"
  | .plus => "+"
  | .minus => "-"
  | .times => "*"
  | .divide => "/"
  | .remainder => "%"
  | .bitAnd => "&"
  | .bitOr => "|"
  | .bitXor => "^"
  | .not => "!"
  | .complement => "~"
  | .less => "<"
  | .greater => ">"
  | .assign => "="
  | .openParen => "("
  | .closeParen => ")"
  | .openBrace => "\x7b"
  | .closeBrace => "\x7d"
  | .openBracket => "["
  | .closeBracket => "]"
  | .semicolon => ";"
  | .comma => ","
  | .dot => "."
  | .question => "?"
  | .colon => ":"

def all : List Mark :=
  [.shiftRightZero, .strictEqual, .strictUnequal, .power, .equal, .unequal, .lessEqual,
    .greaterEqual, .shiftLeft, .shiftRight, .andAnd, .orOr, .plusAssign, .minusAssign,
    .timesAssign, .divideAssign, .remainderAssign, .plusPlus, .minusMinus, .plus, .minus, .times,
    .divide, .remainder, .bitAnd, .bitOr, .bitXor, .not, .complement, .less, .greater, .assign,
    .openParen, .closeParen, .openBrace, .closeBrace, .openBracket, .closeBracket, .semicolon,
    .comma, .dot, .question, .colon]

theorem mem_all (m : Mark) : m ∈ all := by cases m <;> decide

end Mark

end Arborist

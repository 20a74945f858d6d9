import Arborist.Number.Decimal
import Arborist.Source.Line
import Arborist.Source.Mark
import Arborist.Text.Join

/-!
Tokens of a script. A text is cut into pieces from the left: a piece is a gap (blank or comment), a
token or a fault, and it always has at least one character, so the cutting ends. A token records its
bytes in the source and whether a line feed lies in the gap before it.
-/

namespace Arborist

namespace Token

/-- Literals keep their spelling beside their value. -/
inductive Kind where
  | word (name : String)
  | number (value : Number) (raw : String)
  | string (value : String) (raw : String)
  | mark (m : Mark)
  | finish
  deriving DecidableEq, Repr

namespace Kind

def describe : Kind → String
  | .word name => "'" ++ name ++ "'"
  | .number _ raw => "number " ++ raw
  | .string _ raw => "string " ++ raw
  | .mark m => "'" ++ m.text ++ "'"
  | .finish => "end of input"

end Kind

end Token

structure Token where
  kind : Token.Kind
  start : Nat
  stop : Nat
  newlineBefore : Bool
  deriving DecidableEq, Repr

inductive LexicalFault where
  | unterminatedComment
  | unterminatedString
  | unexpectedCharacter (c : Char)
  deriving DecidableEq, Repr

namespace LexicalFault

def message : LexicalFault → String
  | .unterminatedComment => "unterminated comment"
  | .unterminatedString => "unterminated string"
  | .unexpectedCharacter c => "unexpected character '" ++ c.toString ++ "'"

end LexicalFault

namespace Token

/-- A piece at the head of a text, with the number of characters that it has beyond the first. -/
inductive Piece where
  | gap (more : Nat)
  | token (kind : Kind) (more : Nat)
  | fault (cause : LexicalFault)
  deriving DecidableEq, Repr

def isWordStart (c : Char) : Bool := c.isAlpha || c == '_' || c == '$'

def isWordPart (c : Char) : Bool := c.isAlphanum || c == '_' || c == '$'

def isHexDigit (c : Char) : Bool :=
  c.isDigit || ('a' ≤ c && c ≤ 'f') || ('A' ≤ c && c ≤ 'F')

def hexDigitValue (c : Char) : Nat :=
  if c.isDigit then c.toNat - '0'.toNat
  else if 'a' ≤ c then c.toNat - 'a'.toNat + 10
  else c.toNat - 'A'.toNat + 10

/-- Hexadecimal digits stand for a 64-bit word; a larger value is no number. -/
def hexNumber (digits : List Char) : Number :=
  let n := digits.foldl (fun n c => 16 * n + hexDigitValue c) 0
  if n < wordSize then .ofNat n else .nan

def hexDigits (cs : List Char) : List Char :=
  match cs with
  | '0' :: 'x' :: rest => rest.takeWhile isHexDigit
  | '0' :: 'X' :: rest => rest.takeWhile isHexDigit
  | _ => []

def scanNumber (cs : List Char) : Option (Number × Nat) :=
  let digits := hexDigits cs
  if digits.isEmpty then
    match Decimal.scan cs with
    | some (numeral, rest) => some (numeral.toNumber false, cs.length - rest.length)
    | none => none
  else some (hexNumber digits, digits.length + 2)

def escapedChar? (c : Char) : Option Char :=
  match c with
  | 'n' => some '\n'
  | 't' => some '\t'
  | 'r' => some '\r'
  | '0' => some '\x00'
  | '\\' => some '\\'
  | '\x27' => some '\x27'
  | '"' => some '"'
  | _ => none

/-- The decoded text up to the closing `quote`, and the count of characters through it. A line feed
or the end of the text before the quote leaves the string open. -/
def scanString (quote : Char) : List Char → Option (List Char × Nat)
  | [] => none
  | '\\' :: c :: rest =>
    match escapedChar? c, scanString quote rest with
    | some decoded, some (text, n) => some (decoded :: text, n + 2)
    | _, _ => none
  | c :: rest =>
    if c = quote then some ([], 1)
    else if c = '\n' ∨ c = '\\' then none
    else
      match scanString quote rest with
      | some (text, n) => some (c :: text, n + 1)
      | none => none

def commentLength? : List Char → Option Nat
  | [] => none
  | '*' :: '/' :: _ => some 2
  | _ :: rest => (commentLength? rest).map (· + 1)

def startsWith (cs : List Char) (m : Mark) : Bool := m.text.toList.isPrefixOf cs

def pieceOfCode (c : Char) (cs : List Char) : Piece :=
  match scanNumber (c :: cs) with
  | some (value, length) =>
    .token (.number value (String.ofList ((c :: cs).take length))) (length - 1)
  | none =>
    if isWordStart c then
      let rest := cs.takeWhile isWordPart
      .token (.word (String.ofList (c :: rest))) rest.length
    else
      match Mark.all.find? (startsWith (c :: cs)) with
      | some m => .token (.mark m) (m.text.length - 1)
      | none => .fault (.unexpectedCharacter c)

def piece (c : Char) (cs : List Char) : Piece :=
  if Text.isBlank c then .gap 0
  else
    match c, cs with
    | '/', '/' :: rest => .gap (1 + (rest.takeWhile (· != '\n')).length)
    | '/', '*' :: rest =>
      match commentLength? rest with
      | some n => .gap (1 + n)
      | none => .fault .unterminatedComment
    | _, _ =>
      if c = '"' ∨ c = '\x27' then
        match scanString c cs with
        | some (text, n) =>
          .token (.string (String.ofList text) (String.ofList (c :: cs.take n))) n
        | none => .fault .unterminatedString
      else pieceOfCode c cs

/-- The tokens of a text that begins at `offset`; `newline` says that a line feed has been passed
since the last token. The last token is the end of the text. A fault comes with its offset. -/
def scanFrom (offset : Nat) (newline : Bool) (text : List Char) :
    Except (LexicalFault × Nat) (List Token) :=
  match text with
  | [] => .ok [⟨.finish, offset, offset, newline⟩]
  | c :: cs =>
    match piece c cs with
    | .gap n =>
      let skipped := c :: cs.take n
      scanFrom (offset + Text.byteLength skipped) (newline || skipped.contains '\n')
        (cs.drop n)
    | .token kind n =>
      let stop := offset + Text.byteLength (c :: cs.take n)
      match scanFrom stop false (cs.drop n) with
      | .ok rest => .ok (⟨kind, offset, stop, newline⟩ :: rest)
      | .error fault => .error fault
    | .fault cause => .error (cause, offset)
termination_by text.length
decreasing_by
  all_goals simp only [List.length_drop, List.length_cons]; omega

def scan (text : List Char) : Except (LexicalFault × Nat) (List Token) := scanFrom 0 false text

end Token

end Arborist

import Arborist.Script.Encode
import Arborist.Script.Parser

/-!
From source text to a tree of values, with every fault reported at its line and column.
-/

namespace Arborist.Script

inductive ParseError where
  | lexical (fault : LexicalFault) (position : Position)
  | unexpected (expected : Expectation) (found : Token.Kind) (position : Position)
  deriving DecidableEq, Repr

namespace ParseError

def placeText (p : Position) : String :=
  " (" ++ toString p.line ++ ":" ++ toString p.column ++ ")"

def message : ParseError → String
  | .lexical fault position => fault.message ++ placeText position
  | .unexpected expected found position =>
    "Expected " ++ expected.text ++ ", found " ++ found.describe ++ placeText position

end ParseError

structure Source where
  text : List Char
  lines : LineIndex
  length : Nat
  deriving DecidableEq, Repr

namespace Source

def ofString (s : String) : Source :=
  ⟨s.toList, LineIndex.ofText s.toList, Text.byteLength s.toList⟩

def tokens (source : Source) : Except ParseError (List Token) :=
  match Token.scan source.text with
  | .ok list => .ok list
  | .error (fault, offset) => .error (.lexical fault (source.lines.position offset))

def statements (source : Source) : Except ParseError (List (Stmt Place)) :=
  match source.tokens with
  | .error e => .error e
  | .ok list =>
    match Parser.program list with
    | .ok body => .ok body
    | .error ⟨expected, found⟩ =>
      .error (.unexpected expected found.kind (source.lines.position found.start))

end Source

def parseProgram (text : String) : Except ParseError Fields :=
  let source := Source.ofString text
  source.statements.map (programFields source.lines source.length)

def parseFile (text : String) : Except ParseError Fields :=
  let source := Source.ofString text
  source.statements.map (fileFields source.lines source.length)

end Arborist.Script

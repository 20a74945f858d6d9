import Arborist.Number.Layout
import Arborist.Text.Blank
import Arborist.Text.Join
import Arborist.Value.Basic

/-!
Inputs for primitive fields. An input keeps its own copy of the value it was seeded with. An action
answers with the changed input, with the values that it sends to be written, and with how it went.
-/

namespace Arborist

inductive InputError where
  | unknownOption (value : String) (options : List String)
  | notANumber (text : String)
  | notABoolean (text : String)
  deriving DecidableEq, Repr

namespace InputError

def message : InputError → String
  | .unknownOption value options => "'" ++ value ++ "' is not one of: " ++ Text.join " " options
  | .notANumber text => "'" ++ text ++ "' is not a number"
  | .notABoolean text => "'" ++ text ++ "' is not a boolean (expected true or false)"

end InputError

/-- The four kinds of input: one of fixed options, free text, a number being typed, a flag. -/
inductive Input where
  | choice (options : List String) (current : String)
  | text (content : String)
  | number (buffer : String)
  | toggle (checked : Bool)
  deriving DecidableEq, Repr

inductive Action where
  | enter (text : String)
  | select (option : String)
  | next
  | previous
  | insert (c : Char)
  | backspace
  | setText (text : String)
  | increment
  | decrement
  | toggle
  | set (checked : Bool)
  deriving DecidableEq, Repr

/-- An ignored action was not taken up, without that being an error. -/
inductive Outcome where
  | done
  | ignored
  | refused (error : InputError)
  deriving DecidableEq, Repr

structure Response where
  input : Input
  sent : List Value
  outcome : Outcome
  deriving Repr

namespace Input

def boolText (b : Bool) : String := if b then "true" else "false"

def display : Input → String
  | .choice _ current => current
  | .text content => content
  | .number buffer => buffer
  | .toggle checked => boolText checked

def isNumberChar (c : Char) : Bool :=
  c.isDigit || c == '.' || c == '-' || c == '+' || c == 'e' || c == 'E'

def signedNumber? (cs : List Char) : Option Number :=
  let (negative, body) :=
    match cs with
    | '-' :: rest => (true, rest)
    | '+' :: rest => (false, rest)
    | _ => (false, cs)
  match Decimal.ofText? body with
  | none => none
  | some numeral =>
    let n := numeral.toNumber negative
    if n.isFinite then some n else none

def bufferNumber? (buffer : String) : Option Number :=
  signedNumber? (Text.trimChars buffer.toList)

def selected? : Input → Option Nat
  | .choice options current => options.idxOf? current
  | _ => none

namespace Choice

def pick (options : List String) (current : String) (i : Nat) : Response :=
  match options[i]? with
  | some option => ⟨.choice options option, [.string option], .done⟩
  | none => ⟨.choice options current, [], .done⟩

def select (options : List String) (current option : String) : Response :=
  if options.contains option then ⟨.choice options option, [.string option], .done⟩
  else ⟨.choice options current, [], .refused (.unknownOption option options)⟩

/-- After the last option comes the first, and the first follows a value off the list. -/
def next (options : List String) (current : String) : Response :=
  match options.idxOf? current with
  | some i => pick options current ((i + 1) % options.length)
  | none => pick options current 0

def previous (options : List String) (current : String) : Response :=
  match options.idxOf? current with
  | some i => pick options current ((i + options.length - 1) % options.length)
  | none => pick options current (options.length - 1)

end Choice

namespace FreeText

def changed (content : String) : Response := ⟨.text content, [.string content], .done⟩

def backspace (content : String) : Response :=
  if content.isEmpty then ⟨.text content, [], .done⟩
  else changed (String.ofList content.toList.dropLast)

end FreeText

namespace Numeric

/-- A buffer that spells no number is kept and nothing is sent. -/
def changed (buffer : String) : Response :=
  ⟨.number buffer, (bufferNumber? buffer).toList.map .number, .done⟩

def insert (buffer : String) (c : Char) : Response :=
  if isNumberChar c then changed (buffer.push c) else ⟨.number buffer, [], .ignored⟩

def backspace (buffer : String) : Response :=
  if buffer.isEmpty then ⟨.number buffer, [], .done⟩
  else changed (String.ofList buffer.toList.dropLast)

def setText (buffer text : String) : Response :=
  let cs := Text.trimChars text.toList
  if cs.all isNumberChar then changed (String.ofList cs)
  else ⟨.number buffer, [], .refused (.notANumber text)⟩

/-- A text that has the right characters but spells no number is refused only after it has taken
the place of the buffer. -/
def enter (buffer text : String) : Response :=
  let response := setText buffer text
  match response.outcome, response.input with
  | .done, .number next =>
    if (bufferNumber? next).isNone then { response with outcome := .refused (.notANumber text) }
    else response
  | _, _ => response

/-- A buffer that spells no number counts as zero. -/
def stepBy (buffer : String) (delta : Number) : Response :=
  changed (((bufferNumber? buffer).getD (.zero false)).add delta).display

end Numeric

namespace Flag

def set (checked : Bool) : Response := ⟨.toggle checked, [.bool checked], .done⟩

def enter (checked : Bool) (text : String) : Response :=
  let word := Text.trim text
  if word = "true" then set true
  else if word = "false" then set false
  else ⟨.toggle checked, [], .refused (.notABoolean text)⟩

end Flag

def enter (input : Input) (typed : String) : Response :=
  match input with
  | .choice options current => Choice.select options current typed
  | .text _ => FreeText.changed typed
  | .number buffer => Numeric.enter buffer typed
  | .toggle checked => Flag.enter checked typed

/-- What an action does to an input; none when that kind of input has no such action. -/
def act? (input : Input) (action : Action) : Option Response :=
  match action, input with
  | .enter typed, input => some (input.enter typed)
  | .select option, .choice options current => some (Choice.select options current option)
  | .next, .choice options current => some (Choice.next options current)
  | .previous, .choice options current => some (Choice.previous options current)
  | .setText typed, .text _ => some (FreeText.changed typed)
  | .insert c, .text content => some (FreeText.changed (content.push c))
  | .backspace, .text content => some (FreeText.backspace content)
  | .setText typed, .number buffer => some (Numeric.setText buffer typed)
  | .insert c, .number buffer => some (Numeric.insert buffer c)
  | .backspace, .number buffer => some (Numeric.backspace buffer)
  | .increment, .number buffer => some (Numeric.stepBy buffer Number.one)
  | .decrement, .number buffer => some (Numeric.stepBy buffer Number.minusOne)
  | .toggle, .toggle checked => some (Flag.set (!checked))
  | .set checked, .toggle _ => some (Flag.set checked)
  | _, _ => none

end Input

end Arborist

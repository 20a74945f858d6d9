import Arborist.Value.Basic

/-!
Reading a value from JSON text. The grammar is strict: no comma after the last item, no leading
zero, no control character in a string, no half of a surrogate pair, nothing after the value. A
number that rounds to an infinity is refused, and so are lists and objects nested too deep.
-/

namespace Arborist.Value

def isJsonBlank (c : Char) : Bool := c == ' ' || c == '\t' || c == '\n' || c == '\r'

def skipBlank (cs : List Char) : List Char := cs.dropWhile isJsonBlank

def hexValue? (c : Char) : Option Nat :=
  if c.isDigit then some (c.toNat - '0'.toNat)
  else if 'a' ≤ c ∧ c ≤ 'f' then some (c.toNat - 'a'.toNat + 10)
  else if 'A' ≤ c ∧ c ≤ 'F' then some (c.toNat - 'A'.toNat + 10)
  else none

def hexFour? (a b c d : Char) : Option Nat := do
  return ((← hexValue? a) * 16 + (← hexValue? b)) * 256 + ((← hexValue? c) * 16 + (← hexValue? d))

def simpleEscape? (c : Char) : Option Char :=
  match c with
  | '"' => some '"'
  | '\\' => some '\\'
  | '/' => some '/'
  | 'b' => some '\x08'
  | 'f' => some '\x0c'
  | 'n' => some '\n'
  | 'r' => some '\r'
  | 't' => some '\t'
  | _ => none

def readString (cs : List Char) : Option (List Char × List Char) :=
  match cs with
  | [] => none
  | '"' :: rest => some ([], rest)
  | '\\' :: 'u' :: a :: b :: c :: d :: rest =>
    match hexFour? a b c d with
    | none => none
    | some unit =>
      if unit < 0xD800 ∨ 0xDFFF < unit then
        match readString rest with
        | some (text, after) => some (Char.ofNat unit :: text, after)
        | none => none
      else if 0xDBFF < unit then none
      else
        match rest with
        | '\\' :: 'u' :: a' :: b' :: c' :: d' :: more =>
          match hexFour? a' b' c' d' with
          | none => none
          | some low =>
            if 0xDC00 ≤ low ∧ low ≤ 0xDFFF then
              match readString more with
              | some (text, after) =>
                let code := 0x10000 + (unit - 0xD800) * 0x400 + (low - 0xDC00)
                some (Char.ofNat code :: text, after)
              | none => none
            else none
        | _ => none
  | '\\' :: c :: rest =>
    match simpleEscape? c with
    | none => none
    | some decoded =>
      match readString rest with
      | some (text, after) => some (decoded :: text, after)
      | none => none
  | c :: rest =>
    if c.toNat < 0x20 ∨ c = '\\' then none
    else
      match readString rest with
      | some (text, after) => some (c :: text, after)
      | none => none

def readWhole (cs : List Char) : Option (List Char × List Char) :=
  match cs with
  | '0' :: rest => some (['0'], rest)
  | _ =>
    let digits := cs.takeWhile Char.isDigit
    if digits.isEmpty then none else some (digits, cs.dropWhile Char.isDigit)

def readFraction (cs : List Char) : Option (List Char × List Char) :=
  match cs with
  | '.' :: rest =>
    let digits := rest.takeWhile Char.isDigit
    if digits.isEmpty then none else some (digits, rest.dropWhile Char.isDigit)
  | _ => some ([], cs)

def readPower (cs : List Char) : Option (Int × List Char) :=
  match cs with
  | 'e' :: _ => Decimal.scanExponent cs
  | 'E' :: _ => Decimal.scanExponent cs
  | _ => some (0, cs)

def readMagnitude (negative : Bool) (cs : List Char) : Option (Number × List Char) := do
  let (whole, afterWhole) ← readWhole cs
  let (fraction, afterFraction) ← readFraction afterWhole
  let (power, rest) ← readPower afterFraction
  let numeral : Decimal := ⟨Decimal.natOfDigits (whole ++ fraction), power - fraction.length⟩
  let number := numeral.toNumber negative
  if number.isFinite then some (number, rest) else none

def readNumber (cs : List Char) : Option (Number × List Char) :=
  match cs with
  | '-' :: rest => readMagnitude true rest
  | _ => readMagnitude false cs

/-- How deep lists and objects may be nested. -/
def maxDepth : Nat := 127

mutual

/-- A value at the head of the text, with `depth` levels of nesting left. Each level and each item
takes one unit of fuel. -/
def readValue : Nat → Nat → List Char → Option (Value × List Char)
  | 0, _, _ => none
  | fuel + 1, depth, cs =>
    match skipBlank cs with
    | 'n' :: 'u' :: 'l' :: 'l' :: rest => some (.null, rest)
    | 't' :: 'r' :: 'u' :: 'e' :: rest => some (.bool true, rest)
    | 'f' :: 'a' :: 'l' :: 's' :: 'e' :: rest => some (.bool false, rest)
    | '"' :: rest => do
      let (text, after) ← readString rest
      return (.string (String.ofList text), after)
    | '[' :: rest =>
      match depth, skipBlank rest with
      | 0, _ => none
      | _ + 1, ']' :: after => some (.list [], after)
      | inner + 1, _ => do
        let (items, after) ← readItems fuel inner rest
        return (.list items, after)
    | '{' :: rest =>
      match depth, skipBlank rest with
      | 0, _ => none
      | _ + 1, '}' :: after => some (.object [], after)
      | inner + 1, _ => do
        let (entries, after) ← readEntries fuel inner rest
        return (.object (Fields.ofEntries entries), after)
    | rest => do
      let (n, after) ← readNumber rest
      return (.number n, after)

def readItems : Nat → Nat → List Char → Option (List Value × List Char)
  | 0, _, _ => none
  | fuel + 1, depth, cs => do
    let (item, rest) ← readValue fuel depth cs
    match skipBlank rest with
    | ']' :: after => return ([item], after)
    | ',' :: more =>
      let (items, after) ← readItems fuel depth more
      return (item :: items, after)
    | _ => none

def readEntries : Nat → Nat → List Char → Option (List (String × Value) × List Char)
  | 0, _, _ => none
  | fuel + 1, depth, cs =>
    match skipBlank cs with
    | '"' :: rest => do
      let (key, afterKey) ← readString rest
      match skipBlank afterKey with
      | ':' :: more =>
        let (value, afterValue) ← readValue fuel depth more
        match skipBlank afterValue with
        | '}' :: after => return ([(String.ofList key, value)], after)
        | ',' :: next =>
          let (entries, after) ← readEntries fuel depth next
          return ((String.ofList key, value) :: entries, after)
        | _ => none
      | _ => none
    | _ => none

end

def ofJson? (text : String) : Option Value :=
  let cs := text.toList
  match readValue (2 * cs.length + 2) maxDepth cs with
  | some (value, rest) => if (skipBlank rest).isEmpty then some value else none
  | none => none

end Arborist.Value

import Arborist.Text.Join
import Arborist.Value.Basic

/-!
JSON text of a value, on one line or indented. Numbers that are not finite are written as `null`, so
every written text can be read again.
-/

namespace Arborist.Value

/-- JSON numbers are plain from 10^-5 up to 10^16, and whole numbers there end in `.0`. -/
def numberLayout : Layout where
  plainFrom := -5
  plainTo := 16
  tie := .toEven
  exactWhole := false
  wholePoint := true
  signedZero := true

def numberText? : Number → Option String
  | .finite negative mantissa exponent _ => some (numberLayout.finite negative mantissa exponent)
  | _ => none

def hexDigit (n : Nat) : Char :=
  if n < 10 then Char.ofNat ('0'.toNat + n) else Char.ofNat ('a'.toNat + (n - 10))

def escapeChar (c : Char) : List Char :=
  if c = '"' then ['\\', '"']
  else if c = '\\' then ['\\', '\\']
  else if c = '\n' then ['\\', 'n']
  else if c = '\r' then ['\\', 'r']
  else if c = '\t' then ['\\', 't']
  else if c = '\x08' then ['\\', 'b']
  else if c = '\x0c' then ['\\', 'f']
  else if c.toNat < 0x20 then
    ['\\', 'u', '0', '0', hexDigit (c.toNat / 16), hexDigit (c.toNat % 16)]
  else [c]

def quoted (s : String) : String :=
  "\"" ++ String.ofList (s.toList.flatMap escapeChar) ++ "\""

mutual

def compact : Value → String
  | .null => "null"
  | .bool b => if b then "true" else "false"
  | .number n => (numberText? n).getD "null"
  | .string s => quoted s
  | .list items => "[" ++ Text.join "," (compactItems items) ++ "]"
  | .object fields => "\x7b" ++ Text.join "," (compactFields fields) ++ "\x7d"

def compactItems : List Value → List String
  | [] => []
  | item :: rest => item.compact :: compactItems rest

def compactFields : List (String × Value) → List String
  | [] => []
  | (key, value) :: rest => (quoted key ++ ":" ++ value.compact) :: compactFields rest

end

def margin (depth : Nat) : String := Text.blanks (2 * depth)

def enclose (opening closing : String) (depth : Nat) (parts : List String) : String :=
  if parts.isEmpty then opening ++ closing
  else
    opening ++ "\n" ++ margin (depth + 1) ++
      Text.join (",\n" ++ margin (depth + 1)) parts ++ "\n" ++ margin depth ++ closing

mutual

def prettyAt (depth : Nat) : Value → String
  | .null => "null"
  | .bool b => if b then "true" else "false"
  | .number n => (numberText? n).getD "null"
  | .string s => quoted s
  | .list items => enclose "[" "]" depth (prettyItems (depth + 1) items)
  | .object fields => enclose "\x7b" "\x7d" depth (prettyFields (depth + 1) fields)

def prettyItems (depth : Nat) : List Value → List String
  | [] => []
  | item :: rest => item.prettyAt depth :: prettyItems depth rest

def prettyFields (depth : Nat) : List (String × Value) → List String
  | [] => []
  | (key, value) :: rest =>
    (quoted key ++ ": " ++ value.prettyAt depth) :: prettyFields depth rest

end

def pretty (v : Value) : String := v.prettyAt 0

end Arborist.Value

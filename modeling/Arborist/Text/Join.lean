import Arborist.Text.Blank

/-!
Putting texts together, taking them apart and looking at how they begin. The length of a text in
bytes is that of its UTF-8 form.
-/

namespace Arborist.Text

def byteLength : List Char → Nat
  | [] => 0
  | c :: cs => c.utf8Size + byteLength cs

def join (separator : String) : List String → String
  | [] => ""
  | [part] => part
  | part :: rest => part ++ separator ++ join separator rest

def beginsWith (text start : String) : Bool := start.toList.isPrefixOf text.toList

def splitWhere (cut : Char → Bool) : List Char → List (List Char)
  | [] => [[]]
  | c :: rest =>
    if cut c then [] :: splitWhere cut rest
    else
      match splitWhere cut rest with
      | [] => [[c]]
      | part :: parts => (c :: part) :: parts

def split (separator : Char) : List Char → List (List Char) := splitWhere (· == separator)

def words (cs : List Char) : List (List Char) :=
  (splitWhere isBlank cs).filter fun word => !word.isEmpty

def dropReturn (line : List Char) : List Char :=
  if line.getLast? = some '\r' then line.dropLast else line

def lines (cs : List Char) : List (List Char) :=
  let parts := split '\n' cs
  let ended := parts.dropLast.map dropReturn
  match parts.getLast? with
  | some [] => ended
  | some last => ended ++ [last]
  | none => ended

def blanks (n : Nat) : String := String.ofList (List.replicate n ' ')

end Arborist.Text

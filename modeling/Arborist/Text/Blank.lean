/-!
White space. A character is blank when it has the Unicode property White_Space, and trimming and
splitting into words go by that property.
-/

namespace Arborist.Text

def blankRanges : List (Nat × Nat) :=
  [(0x09, 0x0D), (0x20, 0x20), (0x85, 0x85), (0xA0, 0xA0), (0x1680, 0x1680), (0x2000, 0x200A),
    (0x2028, 0x2029), (0x202F, 0x202F), (0x205F, 0x205F), (0x3000, 0x3000)]

def inRanges (ranges : List (Nat × Nat)) (c : Char) : Bool :=
  ranges.any fun range => range.1 ≤ c.toNat && c.toNat ≤ range.2

def isBlank (c : Char) : Bool := inRanges blankRanges c

def dropBlank (cs : List Char) : List Char := cs.dropWhile isBlank

def trimChars (cs : List Char) : List Char := (dropBlank (dropBlank cs).reverse).reverse

def trim (s : String) : String := String.ofList (trimChars s.toList)

def nextWord? (cs : List Char) : Option (List Char × List Char) :=
  match dropBlank cs with
  | [] => none
  | word => some (word.takeWhile (fun c => !isBlank c), word.dropWhile (fun c => !isBlank c))

end Arborist.Text

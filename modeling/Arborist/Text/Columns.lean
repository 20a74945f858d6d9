import Arborist.Text.Emoji
import Arborist.Text.Width

/-!
Columns of a text. A character mostly takes as many as it does alone, but a selector, a joiner, a
skin tone or a sign for a subscript changes the width of what stands before it. So a text is
measured from its end, and `Sequel` is what a character has to know of those behind it.
-/

namespace Arborist.Text

def joiner : Char := Char.ofNat 0x200D

def blackFlag : Char := Char.ofNat 0x1F3F4

inductive Form where
  | text
  | picture
  deriving DecidableEq, Repr

namespace Form

def ofChar? (c : Char) : Option Form :=
  if c.toNat = 0xFE0E then some .text
  else if c.toNat = 0xFE0F then some .picture
  else none

end Form

inductive Sequel where
  | plain
  | lineFeed
  /-- A Khmer letter that the sign before it makes a subscript. -/
  | letter
  | picture
  | tone
  /-- A joiner and a picture. -/
  | joined
  /-- A keycap, a joiner and a picture. -/
  | keycap
  /-- Regional indicators, a joiner and a picture. -/
  | flag (even : Bool)
  /-- Tags that end before a joiner and a picture. -/
  | tags (letters digits : Nat)
  deriving DecidableEq, Repr

def khmerLetterRanges : List (Nat × Nat) :=
  [(0x1780, 0x1782), (0x1784, 0x1787), (0x1789, 0x178C), (0x178E, 0x1793), (0x1795, 0x1798),
    (0x179B, 0x179D), (0x17A0, 0x17A0), (0x17A2, 0x17A2), (0x17A7, 0x17A7), (0x17AB, 0x17AC),
    (0x17AF, 0x17AF)]

def ignoredMarkRanges : List (Nat × Nat) :=
  [(0x34F, 0x34F), (0x17B4, 0x17B5), (0x180B, 0x180D), (0x180F, 0x180F), (0xFE00, 0xFE0F),
    (0xE0100, 0xE01EF)]

def isTagLetter (c : Char) : Bool := 0xE0061 ≤ c.toNat && c.toNat ≤ 0xE007A

def isTagDigit (c : Char) : Bool := 0xE0030 ≤ c.toNat && c.toNat ≤ 0xE0039

namespace Sequel

def alone (c : Char) : Int × Sequel :=
  if inRanges khmerLetterRanges c then (1, .letter)
  else if isTone c then (2, .tone)
  else if isPicture c then (2, .picture)
  else (charWidth c, .plain)

def beforeLetter? (c : Char) : Option (Int × Sequel) :=
  if c.toNat = 0x17D2 then some (-1, .plain)
  else if c = joiner ∨ inRanges ignoredMarkRanges c then some (0, .letter)
  else none

def beforeTone? (c : Char) : Option (Int × Sequel) :=
  if isToned c then some (0, .picture)
  else if c = joiner then some (0, .joined)
  else none

/-- In front of a joined picture a picture takes no room of its own. -/
def beforeJoined? (c : Char) : Option (Int × Sequel) :=
  if c.toNat = 0x20E3 then some (0, .keycap)
  else if isRegional c then some (1, .flag false)
  else if isTone c then some (0, .tone)
  else if c.toNat = 0xE007F then some (0, .tags 0 0)
  else if isPicture c then some (0, .picture)
  else none

/-- A black flag with the tags of a region is one picture: three to six letters, or up to four
letters with three digits before them. -/
def beforeTags? (letters digits : Nat) (c : Char) : Option (Int × Sequel) :=
  if isTagLetter c ∧ digits = 0 ∧ letters < 6 then some (0, .tags (letters + 1) 0)
  else if isTagDigit c ∧ digits < 3 ∧ (0 < digits ∨ letters ≤ 4) then
    some (0, .tags letters (digits + 1))
  else if c = blackFlag ∧ (digits = 3 ∨ (digits = 0 ∧ 3 ≤ letters)) then some (0, .picture)
  else none

/-- The width of a character that the text behind it changes. The second of two regional indicators
gives back the column of the first, since the flag is part of the joined picture. -/
def before? (next : Sequel) (c : Char) : Option (Int × Sequel) :=
  match next with
  | .plain => none
  | .lineFeed => none
  | .letter => beforeLetter? c
  | .picture => if c = joiner then some (0, .joined) else none
  | .tone => beforeTone? c
  | .joined => beforeJoined? c
  | .keycap => none
  | .flag even =>
    if isRegional c then some (if even then 3 else -1, .flag (!even)) else none
  | .tags letters digits => beforeTags? letters digits c

def underSelector (next : Sequel) (form : Form) : Sequel :=
  match next, form with
  | .letter, _ => .letter
  | .joined, .picture => .joined
  | .keycap, .picture => .keycap
  | _, _ => .plain

def released (next : Sequel) : Sequel :=
  match next with
  | .letter => .letter
  | _ => .plain

def isJoined (next : Sequel) : Bool :=
  match next with
  | .joined => true
  | .keycap => true
  | _ => false

end Sequel

/-- The columns of a text with what it is to the character before it, and the selector at its head
that waits for one. -/
structure Measure where
  columns : Int
  sequel : Sequel
  form : Option Form
  deriving DecidableEq, Repr

namespace Measure

def empty : Measure := ⟨0, .plain, none⟩

def add (m : Measure) (columns : Int) (sequel : Sequel) : Measure :=
  ⟨m.columns + columns, sequel, none⟩

/-- A low character takes one column, but a carriage return takes none before a line feed. -/
def pushLow (m : Measure) (c : Char) : Measure :=
  if c = '\n' then m.add 1 .lineFeed
  else if c = '\r' ∧ m.sequel = .lineFeed then m.add 0 .plain
  else m.add 1 .plain

def pushPlain (m : Measure) (c : Char) : Measure :=
  if c.toNat ≤ 0xA0 then m.pushLow c
  else
    match Form.ofChar? c with
    | some form => { m with sequel := m.sequel.underSelector form, form := some form }
    | none =>
      if m.form = some .text ∧ hasNarrowForm c then m.add 1 .plain
      else
        let (columns, sequel) := (m.sequel.before? c).getD (Sequel.alone c)
        m.add columns sequel

def push (m : Measure) (c : Char) : Measure :=
  if m.form = some .picture then
    if hasPictureForm c then m.add (if m.sequel.isJoined then 0 else 2) .picture
    else (⟨m.columns, m.sequel.released, none⟩ : Measure).pushPlain c
  else m.pushPlain c

def ofChars : List Char → Measure
  | [] => empty
  | c :: rest => (ofChars rest).push c

end Measure

def width (cs : List Char) : Nat := (Measure.ofChars cs).columns.toNat

end Arborist.Text

import Arborist.Text.BreakClass

/-!
Clusters: the pieces of a text that are shown as one symbol each. Reading from the left, `Tail`
keeps what the next character has to know of those before it.
-/

namespace Arborist.Text

/-- The end of the text read so far: the class of its last character, whether an odd number of
regional indicators, a pictograph with marks or a consonant with marks stands there, and whether a
linker is among the marks of that consonant. -/
structure Tail where
  last : BreakClass
  oddRegional : Bool
  pictograph : Bool
  consonant : Bool
  linked : Bool
  deriving DecidableEq, Repr

namespace Tail

def start (k : BreakClass) : Tail :=
  ⟨k, k == .regional, k == .pictograph, k == .consonant, false⟩

/-- A joiner ends the marks of a pictograph. -/
def next (t : Tail) (k : BreakClass) : Tail where
  last := k
  oddRegional := k == .regional && !t.oddRegional
  pictograph := k == .pictograph ||
    (t.pictograph && t.last != .joiner && (k.extendsPictograph || k == .joiner))
  consonant := k == .consonant || (t.consonant && k.extendsConjunct)
  linked := t.consonant && k.extendsConjunct && (t.linked || k == .linker)

def joinsSyllable (before k : BreakClass) : Bool :=
  match before, k with
  | .leadingJamo, .leadingJamo => true
  | .leadingJamo, .vowelJamo => true
  | .leadingJamo, .openSyllable => true
  | .leadingJamo, .closedSyllable => true
  | .openSyllable, .vowelJamo => true
  | .openSyllable, .trailingJamo => true
  | .vowelJamo, .vowelJamo => true
  | .vowelJamo, .trailingJamo => true
  | .closedSyllable, .trailingJamo => true
  | .trailingJamo, .trailingJamo => true
  | _, _ => false

def joins (t : Tail) (k : BreakClass) : Bool :=
  if t.last.isControl || k.isControl then t.last == .carriageReturn && k == .lineFeed
  else
    k.isTrailing || t.last == .prepended || joinsSyllable t.last k ||
      (k == .consonant && t.linked) ||
      (k == .pictograph && t.last == .joiner && t.pictograph) ||
      (k == .regional && t.oddRegional)

end Tail

def clustersAfter (tail : Tail) : List Char → List Char × List (List Char)
  | [] => ([], [])
  | c :: rest =>
    let kind := BreakClass.ofChar c
    let (more, groups) := clustersAfter (tail.next kind) rest
    if tail.joins kind then (c :: more, groups) else ([], (c :: more) :: groups)

def clusters (cs : List Char) : List (List Char) :=
  match cs with
  | [] => []
  | c :: rest =>
    let (more, groups) := clustersAfter (.start (.ofChar c)) rest
    (c :: more) :: groups

end Arborist.Text

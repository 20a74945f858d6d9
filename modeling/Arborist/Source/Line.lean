/-!
Lines of a source text. Offsets and columns count bytes, lines count from one, and a line starts
right after a line feed.
-/

namespace Arborist

structure Position where
  line : Nat
  column : Nat
  deriving DecidableEq, Repr

/-- The offsets at which lines start, in increasing order, the first of them zero. -/
structure LineIndex where
  starts : List Nat
  deriving DecidableEq, Repr

namespace LineIndex

def startsFrom (offset : Nat) : List Char → List Nat
  | [] => []
  | c :: cs =>
    let next := offset + c.utf8Size
    if c = '\n' then next :: startsFrom next cs else startsFrom next cs

def ofText (cs : List Char) : LineIndex := ⟨0 :: startsFrom 0 cs⟩

/-- Bisects the starts from `low` up to `high`. The answer is the index at which the offset stands, or
else the one at which it would have to be put in. -/
def bisect (starts : List Nat) (offset low high : Nat) (inside : high ≤ starts.length) :
    Except Nat Nat :=
  if some : low < high then
    let middle := low + (high - low) / 2
    have within : middle < starts.length := by omega
    if starts[middle] = offset then .ok middle
    else if starts[middle] < offset then bisect starts offset (middle + 1) high inside
    else bisect starts offset low middle (by omega)
  else .error low
termination_by high - low

def search (index : LineIndex) (offset : Nat) : Except Nat Nat :=
  bisect index.starts offset 0 index.starts.length (Nat.le_refl _)

/-- An offset that is no line start belongs to the line before the one that it would open; past the
end that is the last line. -/
def position (index : LineIndex) (offset : Nat) : Position :=
  let line :=
    match index.search offset with
    | .ok line => line
    | .error next => next - 1
  ⟨line + 1, offset - index.starts[line]?.getD 0⟩

end LineIndex

end Arborist

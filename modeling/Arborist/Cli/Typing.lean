import Arborist.Text.Cluster
import Arborist.Text.Join

/-!
Lines as they are typed. A backspace takes back the cluster before it, so it never leaves half a
symbol behind.
-/

namespace Arborist.Cli

def backspace : Char := '\x08'

structure Typing where
  reversed : List Char
  sizes : List Nat
  deriving DecidableEq, Repr

namespace Typing

def start : Typing := ⟨[], []⟩

def dropBytes : Nat → List Char → List Char
  | 0, cs => cs
  | _ + 1, [] => []
  | size + 1, c :: rest => dropBytes (size + 1 - c.utf8Size) rest

/-- Takes in the next cluster. Its size is kept in one byte, so that of a cluster with 256 bytes or
more only the excess over a multiple of 256 can be taken back. -/
def take (t : Typing) (cluster : List Char) : Typing :=
  if cluster = [backspace] then
    match t.sizes with
    | [] => t
    | size :: earlier => ⟨dropBytes size t.reversed, earlier⟩
  else ⟨cluster.reverse ++ t.reversed, Text.byteLength cluster % 256 :: t.sizes⟩

end Typing

/-- The line that is left when its backspaces have been obeyed. -/
def typedLine (cs : List Char) : List Char :=
  ((Text.clusters cs).foldl Typing.take Typing.start).reversed.reverse

end Arborist.Cli

import Arborist.Number.Decimal
import Arborist.Text.Alphanumeric
import Arborist.Text.Join
import Arborist.Value.Basic

/-!
Addresses inside a tree. A path leads from the root to a node, step by step through fields that hold
a node or a list with one; a target is a field of the node at a path. Nothing holds a node itself,
so an address is looked up in whatever the tree is at that moment.
-/

namespace Arborist

structure Step where
  field : String
  index : Option Nat
  deriving DecidableEq, Repr

abbrev Path := List Step

inductive PathError where
  | invalidSegment (text : String)
  deriving DecidableEq, Repr

namespace PathError

def message : PathError → String
  | .invalidSegment text => "invalid path segment '" ++ text ++ "'"

end PathError

namespace Step

def text (step : Step) : String :=
  match step.index with
  | none => step.field
  | some i => step.field ++ "[" ++ Decimal.digitText i ++ "]"

def value? (step : Step) (node : Fields) : Option Value :=
  match node.get? step.field, step.index with
  | none, _ => none
  | some value, none => some value
  | some value, some i => value.asList?.bind fun items => items[i]?

def focus? (step : Step) (node : Fields) : Option (Focus Value Fields) :=
  match node.focus? step.field with
  | none => none
  | some held =>
    match step.index, held.here with
    | some i, .list items =>
      items[i]?.map fun item => ⟨item, fun next => held.put (.list (items.set i next))⟩
    | some _, _ => none
    | none, _ => some held

def isFieldChar (c : Char) : Bool := Text.isAlphanumeric c || c == '_'

def read (cs : List Char) : Except PathError Step :=
  let invalid : PathError := .invalidSegment (String.ofList cs)
  let field := cs.takeWhile (· != '[')
  let fieldOk := !field.isEmpty && field.all isFieldChar
  match cs.dropWhile (· != '[') with
  | [] => if fieldOk then .ok ⟨String.ofList field, none⟩ else .error invalid
  | _ :: rest =>
    if rest.getLast? = some ']' then
      match Decimal.readCount? rest.dropLast with
      | some i => if fieldOk then .ok ⟨String.ofList field, some i⟩ else .error invalid
      | none => .error invalid
    else .error invalid

def compare (a b : Step) : Ordering :=
  (Ord.compare a.field b.field).then
    (match a.index, b.index with
      | none, none => .eq
      | none, some _ => .lt
      | some _, none => .gt
      | some i, some j => Ord.compare i j)

end Step

namespace Path

def root : Path := []

def child (path : Path) (field : String) : Path := path ++ [⟨field, none⟩]

def element (path : Path) (field : String) (i : Nat) : Path := path ++ [⟨field, some i⟩]

def parent? (path : Path) : Option Path :=
  if path.isEmpty then none else some path.dropLast

def under (path above : Path) : Bool := above.isPrefixOf path

/-- The node that a path leads to. Below the root only objects with a kind count. -/
def resolve : Path → Fields → Option Fields
  | [], node => some node
  | step :: rest, node =>
    match (step.value? node).bind Value.asNode? with
    | none => none
    | some inner => resolve rest inner

/-- The node that a path leads to, to be written. It goes its own way down: each step holds the value
that it leads to, and that value holds the node in it. -/
def focus? : Path → Fields → Option (Focus Fields Fields)
  | [], node => some ⟨node, id⟩
  | step :: rest, node =>
    match step.focus? node with
    | none => none
    | some held =>
      match held.here.focusNode? with
      | none => none
      | some inner =>
        (focus? rest inner.here).map fun deep =>
          ⟨deep.here, fun next => held.put (inner.put (deep.put next))⟩

def text (path : Path) : String :=
  if path.isEmpty then "." else Text.join "." (path.map Step.text)

def readSteps : List (List Char) → Except PathError Path
  | [] => .ok []
  | segment :: rest =>
    match Step.read segment with
    | .error e => .error e
    | .ok step =>
      match readSteps rest with
      | .error e => .error e
      | .ok path => .ok (step :: path)

def ofText (s : String) : Except PathError Path :=
  let cs := Text.trimChars s.toList
  if cs = [] ∨ cs = ['.'] then .ok root else readSteps (Text.split '.' cs)

/-- Step by step, and a path before those that lead below it. -/
def compare : Path → Path → Ordering
  | [], [] => .eq
  | [], _ :: _ => .lt
  | _ :: _, [] => .gt
  | a :: as, b :: bs => (a.compare b).then (compare as bs)

end Path

/-- A field of the node at a path. -/
structure Target where
  path : Path
  field : String
  deriving DecidableEq, Repr

namespace Target

def text (target : Target) : String :=
  if target.path.isEmpty then target.field else target.path.text ++ "." ++ target.field

/-- The tree with a value written into a field, if there is a node to hold it. -/
def write? (target : Target) (value : Value) (root : Fields) : Option Fields :=
  (target.path.focus? root).map fun node => node.put (node.here.insert target.field value)

end Target

end Arborist

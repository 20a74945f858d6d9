import Arborist.Script.Decode
import Arborist.Widget.Registry

/-!
The editor owns the tree. Edits wait in a queue until they are pumped; each one is written into the
tree and the whole tree is then compiled again. A write is kept even if the tree no longer compiles,
and the last good code is kept beside the error. The compiler is any function on trees.
-/

namespace Arborist

open Script (CompileError)

abbrev Compiler := Fields → Except CompileError String

inductive EditError where
  | nodeNotFound (path : Path)
  | compile (error : CompileError)
  deriving DecidableEq, Repr

namespace EditError

def message : EditError → String
  | .nodeNotFound path => "No node at path '" ++ path.text ++ "'"
  | .compile error => error.message

end EditError

structure Editor where
  root : Fields
  code : String
  lastError : Option CompileError
  pending : List Edit
  recompiles : Nat
  deriving Repr

namespace Editor

def create (compiler : Compiler) (root : Fields) : Except CompileError Editor :=
  (compiler root).map fun code => ⟨root, code, none, [], 1⟩

def recompile (compiler : Compiler) (editor : Editor) : Editor × Except CompileError String :=
  let counted := { editor with recompiles := editor.recompiles + 1 }
  match compiler editor.root with
  | .ok code => ({ counted with code := code, lastError := none }, .ok code)
  | .error e => ({ counted with lastError := some e }, .error e)

/-- Writes a field without compiling. -/
def write (editor : Editor) (edit : Edit) : Editor × Except EditError Unit :=
  match edit.target.write? edit.value editor.root with
  | some root => ({ editor with root := root }, .ok ())
  | none => (editor, .error (.nodeNotFound edit.target.path))

/-- Writes and compiles. The write is kept even if compiling fails. -/
def apply (compiler : Compiler) (editor : Editor) (edit : Edit) :
    Editor × Except EditError Unit :=
  match editor.write edit with
  | (unchanged, .error e) => (unchanged, .error e)
  | (written, .ok _) =>
    match written.recompile compiler with
    | (compiled, .ok _) => (compiled, .ok ())
    | (compiled, .error e) => (compiled, .error (.compile e))

def send (editor : Editor) (edit : Edit) : Editor :=
  { editor with pending := editor.pending ++ [edit] }

/-- Applies edits in order. The first failure ends it: that edit is spent and those behind it stay
in the queue. -/
def pumpEdits (compiler : Compiler) (applied : Nat) :
    List Edit → Editor → Editor × Except EditError Nat
  | [], editor => ({ editor with pending := [] }, .ok applied)
  | edit :: rest, editor =>
    match ({ editor with pending := rest }).apply compiler edit with
    | (next, .ok _) => pumpEdits compiler (applied + 1) rest next
    | (next, .error e) => (next, .error e)

def pump (compiler : Compiler) (editor : Editor) : Editor × Except EditError Nat :=
  pumpEdits compiler 0 editor.pending editor

end Editor

end Arborist

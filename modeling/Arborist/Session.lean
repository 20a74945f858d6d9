import Arborist.Editor
import Arborist.Script.Source
import Arborist.View

/-!
What both front ends start from: an editor and a view over one source text.
-/

namespace Arborist

open Script (ParseError CompileError)

inductive OpenError where
  | parse (error : ParseError)
  | compile (error : CompileError)
  deriving DecidableEq, Repr

namespace OpenError

def message : OpenError → String
  | .parse error => "Parse error: " ++ error.message
  | .compile error => "Compile error: " ++ error.message

end OpenError

def defaultSource : String :=
  "var a = 10;\n\nfunction sum(a, b) \x7b\n  var result = a + b;\n  return result;\n\x7d"

def version : String := "0.1.0"

structure Session where
  width : Nat
  editor : Editor
  view : View
  deriving Repr

namespace Session

def openSource (width : Nat) (source : String) : Except OpenError Session :=
  match Script.parseProgram source with
  | .error e => .error (.parse e)
  | .ok root =>
    match Editor.create (Script.compile width) root with
    | .error e => .error (.compile e)
    | .ok editor => .ok ⟨width, editor, View.create Registry.builtin⟩

def root (s : Session) : Fields := s.editor.root

def rows (s : Session) : List Row × Session :=
  let (rows, view) := s.view.rows s.root
  (rows, { s with view := view })

def toggle (s : Session) (path : Path) : Session × Except ViewError Toggle :=
  let (view, result) := s.view.toggle s.root path
  ({ s with view := view }, result)

def send (s : Session) (edits : List Edit) : Session :=
  { s with editor := edits.foldl Editor.send s.editor }

/-- Puts back the widget of a target when it has been acted on, and queues what it sent. -/
def settle (s : Session) (target : Target) (w : Widget) (sent : List Edit) : Session :=
  { s with view := s.view.setWidget target w }.send sent

def pump (s : Session) : Session × Except EditError Nat :=
  let (editor, result) := s.editor.pump (Script.compile s.width)
  ({ s with editor := editor }, result)

end Session

end Arborist

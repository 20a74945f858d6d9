import Arborist.Session
import Arborist.Shell.Command
import Arborist.Value.Writer

/-!
The shell runs commands on a session. A command answers with a text or an error, and reports the new
code of every round of edits on the way.
-/

namespace Arborist

inductive Event where
  | output (text : String)
  | error (text : String)
  | code (code : String) (stale : Option String) (applied : Nat) (verbose : Bool)
  deriving DecidableEq, Repr

inductive ShellError where
  | command (error : CommandError)
  | noNode (path : Path)
  | noField (kind : String) (path : Path) (field : String)
  | readOnly (kind field : String)
  | input (error : InputError)
  | view (error : ViewError)
  | edit (error : EditError)
  deriving DecidableEq, Repr

namespace ShellError

def message : ShellError → String
  | .command error => error.message
  | .noNode path => "No node at path '" ++ path.text ++ "'"
  | .noField kind path field =>
    kind ++ " at '" ++ path.text ++ "' has no field '" ++ field ++ "'"
  | .readOnly kind field => kind ++ "." ++ field ++ " is read-only"
  | .input error => error.message
  | .view error => error.message
  | .edit error => error.message

end ShellError

structure Shell where
  session : Session
  running : Bool
  debug : Bool
  deriving Repr

structure Reply where
  shell : Shell
  answer : Except ShellError String
  events : List Event
  deriving Repr

namespace Shell

def create (session : Session) (debug : Bool) : Shell := ⟨session, true, debug⟩

def helpText : String :=
  Text.join "\n"
    ["Treedit REPL Commands:",
      "  .help                     - Show this help message",
      "  .quit                     - Exit the REPL",
      "  .debug                    - Toggle debug mode",
      "",
      "Tree Commands:",
      "  .tree                     - Show the visible tree with node paths",
      "  .toggle <path>            - Expand or collapse the node at <path>",
      "  .fields [path]            - List a node's fields and children",
      "  .set <path> <field> <v>   - Edit a field through its widget and show the new code",
      "  .code                     - Show the compiled code",
      "  .json [path]              - Dump a node as JSON",
      "",
      "Paths look like body[1].body.body[0]; '.' is the root."]

def rowText (row : Row) : String :=
  let shown := Text.blanks (2 * row.depth) ++ row.label
  match row.kind with
  | .node path _ _ _ => shown ++ "  @" ++ path.text
  | _ => shown

def tree (shell : Shell) : String × Shell :=
  let (rows, session) := shell.session.rows
  (Text.join "\n" (rows.map rowText), { shell with session := session })

def codeText (editor : Editor) : String :=
  match editor.lastError with
  | some e => editor.code ++ "\n\n(stale: " ++ e.message ++ ")"
  | none => editor.code

def itemText (path : Path) (name : String) (i : Nat) (item : Value) : String :=
  match item.asNode? with
  | some node => "    " ++ node.kind ++ " @" ++ (path.element name i).text
  | none => "    " ++ item.display

def fieldTexts (registry : Registry) (kind : String) (path : Path) : FieldView → List String
  | .primitive name value =>
    let access := if (registry.resolve? kind name).isSome then "editable" else "read-only"
    ["  " ++ name ++ " = " ++ value.display ++ " (" ++ access ++ ")"]
  | .child name node =>
    ["  " ++ name ++ " -> " ++ node.kind ++ " @" ++ (path.child name).text]
  | .sequence name items =>
    ("  " ++ name ++ " (" ++ Decimal.digitText items.length ++ " items)") ::
      items.mapIdx (itemText path name)

def fieldsText (registry : Registry) (path : Path) (node : Fields) : String :=
  Text.join "\n" ((node.kind ++ " @" ++ path.text) ::
    node.views.flatMap (fieldTexts registry node.kind path))

def reply (shell : Shell) (text : String) : Reply := ⟨shell, .ok text, []⟩

def refuse (shell : Shell) (error : ShellError) : Reply := ⟨shell, .error error, []⟩

def toggle (shell : Shell) (path : Path) : Reply :=
  match shell.session.toggle path with
  | (session, .error e) => { shell with session := session }.refuse (.view e)
  | (session, .ok outcome) =>
    let next := { shell with session := session }
    match outcome with
    | .disallowed => next.reply ("Nothing to expand at " ++ path.text)
    | .expanded =>
      let (text, drawn) := next.tree
      drawn.reply ("Expanded " ++ path.text ++ "\n" ++ text)
    | .collapsed =>
      let (text, drawn) := next.tree
      drawn.reply ("Collapsed " ++ path.text ++ "\n" ++ text)

def applyEdits (shell : Shell) (message : String) : Reply :=
  match shell.session.pump with
  | (session, .error e) => { shell with session := session }.refuse (.edit e)
  | (session, .ok applied) =>
    let stale := session.editor.lastError.map Script.CompileError.message
    ⟨{ shell with session := session }, .ok message,
      [.code session.editor.code stale applied shell.debug]⟩

def entered (shell : Shell) (target : Target) (value : String) : Outcome → Reply
  | .refused e => shell.refuse (.input e)
  | _ => shell.applyEdits ("Set " ++ target.text ++ " to " ++ value)

/-- Enters a text into a field's widget: the mounted one, or one made for the occasion. -/
def set (shell : Shell) (path : Path) (field value : String) : Reply :=
  match path.resolve shell.session.root with
  | none => shell.refuse (.noNode path)
  | some node =>
    match node.get? field with
    | none => shell.refuse (.noField node.kind path field)
    | some current =>
      let target : Target := ⟨path, field⟩
      match shell.session.view.widget? target with
      | some w =>
        let (next, sent, outcome) := w.enter value
        let after := { shell with session := shell.session.settle target next sent }
        after.entered target value outcome
      | none =>
        match shell.session.view.registry.mount? node.kind target current with
        | some w =>
          let (_, sent, outcome) := w.enter value
          let after := { shell with session := shell.session.send sent }
          after.entered target value outcome
        | none => shell.refuse (.readOnly node.kind field)

def onNode (shell : Shell) (path : Path) (render : Fields → String) : Reply :=
  match path.resolve shell.session.root with
  | none => shell.refuse (.noNode path)
  | some node => shell.reply (render node)

def run (shell : Shell) : Command → Reply
  | .help => shell.reply helpText
  | .quit => { shell with running := false }.reply "Goodbye!"
  | .debug =>
    { shell with debug := !shell.debug }.reply
      ("Debug mode: " ++ (if shell.debug then "off" else "on"))
  | .tree =>
    let (text, drawn) := shell.tree
    drawn.reply text
  | .code => shell.reply (codeText shell.session.editor)
  | .toggle path => shell.toggle path
  | .fields path => shell.onNode path (fieldsText shell.session.view.registry path)
  | .json path => shell.onNode path fun node => (Value.object node).pretty
  | .set path field value => shell.set path field value

def executeLine (shell : Shell) (line : String) : Reply :=
  match Command.ofLine line with
  | .error e => shell.refuse (.command e)
  | .ok command => shell.run command

def echoLine (shell : Shell) (line : String) : Reply :=
  let done := shell.executeLine line
  let last : Event :=
    match done.answer with
    | .ok text => .output text
    | .error e => .error ("Error: " ++ e.message)
  { done with events := .output (">> " ++ line) :: done.events ++ [last] }

def isScriptLine (line : String) : Bool := !line.isEmpty && !Text.beginsWith line "#"

def scriptLines (script : String) : List String :=
  ((Text.lines script.toList).map fun line => String.ofList (Text.trimChars line)).filter
    isScriptLine

structure ScriptRun where
  shell : Shell
  succeeded : Nat
  events : List Event
  deriving Repr

def runLines : List String → ScriptRun → ScriptRun
  | [], done => done
  | line :: rest, done =>
    if done.shell.running then
      let reply := done.shell.echoLine line
      runLines rest
        { shell := reply.shell
          succeeded := done.succeeded + (if reply.answer.isOk then 1 else 0)
          events := done.events ++ reply.events }
    else done

def runScript (shell : Shell) (script : String) : ScriptRun :=
  runLines (scriptLines script) ⟨shell, 0, []⟩

end Shell

end Arborist

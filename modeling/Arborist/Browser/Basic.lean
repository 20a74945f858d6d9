import Arborist.Session

/-!
The browser shows the rows of a session and takes keys. In browsing mode keys move the selection and
open what is selected; in editing mode they go to the widget of one field; in help mode they close
the help. After every key the queued edits are applied and the rows are made anew.
-/

namespace Arborist

inductive Key where
  | enter | esc | up | down | left | right | backspace | tab | delete
  | function (n : Nat)
  | char (c : Char)
  | other (name : String)
  deriving DecidableEq, Repr

inductive Stroke where
  | pressed
  | held
  | released
  deriving DecidableEq, Repr

structure KeyEvent where
  key : Key
  stroke : Stroke
  deriving DecidableEq, Repr

inductive Mode where
  | browse
  | edit
  | help
  deriving DecidableEq, Repr

/-- The selection may lie behind the last row until the rows are next made or drawn. -/
structure Browser where
  session : Session
  rows : List Row
  selected : Nat
  offset : Nat
  mode : Mode
  editing : Option Target
  status : String
  quit : Bool
  deriving Repr

namespace Browser

def selectedRow? (b : Browser) : Option Row := b.rows[b.selected]?

def refresh (b : Browser) : Browser :=
  let (rows, session) := b.session.rows
  { b with
    session := session
    rows := rows
    selected := if rows.length ≤ b.selected then rows.length - 1 else b.selected }

def create (session : Session) : Browser :=
  refresh
    { session := session
      rows := []
      selected := 0
      offset := 0
      mode := .browse
      editing := none
      status := "Press h for help"
      quit := false }

def activate (b : Browser) : Browser :=
  match b.selectedRow? with
  | none => b
  | some row =>
    match row.kind with
    | .node path kind _ _ =>
      match b.session.toggle path with
      | (session, .error e) => { b with session := session, status := e.message }
      | (session, .ok .disallowed) =>
        { b with session := session, status := kind ++ " has no fields" }
      | (session, .ok _) => { b with session := session }
    | .field target _ true =>
      { b with
        status := "Editing " ++ target.text ++ " (Esc to finish)"
        editing := some target
        mode := .edit }
    | .field target _ false => { b with status := target.text ++ " is read-only" }
    | .label _ => b
    | .opaqueItem _ => b

def stopEditing (b : Browser) : Browser :=
  { b with editing := none, mode := .browse, status := "" }

def browseKey (b : Browser) : Key → Browser
  | .char 'q' => { b with quit := true }
  | .char 'h' => { b with mode := .help }
  | .function 1 => { b with mode := .help }
  | .up => { b with selected := b.selected - 1 }
  | .down => { b with selected := min (b.selected + 1) (b.rows.length - 1) }
  | .enter => b.activate
  | .char ' ' => b.activate
  | _ => b

def actionOf (input : Input) (key : Key) : Option Action :=
  match input, key with
  | .choice .., .right => some .next
  | .choice .., .left => some .previous
  | .text _, .char c => some (.insert c)
  | .text _, .backspace => some .backspace
  | .number _, .up => some .increment
  | .number _, .down => some .decrement
  | .number _, .char c => some (.insert c)
  | .number _, .backspace => some .backspace
  | .toggle _, .char ' ' => some .toggle
  | _, _ => none

def ignoredText : Action → String
  | .insert c => "'" ++ c.toString ++ "' is not allowed in a number"
  | _ => ""

def widgetKey (b : Browser) (target : Target) (w : Widget) (key : Key) : Browser :=
  match actionOf w.input key with
  | none => b
  | some action =>
    match w.act? action with
    | none => b
    | some (next, sent, outcome) =>
      let after := { b with session := b.session.settle target next sent }
      if outcome = .ignored then { after with status := ignoredText action } else after

def editKey (b : Browser) (key : Key) : Browser :=
  match b.editing with
  | none => { b with mode := .browse }
  | some target =>
    if key = .esc ∨ key = .enter then b.stopEditing
    else
      match b.session.view.widget? target with
      | none => b.stopEditing
      | some w => b.widgetKey target w key

def helpKey (b : Browser) (key : Key) : Browser :=
  if key = .esc ∨ key = .char 'q' ∨ key = .char 'h' ∨ key = .function 1 then
    { b with mode := .browse }
  else b

def pump (b : Browser) : Browser :=
  match b.session.pump with
  | (session, .ok _) => { b with session := session }
  | (session, .error e) => { b with session := session, status := "Error: " ++ e.message }

def press (b : Browser) (key : Key) : Browser :=
  let after :=
    match b.mode with
    | .help => b.helpKey key
    | .browse => b.browseKey key
    | .edit => b.editKey key
  after.pump.refresh

/-- Only a key that goes down counts. -/
def handle (b : Browser) (event : KeyEvent) : Browser :=
  match event.stroke with
  | .pressed => b.press event.key
  | .held | .released => b

end Browser

end Arborist

import Arborist.Browser.Basic
import Arborist.Screen.Pane

/-!
The browser on a screen: the rows on the left, the code on the right, a status line below them, and
the help over all of it.
-/

namespace Arborist.Browser

def rowStyle (row : Row) (editing : Bool) : Style :=
  if editing then { Style.colored .black with background := some .yellow }
  else
    match row.kind with
    | .node _ _ false _ => Style.colored .darkGray
    | .node _ _ true _ => { Style.colored .cyan with bold := true }
    | .label _ => Style.colored .gray
    | .field _ _ true => Style.colored .green
    | .field _ _ false => Style.plain
    | .opaqueItem _ => Style.plain

def textLines (s : String) : List String :=
  if s.isEmpty then [""] else (Text.lines s.toList).map String.ofList

def isEditing (b : Browser) (row : Row) : Bool :=
  match row.kind, b.editing with
  | .field target _ _, some edited => target == edited
  | _, _ => false

def rowItem (b : Browser) (row : Row) : ListItem :=
  ⟨textLines (Text.blanks (2 * row.depth) ++ row.label), rowStyle row (b.isEditing row)⟩

def drawTree (b : Browser) (s : Screen) (area : Rect) : Screen × Browser :=
  let boxed := s.box area .plain " Tree "
  let inside := area.inner
  if inside.isEmpty then (boxed, b)
  else
    let selected := min b.selected (b.rows.length - 1)
    let (drawn, offset) := boxed.list inside b.offset selected (b.rows.map b.rowItem)
    (drawn, { b with selected := selected, offset := offset })

def codeLines (editor : Editor) : List (List Glyph) :=
  (Text.lines editor.code.toList).map (fun line => Glyph.ofText .plain (String.ofList line)) ++
    (match editor.lastError with
      | some e => [[], Glyph.ofText (Style.colored .red) e.message]
      | none => [])

def drawCode (b : Browser) (s : Screen) (area : Rect) : Screen :=
  let editor := b.session.editor
  let boxed :=
    match editor.lastError with
    | some _ => s.box area (Style.colored .red) " Code (stale) "
    | none => s.box area .plain " Code "
  boxed.paragraph area.inner (codeLines editor)

def hint : Mode → String
  | .browse => "↑/↓ move  Enter toggle/edit  h help  q quit"
  | .edit => "←/→ choose  ↑/↓ step  type to edit  Space flip  Esc done"
  | .help => "Esc close help"

def drawStatus (b : Browser) (s : Screen) (area : Rect) : Screen :=
  (s.box area .plain "").paragraph area.inner
    [Glyph.ofText { Style.plain with bold := true } (" " ++ b.status ++ " ") ++
      Glyph.ofText (Style.colored .darkGray) (hint b.mode)]

def helpLines : List (List Glyph) :=
  let plain := Glyph.ofText .plain
  [[],
    Glyph.ofText { Style.plain with bold := true } "Treedit Browser Help",
    [],
    plain "Tree:",
    plain "  ↑/↓        - Move selection",
    plain "  Enter/Space - Expand or collapse a node, or edit a field",
    [],
    plain "Editing a field:",
    plain "  ←/→        - Cycle choices",
    plain "  ↑/↓        - Step numbers",
    plain "  typing     - Edit text and number buffers",
    plain "  Space      - Flip a toggle",
    plain "  Esc/Enter  - Finish editing",
    [],
    plain "General:",
    plain "  h/F1       - Show this help",
    plain "  q          - Quit",
    [],
    plain "Press Esc or q to close this help screen"]

def drawHelp (s : Screen) : Screen :=
  let area := (s.area.rows 10 90).columns 15 85
  let yellow := (s.clear area).setStyle area (Style.colored .yellow)
  (yellow.box area .plain " Treedit Browser - Help ").wrappedParagraph area.inner helpLines

def draw (b : Browser) (width height : Nat) : Screen × Browser :=
  let screen := Screen.blank width height
  let (panes, bottom) := screen.area.splitBottom 3
  let (withTree, after) := b.drawTree screen (panes.columns 0 50)
  let withCode := after.drawCode withTree (panes.columns 50 100)
  let withStatus := after.drawStatus withCode bottom
  (if b.mode = .help then drawHelp withStatus else withStatus, after)

end Arborist.Browser

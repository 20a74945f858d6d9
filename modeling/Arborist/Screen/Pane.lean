import Arborist.Screen.Glyph

/-!
Parts of a screen: splits of an area, boxes with a title, and lists that scroll to the selected
item.
-/

namespace Arborist

namespace Rect

def percentOf (total percent : Nat) : Nat := (2 * total * percent + 100) / 200

def slice (total low high : Nat) : Nat × Nat :=
  (percentOf total low, percentOf total high - percentOf total low)

def columns (r : Rect) (low high : Nat) : Rect :=
  let (start, length) := slice r.width low high
  ⟨r.x + start, r.y, length, r.height⟩

def rows (r : Rect) (low high : Nat) : Rect :=
  let (start, length) := slice r.height low high
  ⟨r.x, r.y + start, r.width, length⟩

def splitBottom (r : Rect) (n : Nat) : Rect × Rect :=
  let low := min n r.height
  (⟨r.x, r.y, r.width, r.height - low⟩, ⟨r.x, r.y + (r.height - low), r.width, low⟩)

end Rect

namespace Screen

def column (s : Screen) (x y height : Nat) (symbol : String) (style : Style) : Screen :=
  (List.range height).foldl (fun s dy => s.put x (y + dy) symbol style) s

def line (s : Screen) (x y width : Nat) (symbol : String) (style : Style) : Screen :=
  (List.range width).foldl (fun s dx => s.put (x + dx) y symbol style) s

def box (s : Screen) (r : Rect) (border : Style) (title : String) : Screen :=
  if r.isEmpty then s
  else
    let sides := (((s.column r.x r.y r.height "│" border).line r.x r.y r.width "─" border).column
      (r.right - 1) r.y r.height "│" border).line r.x (r.bottom - 1) r.width "─" border
    let corners := (((sides.put (r.right - 1) (r.bottom - 1) "┘" border).put
      (r.right - 1) r.y "┐" border).put r.x (r.bottom - 1) "└" border).put r.x r.y "┌" border
    corners.label ⟨r.x + 1, r.y, r.width - 2, 1⟩ .plain title

end Screen

structure ListItem where
  lines : List String
  style : Style
  deriving DecidableEq, Repr

namespace ListItem

def height (item : ListItem) : Nat := item.lines.length

end ListItem

/-- The items from `first` up to but not including `last` show, and take up `height` rows. -/
structure Window where
  first : Nat
  last : Nat
  height : Nat
  deriving DecidableEq, Repr

namespace Window

def heightAt (heights : List Nat) (i : Nat) : Nat := heights[i]?.getD 0

def fitFrom (heights : List Nat) (first room : Nat) : Window :=
  let shown := (heights.drop first).foldl (fun (state : Window × Bool) h =>
    let (w, isOpen) := state
    if isOpen && w.height + h ≤ room then (⟨w.first, w.last + 1, w.height + h⟩, true)
    else (w, false)) (⟨first, first, 0⟩, true)
  shown.1

def trimTop (heights : List Nat) (room : Nat) : Nat → Window → Window
  | 0, w => w
  | fuel + 1, w =>
    if room < w.height then
      trimTop heights room fuel ⟨w.first + 1, w.last, w.height - heightAt heights w.first⟩
    else w

def trimBottom (heights : List Nat) (room : Nat) : Nat → Window → Window
  | 0, w => w
  | fuel + 1, w =>
    if room < w.height then
      trimBottom heights room fuel ⟨w.first, w.last - 1, w.height - heightAt heights (w.last - 1)⟩
    else w

def scrollDown (heights : List Nat) (room i : Nat) : Nat → Window → Window
  | 0, w => w
  | fuel + 1, w =>
    if w.last ≤ i then
      scrollDown heights room i fuel
        (trimTop heights room heights.length
          ⟨w.first, w.last + 1, w.height + heightAt heights w.last⟩)
    else w

def scrollUp (heights : List Nat) (room i : Nat) : Nat → Window → Window
  | 0, w => w
  | fuel + 1, w =>
    if i < w.first then
      scrollUp heights room i fuel
        (trimBottom heights room heights.length
          ⟨w.first - 1, w.last, w.height + heightAt heights (w.first - 1)⟩)
    else w

/-- The window that shows item `i` and starts as near to `offset` as it can. -/
def around (heights : List Nat) (offset room i : Nat) : Window :=
  let start := fitFrom heights (min offset (heights.length - 1)) room
  let count := heights.length
  scrollUp heights room i count (scrollDown heights room i count start)

end Window

namespace Screen

def marker : String := "▶ "

def markerWidth : Nat := 2

def listItem (s : Screen) (area : Rect) (y : Nat) (item : ListItem) (selected : Bool) : Screen :=
  let rowArea : Rect := ⟨area.x, y, area.width, item.height⟩
  let styled := s.setStyle rowArea item.style
  let written := (item.lines.foldl (fun (s, row) text =>
    (s.label ⟨area.x + markerWidth, row, area.width - markerWidth, 1⟩ .plain text, row + 1))
    (styled, y)).1
  let marked := (List.range item.height).foldl (fun s j =>
    let symbol := if selected && j == 0 then marker else "  "
    s.putGlyphs area.x (y + j) (Glyph.cut area.width 0 (Glyph.ofText item.style symbol))) written
  if selected then marked.setStyle rowArea { Style.plain with reversed := true } else marked

def listItems (s : Screen) (area : Rect) (selected : Nat) (y i : Nat) : List ListItem → Screen
  | [] => s
  | item :: rest =>
    (s.listItem area y item (i == selected)).listItems area selected (y + item.height) (i + 1) rest

/-- A list with a selected item, scrolled from `offset` as little as shows that item: the screen
and the item at its top. -/
def list (s : Screen) (area : Rect) (offset selected : Nat) (items : List ListItem) :
    Screen × Nat :=
  let window := Window.around (items.map ListItem.height) offset area.height selected
  let shown := (items.drop window.first).take (window.last - window.first)
  (s.listItems area selected area.y window.first shown, window.first)

end Screen

end Arborist

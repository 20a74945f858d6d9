import Arborist.Screen.Cell
import Arborist.Text.Cluster
import Arborist.Text.Columns

/-!
Styled text on a screen. A line is a list of glyphs, each a cluster of characters with a style and a
width. Lines are cut at the width of their area, or wrapped at blanks.
-/

namespace Arborist

structure Glyph where
  symbol : String
  width : Nat
  isBlank : Bool
  style : Style
  deriving DecidableEq, Repr

namespace Glyph

def ofCluster (style : Style) (cluster : List Char) : Glyph :=
  ⟨String.ofList cluster, Text.width cluster, cluster.all Text.isBlank, style⟩

def ofText (style : Style) (s : String) : List Glyph :=
  ((Text.clusters s.toList).filter (· != ['\n'])).map (ofCluster style)

def totalWidth : List Glyph → Nat
  | [] => 0
  | g :: rest => g.width + totalWidth rest

def cut (width : Nat) (used : Nat) : List Glyph → List Glyph
  | [] => []
  | g :: rest =>
    if width < g.width then cut width used rest
    else if width < used + g.width then []
    else g :: cut width (used + g.width) rest

end Glyph

namespace Screen

def uncovered (covered : Nat) : List Cell → List Cell
  | [] => []
  | cell :: rest =>
    (if covered = 0 then cell else .blank) ::
      uncovered (Text.width cell.symbol.toList - 1) rest

def shownRow (s : Screen) (y : Nat) : List Cell := uncovered 0 (s.row y)

def putGlyphs (s : Screen) (x y : Nat) : List Glyph → Screen
  | [] => s
  | g :: rest =>
    if g.width = 0 then s.putGlyphs x y rest
    else (s.put x y g.symbol g.style).putGlyphs (x + g.width) y rest

def putLines (s : Screen) (area : Rect) (lines : List (List Glyph)) : Screen :=
  ((lines.take area.height).foldl (fun (s, y) line =>
    (s.putGlyphs area.x y line, y + 1)) (s, area.y)).1

def paragraph (s : Screen) (area : Rect) (lines : List (List Glyph)) : Screen :=
  if area.isEmpty then s else s.putLines area (lines.map (Glyph.cut area.width 0))

/-- Draws a label between `left` and `right`, glyph by glyph from `x` on. A glyph without width
joins the cell before it, and the cells that a wide glyph hides are cleared. -/
def labelFrom (s : Screen) (left right x y : Nat) (isFirst : Bool) : List Glyph → Screen
  | [] => s
  | g :: rest =>
    let next := x + g.width
    if right < next then s
    else
      let shown :=
        if isFirst then s.put x y g.symbol g.style
        else if x = left then s.append x y g.symbol g.style
        else if g.width = 0 then s.append (x - 1) y g.symbol g.style
        else s.put x y g.symbol g.style
      (shown.clear ⟨x + 1, y, g.width - 1, 1⟩).labelFrom left right next y false rest

def label (s : Screen) (area : Rect) (style : Style) (text : String) : Screen :=
  if area.isEmpty || Text.width text.toList == 0 then s
  else s.labelFrom area.x area.right area.x area.y true (Glyph.ofText style text)

end Screen

/-- The state of wrapping one line: finished lines, the line being filled with its width, and the
blanks and the word that wait to be put on it. -/
structure Wrapping where
  finished : List (List Glyph)
  line : List Glyph
  blanks : List Glyph
  word : List Glyph
  afterWord : Bool
  deriving DecidableEq, Repr

namespace Wrapping

def start : Wrapping := ⟨[], [], [], [], false⟩

def flush (w : Wrapping) : Wrapping :=
  { w with
    line := if w.line.isEmpty then w.word else w.line ++ w.blanks ++ w.word
    blanks := []
    word := [] }

def dropFitting : Nat → List Glyph → List Glyph
  | _, [] => []
  | room, g :: rest => if room < g.width then g :: rest else dropFitting (room - g.width) rest

def endLine (width : Nat) (w : Wrapping) : Wrapping :=
  { w with
    finished := w.finished ++ [w.line]
    line := []
    blanks := dropFitting (width - Glyph.totalWidth w.line) w.blanks }

def wait (w : Wrapping) (g : Glyph) : Wrapping :=
  if g.isBlank then { w with blanks := w.blanks ++ [g], afterWord := false }
  else { w with word := w.word ++ [g], afterWord := true }

def step (width : Nat) (w : Wrapping) (g : Glyph) : Wrapping :=
  if width < g.width then w
  else
    let overflow := w.line.isEmpty &&
      (width < Glyph.totalWidth w.word + g.width || width < Glyph.totalWidth w.blanks + g.width)
    let flushed := if (w.afterWord && g.isBlank) || overflow then w.flush else w
    let lineWidth := Glyph.totalWidth flushed.line
    let full := width ≤ lineWidth
    let wordOverflows := g.width ≠ 0 ∧
      width ≤ lineWidth + Glyph.totalWidth flushed.blanks + Glyph.totalWidth flushed.word
    if full ∨ wordOverflows then
      let broken := flushed.endLine width
      if g.isBlank && broken.blanks.isEmpty then broken else broken.wait g
    else flushed.wait g

def finish (w : Wrapping) : List (List Glyph) :=
  let allBlank := w.line.isEmpty && w.word.isEmpty && !w.blanks.isEmpty
  let last := w.flush.line
  let lines := w.finished ++ (if allBlank then [[]] else []) ++
    (if last.isEmpty then [] else [last])
  if lines.isEmpty then [[]] else lines

end Wrapping

namespace Glyph

def wrap (width : Nat) (line : List Glyph) : List (List Glyph) :=
  (line.foldl (Wrapping.step width) Wrapping.start).finish

end Glyph

namespace Screen

def wrappedParagraph (s : Screen) (area : Rect) (lines : List (List Glyph)) : Screen :=
  if area.isEmpty then s else s.putLines area (lines.flatMap (Glyph.wrap area.width))

end Screen

end Arborist

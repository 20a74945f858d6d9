/-!
A screen of cells. Every cell shows a symbol in two colours and may be bold or reversed. A style
changes the colours that it names and adds its emphasis, leaving the rest of a cell alone. Drawing
outside the screen does nothing.
-/

namespace Arborist

inductive Color where
  | reset | black | red | green | yellow | cyan | gray | darkGray
  deriving DecidableEq, Repr

structure Style where
  foreground : Option Color
  background : Option Color
  bold : Bool
  reversed : Bool
  deriving DecidableEq, Repr

namespace Style

def plain : Style := ⟨none, none, false, false⟩

def colored (c : Color) : Style := { plain with foreground := some c }

end Style

structure Cell where
  symbol : String
  foreground : Color
  background : Color
  bold : Bool
  reversed : Bool
  deriving DecidableEq, Repr

namespace Cell

def blank : Cell := ⟨" ", .reset, .reset, false, false⟩

def styled (cell : Cell) (style : Style) : Cell :=
  { cell with
    foreground := style.foreground.getD cell.foreground
    background := style.background.getD cell.background
    bold := cell.bold || style.bold
    reversed := cell.reversed || style.reversed }

end Cell

structure Rect where
  x : Nat
  y : Nat
  width : Nat
  height : Nat
  deriving DecidableEq, Repr

namespace Rect

def right (r : Rect) : Nat := r.x + r.width

def bottom (r : Rect) : Nat := r.y + r.height

def isEmpty (r : Rect) : Bool := r.width == 0 || r.height == 0

def inner (r : Rect) : Rect :=
  ⟨min (r.x + 1) r.right, min (r.y + 1) r.bottom, r.width - 2, r.height - 2⟩

end Rect

structure Screen where
  width : Nat
  height : Nat
  cells : Array Cell
  deriving Repr

namespace Screen

def blank (width height : Nat) : Screen := ⟨width, height, Array.replicate (width * height) .blank⟩

def area (s : Screen) : Rect := ⟨0, 0, s.width, s.height⟩

def change (s : Screen) (x y : Nat) (f : Cell → Cell) : Screen :=
  if x < s.width ∧ y < s.height then { s with cells := s.cells.modify (y * s.width + x) f } else s

def cell (s : Screen) (x y : Nat) : Cell := (s.cells[y * s.width + x]?).getD .blank

def row (s : Screen) (y : Nat) : List Cell := (List.range s.width).map fun x => s.cell x y

def fill (s : Screen) (r : Rect) (f : Cell → Cell) : Screen :=
  (List.range r.height).foldl (fun s dy =>
    (List.range r.width).foldl (fun s dx => s.change (r.x + dx) (r.y + dy) f) s) s

def setStyle (s : Screen) (r : Rect) (style : Style) : Screen :=
  s.fill r fun cell => cell.styled style

def clear (s : Screen) (r : Rect) : Screen := s.fill r fun _ => .blank

def put (s : Screen) (x y : Nat) (symbol : String) (style : Style) : Screen :=
  s.change x y fun cell => { cell.styled style with symbol := symbol }

def append (s : Screen) (x y : Nat) (symbol : String) (style : Style) : Screen :=
  s.change x y fun cell => { cell.styled style with symbol := cell.symbol ++ symbol }

end Screen

end Arborist

import Arborist.Node.Field
import Arborist.Widget.Registry

/-!
A tree as a list of rows. The view knows which nodes are expanded and which widgets are mounted; it
reads the tree and never changes it. While the rows are made, widgets are mounted for the fields that
show and can be edited, each under the target of its field; closing a node drops everything below it.
-/

namespace Arborist

inductive ViewError where
  | nodeNotFound (path : Path)
  | hidden (path : Path)
  deriving DecidableEq, Repr

namespace ViewError

def message : ViewError → String
  | .nodeNotFound path => "No node at path '" ++ path.text ++ "'"
  | .hidden path => "Node at '" ++ path.text ++ "' is inside a collapsed node"

end ViewError

inductive Toggle where
  | expanded
  | collapsed
  | disallowed
  deriving DecidableEq, Repr

inductive RowKind where
  | node (path : Path) (kind : String) (expandable expanded : Bool)
  | label (field : String)
  | field (target : Target) (text : String) (editable : Bool)
  | opaqueItem (text : String)
  deriving DecidableEq, Repr

structure Row where
  depth : Nat
  kind : RowKind
  deriving DecidableEq, Repr

namespace Row

def label (row : Row) : String :=
  match row.kind with
  | .node _ kind expandable expanded =>
    if expandable then kind ++ (if expanded then " -" else " +") else kind
  | .label field => field ++ ":"
  | .field target text editable =>
    if editable then target.field ++ ": [" ++ text ++ "]" else target.field ++ ": " ++ text
  | .opaqueItem text => text

end Row

/-- What is expanded, and the mounted widgets by the targets of the fields that they stand for. -/
structure View where
  registry : Registry
  expanded : List Path
  widgets : List (Target × Widget)
  deriving Repr

namespace View

def create (registry : Registry) : View := ⟨registry, [], []⟩

def isExpanded (view : View) (path : Path) : Bool := view.expanded.contains path

def isVisible (view : View) (path : Path) : Bool :=
  (List.range path.length).all fun n => view.isExpanded (path.take n)

def widget? (view : View) (target : Target) : Option Widget := view.widgets.lookup target

def setWidget (view : View) (target : Target) (w : Widget) : View :=
  { view with
    widgets := view.widgets.map fun entry => if entry.1 = target then (target, w) else entry }

def mount (view : View) (target : Target) (w : Widget) : View :=
  { view with widgets := view.widgets ++ [(target, w)] }

def collapse (view : View) (path : Path) : View :=
  { view with
    expanded := view.expanded.filter fun p => !p.under path
    widgets := view.widgets.filter fun entry => !entry.1.path.under path }

def expand (view : View) (path : Path) : View := { view with expanded := path :: view.expanded }

def toggle (view : View) (root : Fields) (path : Path) : View × Except ViewError Toggle :=
  match path.resolve root with
  | none => (view, .error (.nodeNotFound path))
  | some node =>
    if !view.isVisible path then (view, .error (.hidden path))
    else if !node.hasViews then (view, .ok .disallowed)
    else if view.isExpanded path then (view.collapse path, .ok .collapsed)
    else (view.expand path, .ok .expanded)

def nodeRow (view : View) (depth : Nat) (path : Path) (node : Fields) : Row :=
  ⟨depth, .node path node.kind node.hasViews (view.isExpanded path)⟩

/-- The row of a primitive field, drawn through its widget; if there is none, one is mounted. -/
def fieldRow (view : View) (depth : Nat) (kind : String) (target : Target) (value : Value) :
    Row × View :=
  match view.widget? target with
  | some w => (⟨depth, .field target w.display true⟩, view)
  | none =>
    match view.registry.mount? kind target value with
    | some w => (⟨depth, .field target w.display true⟩, view.mount target w)
    | none => (⟨depth, .field target value.display false⟩, view)

mutual

def fieldRows (view : View) (depth : Nat) (path : Path) (kind : String) :
    List (String × Value) → List Row × View
  | [] => ([], view)
  | (name, value) :: rest =>
    let (front, next) :=
      if FieldView.isPrimitiveName name then
        let (row, next) := view.fieldRow (depth + 1) kind ⟨path, name⟩ value
        ([row], next)
      else heldRows view (depth + 1) path name value
    let (back, last) := fieldRows next depth path kind rest
    (front ++ back, last)

def heldRows (view : View) (depth : Nat) (path : Path) (name : String) :
    Value → List Row × View
  | .object node =>
    if Fields.isNode node then
      let (rows, next) :=
        if view.isExpanded (path.child name) then
          fieldRows view (depth + 1) (path.child name) (Fields.kind node) node
        else ([], view)
      (⟨depth, .label name⟩ :: view.nodeRow (depth + 1) (path.child name) node :: rows, next)
    else ([], view)
  | .list items =>
    if items.head?.any Value.isNode then
      let (rows, next) := itemRows view (depth + 1) path name 0 items
      (⟨depth, .label name⟩ :: rows, next)
    else ([], view)
  | _ => ([], view)

def itemRows (view : View) (depth : Nat) (path : Path) (name : String) (i : Nat) :
    List Value → List Row × View
  | [] => ([], view)
  | item :: rest =>
    let (front, next) := elementRows view depth path name i item
    let (back, last) := itemRows next depth path name (i + 1) rest
    (front ++ back, last)

def elementRows (view : View) (depth : Nat) (path : Path) (name : String) (i : Nat) :
    Value → List Row × View
  | .object node =>
    if Fields.isNode node then
      let (rows, next) :=
        if view.isExpanded (path.element name i) then
          fieldRows view depth (path.element name i) (Fields.kind node) node
        else ([], view)
      (view.nodeRow depth (path.element name i) node :: rows, next)
    else ([⟨depth, .opaqueItem (Value.object node).display⟩], view)
  | other => ([⟨depth, .opaqueItem other.display⟩], view)

end

/-- The rows that show, and the view with their widgets mounted. -/
def rows (view : View) (root : Fields) : List Row × View :=
  let (rows, next) :=
    if view.isExpanded Path.root then view.fieldRows 0 Path.root root.kind root else ([], view)
  (view.nodeRow 0 Path.root root :: rows, next)

end View

end Arborist

import Arborist.Value.Basic

/-!
What a node shows. A handful of field names stand for values that can be edited, whatever they hold;
every other field shows when it holds a node, or a list that starts with one.
-/

namespace Arborist

inductive FieldView where
  | primitive (name : String) (value : Value)
  | child (name : String) (node : Fields)
  | sequence (name : String) (items : List Value)
  deriving Repr

namespace FieldView

def primitiveNames : List String := ["kind", "name", "generator", "async", "value", "operator"]

def isPrimitiveName (name : String) : Bool := primitiveNames.contains name

def ofField? (name : String) (value : Value) : Option FieldView :=
  if isPrimitiveName name then some (.primitive name value)
  else
    match value.asNode? with
    | some node => some (.child name node)
    | none =>
      match value with
      | .list (first :: rest) =>
        if first.isNode then some (.sequence name (first :: rest)) else none
      | _ => none

def name : FieldView → String
  | .primitive name _ | .child name _ | .sequence name _ => name

end FieldView

namespace Fields

def views (node : Fields) : List FieldView :=
  node.filterMap fun entry => FieldView.ofField? entry.1 entry.2

def hasViews (node : Fields) : Bool := !node.views.isEmpty

end Fields

end Arborist

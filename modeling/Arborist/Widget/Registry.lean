import Arborist.Node.Path
import Arborist.Widget.Input

/-!
Widgets and where they come from. A widget is an input bound to a target. The registry says how the
widget for a field of a kind of node is built; a field without an entry is shown as plain text.
-/

namespace Arborist

structure Edit where
  target : Target
  value : Value
  deriving Repr

structure Widget where
  target : Target
  input : Input
  deriving DecidableEq, Repr

namespace Widget

def display (w : Widget) : String := w.input.display

/-- The widget after an action, the edits that the action sends, and how it went. -/
def respond (w : Widget) (r : Response) : Widget × List Edit × Outcome :=
  (⟨w.target, r.input⟩, r.sent.map fun value => ⟨w.target, value⟩, r.outcome)

def act? (w : Widget) (action : Action) : Option (Widget × List Edit × Outcome) :=
  (w.input.act? action).map w.respond

def enter (w : Widget) (text : String) : Widget × List Edit × Outcome :=
  w.respond (w.input.enter text)

end Widget

/-- Builds a widget for a target, seeded with the value of its field. -/
abbrev Factory := Target → Value → Widget

/-- The inputs that widgets come with; each kind of input makes a factory. -/
inductive InputKind where
  | choice (options : List String)
  | text
  | number
  | toggle
  deriving DecidableEq, Repr

namespace InputKind

def declarationKinds : List String := ["var", "let", "const"]

def operators : List String :=
  ["+", "-", "/", "%", "*", "**", "&", ",", ">>", ">>>", "<<", "^", "==", "===", "!=", "!==",
    "in", "instanceof", ">", "<", ">=", "<="]

def seed (input : InputKind) (value : Value) : Input :=
  match input with
  | .choice options => .choice options value.display
  | .text => .text value.display
  | .number => .number value.display
  | .toggle => .toggle (value.asBool?.getD false)

def build (input : InputKind) : Factory := fun target value => ⟨target, input.seed value⟩

end InputKind

inductive RegistryError where
  | duplicateKey (key : String)
  deriving DecidableEq, Repr

namespace RegistryError

def message : RegistryError → String
  | .duplicateKey key => "A widget is already registered for '" ++ key ++ "'"

end RegistryError

/-- Factories in the order of registration. A key is the kind and the field, joined by a dot. -/
structure Registry where
  entries : List (String × Factory)

namespace Registry

def key (kind field : String) : String := kind ++ "." ++ field

def keys (registry : Registry) : List String := registry.entries.map Prod.fst

instance : Repr Registry := ⟨fun registry prec => reprPrec registry.keys prec⟩

def empty : Registry := ⟨[]⟩

def builtinInputs : List (String × InputKind) :=
  [(key "VariableDeclaration" "kind", .choice InputKind.declarationKinds),
    (key "BinaryExpression" "operator", .choice InputKind.operators),
    (key "Identifier" "name", .text),
    (key "NumericLiteral" "value", .number),
    (key "FunctionDeclaration" "generator", .toggle),
    (key "FunctionDeclaration" "async", .toggle)]

def builtin : Registry := ⟨builtinInputs.map fun entry => (entry.1, entry.2.build)⟩

def resolve? (registry : Registry) (kind field : String) : Option Factory :=
  registry.entries.lookup (key kind field)

/-- A key that is there already is refused, and the registry stays as it is. -/
def register (registry : Registry) (kind field : String) (factory : Factory) :
    Registry × Except RegistryError Unit :=
  match registry.resolve? kind field with
  | some _ => (registry, .error (.duplicateKey (key kind field)))
  | none => (⟨registry.entries ++ [(key kind field, factory)]⟩, .ok ())

def mount? (registry : Registry) (kind : String) (target : Target) (value : Value) :
    Option Widget :=
  (registry.resolve? kind target.field).map fun build => build target value

end Registry

end Arborist

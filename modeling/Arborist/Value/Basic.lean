import Arborist.Number.Layout
import Arborist.Text.Join

/-!
Attribute values of a tree. An object keeps its fields in the order in which they were attached; an
object with a `type` field is a node of the tree, and that field names its kind.
-/

namespace Arborist

inductive Value where
  | null
  | bool (b : Bool)
  | number (n : Number)
  | string (s : String)
  | list (items : List Value)
  | object (fields : List (String × Value))
  deriving Repr, Inhabited

abbrev Fields := List (String × Value)

/-- A part that is held to be written: what stands there, and the whole with something else there. -/
structure Focus (part whole : Type) where
  here : part
  put : part → whole

namespace Fields

def get? (fields : Fields) (key : String) : Option Value := fields.lookup key

def contains (fields : Fields) (key : String) : Bool := (fields.get? key).isSome

/-- An existing key keeps its place and takes the new value; a new key goes last. -/
def insert : Fields → String → Value → Fields
  | [], key, value => [(key, value)]
  | (k, v) :: rest, key, value =>
    if k = key then (k, value) :: rest else (k, v) :: insert rest key value

def keys (fields : Fields) : List String := fields.map Prod.fst

def focus? (fields : Fields) (key : String) : Option (Focus Value Fields) :=
  (fields.get? key).map fun value => ⟨value, fields.insert key⟩

@[simp] theorem get?_insert_self (fields : Fields) (key : String) (value : Value) :
    (fields.insert key value).get? key = some value := by
  induction fields with
  | nil => simp [insert, get?]
  | cons entry rest ih =>
    obtain ⟨k, v⟩ := entry
    by_cases same : k = key
    · simp [insert, get?, same]
    · have apart : (key == k) = false := by simpa using Ne.symm same
      simpa [insert, get?, List.lookup_cons, same, apart] using ih

theorem get?_insert_of_ne (fields : Fields) {key other : String} (value : Value)
    (h : other ≠ key) : (fields.insert key value).get? other = fields.get? other := by
  have miss : (other == key) = false := by simpa using h
  induction fields with
  | nil => simp [insert, get?, List.lookup_cons, miss]
  | cons entry rest ih =>
    obtain ⟨k, v⟩ := entry
    by_cases same : k = key
    · simp [insert, get?, List.lookup_cons, same, miss]
    · cases hit : other == k with
      | true => simp [insert, get?, List.lookup_cons, same, hit]
      | false => simpa [insert, get?, List.lookup_cons, same, hit] using ih

theorem keys_insert_of_mem {fields : Fields} {key : String} (value : Value)
    (h : key ∈ fields.keys) : (fields.insert key value).keys = fields.keys := by
  induction fields with
  | nil => simp [keys] at h
  | cons entry rest ih =>
    by_cases same : entry.1 = key
    · simp [insert, keys, same]
    · simp only [keys, List.map_cons, List.mem_cons, Ne.symm same, false_or] at h
      simpa [insert, keys, same] using ih h

theorem keys_insert_of_not_mem {fields : Fields} {key : String} (value : Value)
    (h : key ∉ fields.keys) : (fields.insert key value).keys = fields.keys ++ [key] := by
  induction fields with
  | nil => rfl
  | cons entry rest ih =>
    simp only [keys, List.map_cons, List.mem_cons, not_or] at h
    simpa [insert, keys, Ne.symm h.1] using ih h.2

def ofEntries (entries : List (String × Value)) : Fields :=
  entries.foldl (fun fields entry => insert fields entry.1 entry.2) []

def isNode (fields : Fields) : Bool := fields.contains "type"

def kind (fields : Fields) : String :=
  match fields.get? "type" with
  | some (.string name) => name
  | _ => ""

end Fields

namespace Value

def asNode? : Value → Option Fields
  | .object fields => if Fields.isNode fields then some fields else none
  | _ => none

def focusNode? : Value → Option (Focus Fields Value)
  | .object fields => if Fields.isNode fields then some ⟨fields, .object⟩ else none
  | _ => none

def isNode (v : Value) : Bool := v.asNode?.isSome

def asString? : Value → Option String
  | .string s => some s
  | _ => none

def asNumber? : Value → Option Number
  | .number n => some n
  | _ => none

def asBool? : Value → Option Bool
  | .bool b => some b
  | _ => none

def asList? : Value → Option (List Value)
  | .list items => some items
  | _ => none

def shape : Value → String
  | .null => "null"
  | .bool _ => "boolean"
  | .number _ => "number"
  | .string _ => "string"
  | .list _ => "list"
  | .object fields => if Fields.isNode fields then "node" else "object"

mutual

def display : Value → String
  | .null => "null"
  | .bool b => if b then "true" else "false"
  | .number n => n.display
  | .string s => s
  | .list items => Text.join "," (displayItems items)
  | .object _ => "[object Object]"

/-- In a list a null item shows as nothing. -/
def displayItems : List Value → List String
  | [] => []
  | .null :: rest => "" :: displayItems rest
  | item :: rest => item.display :: displayItems rest

end

end Value

end Arborist

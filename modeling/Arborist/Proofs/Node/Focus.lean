import Mathlib
import Arborist.Node.Path

/-!
A node is looked up in two ways, to be read and to be written, and each goes down the path by itself.
Both come to the same node. Putting back what is there leaves the tree as it is, and putting something
else there changes the one node.
-/

namespace Arborist

def Step.replace (step : Step) (node : Fields) (value : Value) : Fields :=
  match step.index with
  | none => node.insert step.field value
  | some i =>
    match node.get? step.field with
    | some (.list items) => node.insert step.field (.list (items.set i value))
    | _ => node

/-- The tree with the node at a path changed by `f`. -/
def Path.modify? (f : Fields → Fields) : Path → Fields → Option Fields
  | [], node => some (f node)
  | step :: rest, node =>
    match (step.value? node).bind Value.asNode? with
    | none => none
    | some inner => (modify? f rest inner).map fun changed => step.replace node (.object changed)

theorem Fields.insert_get? {fields : Fields} {key : String} {value : Value}
    (held : fields.get? key = some value) : fields.insert key value = fields := by
  induction fields with
  | nil => simp [get?] at held
  | cons entry rest ih =>
    obtain ⟨k, v⟩ := entry
    by_cases same : k = key
    · have first : v = value := by simpa [get?, same] using held
      rw [insert, if_pos same, first]
    · have apart : (key == k) = false := by simpa using Ne.symm same
      rw [insert, if_neg same, ih (by simpa [get?, List.lookup_cons, apart] using held)]

namespace Value

theorem eq_object_of_asNode? {value : Value} {inner : Fields} (node : value.asNode? = some inner) :
    value = .object inner ∧ inner.isNode = true := by
  cases value with
  | object fields =>
    simp only [asNode?] at node
    split at node
    · rename_i isNode
      exact ⟨congrArg _ (Option.some.inj node), Option.some.inj node ▸ isNode⟩
    · simp at node
  | _ => simp [asNode?] at node

theorem focusNode?_eq (value : Value) :
    value.focusNode? = value.asNode?.map fun fields => ⟨fields, .object⟩ := by
  cases value with
  | object fields =>
    rw [focusNode?, asNode?]
    split <;> rfl
  | _ => rfl

end Value

namespace Step

variable {step : Step} {node : Fields}

theorem focus?_eq (step : Step) (node : Fields) :
    step.focus? node = (step.value? node).map fun value => ⟨value, step.replace node⟩ := by
  obtain ⟨field, index⟩ := step
  unfold focus? value? Fields.focus? replace
  cases held : node.get? field with
  | none => rfl
  | some value =>
    cases index with
    | none => rfl
    | some i =>
      cases value with
      | list items => simp only [Option.map_some, Value.asList?, Option.bind_some]
      | _ => rfl

theorem replace_value? {value : Value} (leads : step.value? node = some value) :
    step.replace node value = node := by
  obtain ⟨field, index⟩ := step
  unfold value? at leads
  unfold replace
  cases held : node.get? field with
  | none => simp [held] at leads
  | some current =>
    cases index with
    | none =>
      obtain rfl : current = value := by simpa [held] using leads
      exact Fields.insert_get? held
    | some i =>
      cases current with
      | list items =>
        have place : items[i]? = some value := by simpa [held, Value.asList?] using leads
        have same : items.set i value = items := by
          obtain ⟨inside, here⟩ := List.getElem?_eq_some_iff.1 place
          rw [← here, List.set_getElem_self]
        dsimp only
        rw [same, Fields.insert_get? held]
      | _ => rfl

end Step

namespace Path

variable {path rest : Path} {step : Step} {root : Fields}

theorem focus?_cons : Path.focus? (step :: rest) root =
    ((step.value? root).bind Value.asNode?).bind fun inner => (rest.focus? inner).map fun deep =>
      ⟨deep.here, fun next => step.replace root (.object (deep.put next))⟩ := by
  rw [focus?, Step.focus?_eq]
  cases step.value? root with
  | none => rfl
  | some value =>
    dsimp only [Option.map_some, Option.bind_some]
    rw [Value.focusNode?_eq]
    cases value.asNode? <;> rfl

/-- Looking a node up to write it finds what looking it up to read it finds. -/
theorem here_focus? (path : Path) (root : Fields) :
    (path.focus? root).map Focus.here = path.resolve root := by
  induction path generalizing root with
  | nil => rfl
  | cons step rest ih =>
    rw [focus?_cons, resolve]
    cases (step.value? root).bind Value.asNode? with
    | none => rfl
    | some inner =>
      dsimp only [Option.bind_some]
      rw [← ih inner, Option.map_map]
      rfl

/-- What is put at the end of a path is a change of the node there. -/
theorem modify?_eq (f : Fields → Fields) (path : Path) (root : Fields) :
    path.modify? f root = (path.focus? root).map fun node => node.put (f node.here) := by
  induction path generalizing root with
  | nil => rfl
  | cons step rest ih =>
    rw [focus?_cons, modify?]
    cases (step.value? root).bind Value.asNode? with
    | none => rfl
    | some inner =>
      dsimp only [Option.bind_some]
      rw [ih inner, Option.map_map, Option.map_map]
      rfl

theorem put_here {node : Focus Fields Fields} (found : path.focus? root = some node) :
    node.put node.here = root := by
  induction path generalizing root node with
  | nil =>
    cases found
    rfl
  | cons step rest ih =>
    rw [focus?_cons] at found
    obtain ⟨inner, leads, inside⟩ := Option.bind_eq_some_iff.1 found
    obtain ⟨deep, there, rfl⟩ := Option.map_eq_some_iff.1 inside
    obtain ⟨value, here, isNode⟩ := Option.bind_eq_some_iff.1 leads
    obtain ⟨rfl, -⟩ := Value.eq_object_of_asNode? isNode
    dsimp only
    rw [ih there]
    exact Step.replace_value? here

end Path

theorem Target.write?_eq (target : Target) (value : Value) :
    target.write? value = target.path.modify? fun node => node.insert target.field value := by
  funext root
  rw [write?, Path.modify?_eq]

end Arborist

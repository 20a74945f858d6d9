import Mathlib
import Arborist.Proofs.Value.Nodes

/-!
Slots of a tree. A target reads a kind and a value where it leads to a field of a node. Writing a
value without parts over another changes what is read there and nothing that is read elsewhere, and
it takes no node away that a path leads to.
-/

namespace Arborist

namespace Value

/-- Neither a node nor a list, so that no path leads through it. -/
structure Flat (value : Value) : Prop where
  node : value.asNode? = none
  list : value.asList? = none

end Value

open Value (Flat)

namespace Fields

theorem get?_of_mem {node : Fields} (nodup : node.keys.Nodup) {name : String} {value : Value}
    (member : (name, value) ∈ node) : node.get? name = some value := by
  induction node with
  | nil => exact absurd member List.not_mem_nil
  | cons entry rest ih =>
    obtain ⟨key, first⟩ := entry
    obtain ⟨fresh, behind⟩ := List.nodup_cons.1 nodup
    rw [get?_cons]
    rcases List.mem_cons.1 member with here | later
    · cases here
      rw [if_pos rfl]
    · have other : key ≠ name := by
        rintro rfl
        exact fresh (List.mem_map.2 ⟨_, later, rfl⟩)
      rw [if_neg other]
      exact ih behind later

theorem mem_of_get? {node : Fields} {name : String} {value : Value}
    (found : node.get? name = some value) : (name, value) ∈ node := by
  induction node with
  | nil => simp at found
  | cons entry rest ih =>
    rw [get?_cons] at found
    split at found
    · rename_i same
      rw [Option.some.injEq] at found
      rw [← same, ← found]
      exact List.mem_cons_self
    · exact List.mem_cons_of_mem _ (ih found)

theorem isNode_insert {node : Fields} (isNode : node.isNode = true) (key : String) (value : Value) :
    (node.insert key value).isNode = true := by
  unfold Fields.isNode contains at *
  by_cases same : "type" = key
  · subst same
    rw [get?_insert_self]
    rfl
  · rw [get?_insert_of_ne node value same]
    exact isNode

theorem kind_insert_of_ne (node : Fields) {key : String} (value : Value) (other : key ≠ "type") :
    (node.insert key value).kind = node.kind := by
  rw [kind, get?_insert_of_ne node value (Ne.symm other), kind]

end Fields

namespace Step

variable {step other : Step} {node inner : Fields}

theorem get?_of_leads (leads : (step.value? node).bind Value.asNode? = some inner) :
    (step.index = none ∧ node.get? step.field = some (.object inner)) ∨
      ∃ i items, step.index = some i ∧ node.get? step.field = some (.list items) ∧
        items[i]? = some (.object inner) := by
  obtain ⟨value, found, isNode⟩ := Option.bind_eq_some_iff.1 leads
  obtain ⟨rfl, -⟩ := Value.eq_object_of_asNode? isNode
  unfold value? at found
  split at found
  · simp at found
  · rename_i held index
    simp only [Option.some.injEq] at found
    exact .inl ⟨index, found ▸ held⟩
  · rename_i kept i held index
    obtain ⟨items, isList, place⟩ := Option.bind_eq_some_iff.1 found
    cases kept with
    | list list =>
      cases isList
      exact .inr ⟨i, items, index, held, place⟩
    | _ => simp [Value.asList?] at isList

theorem field_ne_of_flat (leads : (step.value? node).bind Value.asNode? = some inner)
    {field : String} {value : Value} (held : node.get? field = some value) (flat : Flat value) :
    field ≠ step.field := by
  rintro rfl
  rcases get?_of_leads leads with ⟨-, found⟩ | ⟨i, items, -, found, -⟩
  · rw [held, Option.some.injEq] at found
    subst found
    obtain ⟨_, _, isNode⟩ := Option.bind_eq_some_iff.1 leads
    have := (Value.eq_object_of_asNode? isNode).2
    simpa [Value.asNode?, this] using flat.node
  · rw [held, Option.some.injEq] at found
    subst found
    simpa [Value.asList?] using flat.list

theorem get?_replace_of_ne (leads : (step.value? node).bind Value.asNode? = some inner)
    (value : Value) {field : String} (apart : field ≠ step.field) :
    (step.replace node value).get? field = node.get? field := by
  rcases get?_of_leads leads with ⟨index, found⟩ | ⟨i, items, index, found, -⟩
  · simp only [replace, index]
    exact Fields.get?_insert_of_ne node _ apart
  · simp only [replace, index, found]
    exact Fields.get?_insert_of_ne node _ apart

theorem kind_replace (leads : (step.value? node).bind Value.asNode? = some inner) (next : Fields) :
    (step.replace node (.object next)).kind = node.kind := by
  by_cases type : step.field = "type"
  · -- A kind is a string, so a node has none where a step leads through its place.
    rcases get?_of_leads leads with ⟨index, found⟩ | ⟨i, items, index, found, -⟩
    · rw [type] at found
      simp [replace, index, type, Fields.kind, found]
    · rw [type] at found
      simp [replace, index, type, Fields.kind, found]
  · rw [Fields.kind, get?_replace_of_ne leads _ (Ne.symm type), Fields.kind]

theorem isNode_replace (isNode : node.isNode = true)
    (leads : (step.value? node).bind Value.asNode? = some inner) (value : Value) :
    (step.replace node value).isNode = true := by
  rcases get?_of_leads leads with ⟨index, found⟩ | ⟨i, items, index, found, -⟩
  · simp only [replace, index]
    exact Fields.isNode_insert isNode _ _
  · simp only [replace, index, found]
    exact Fields.isNode_insert isNode _ _

theorem value?_replace_self (leads : (step.value? node).bind Value.asNode? = some inner)
    (value : Value) : step.value? (step.replace node value) = some value := by
  rcases get?_of_leads leads with ⟨index, found⟩ | ⟨i, items, index, found, place⟩
  · simp [value?, replace, index]
  · have inside : i < items.length := (List.getElem?_eq_some_iff.1 place).1
    simp [value?, replace, index, found, Value.asList?, inside]

theorem exists_elements_of_same_field (leads : (step.value? node).bind Value.asNode? = some inner)
    {elsewhere : Fields} (leads' : (other.value? node).bind Value.asNode? = some elsewhere)
    (apart : other ≠ step) (same : other.field = step.field) :
    ∃ i j items, step.index = some i ∧ other.index = some j ∧
      node.get? step.field = some (.list items) ∧ i ≠ j := by
  obtain ⟨field, index⟩ := step
  obtain ⟨field', index'⟩ := other
  simp only at same
  subst same
  rcases get?_of_leads leads with ⟨rfl, found⟩ | ⟨i, items, rfl, found, -⟩
  · rcases get?_of_leads leads' with ⟨rfl, -⟩ | ⟨j, list, rfl, found', -⟩
    · exact absurd rfl apart
    · simp only at found found'
      simp [found] at found'
  · rcases get?_of_leads leads' with ⟨rfl, found'⟩ | ⟨j, list, rfl, -, -⟩
    · simp only at found found'
      simp [found] at found'
    · refine ⟨i, j, items, rfl, rfl, found, ?_⟩
      rintro rfl
      exact apart rfl

theorem value?_replace_of_ne (leads : (step.value? node).bind Value.asNode? = some inner)
    {elsewhere : Fields} (leads' : (other.value? node).bind Value.asNode? = some elsewhere)
    (apart : other ≠ step) (value : Value) :
    other.value? (step.replace node value) = other.value? node := by
  by_cases same : other.field = step.field
  · obtain ⟨i, j, items, index, index', found, different⟩ :=
      exists_elements_of_same_field leads leads' apart same
    simp [value?, replace, same, index, index', found, Value.asList?,
      List.getElem?_set_ne different]
  · rw [value?, value?, get?_replace_of_ne leads value same]

end Step

namespace Target

/-- The kind of the node at the path and what the field of it holds. -/
def read? (target : Target) (root : Fields) : Option (String × Value) :=
  (target.path.resolve root).bind fun node => (node.get? target.field).map fun value => (node.kind, value)

theorem read?_eq_some {target : Target} {root : Fields} {kind : String} {value : Value} :
    target.read? root = some (kind, value) ↔
      ∃ node, target.path.resolve root = some node ∧ node.kind = kind ∧
        node.get? target.field = some value := by
  simp only [read?, Option.bind_eq_some_iff, Option.map_eq_some_iff, Prod.mk.injEq]
  constructor
  · rintro ⟨node, there, _, held, rfl, rfl⟩
    exact ⟨node, there, rfl, held⟩
  · rintro ⟨node, there, rfl, held⟩
    exact ⟨node, there, value, held, rfl, rfl⟩

theorem read?_cons (step : Step) (rest : Path) (field : String) (root : Fields) :
    (⟨step :: rest, field⟩ : Target).read? root =
      ((step.value? root).bind Value.asNode?).bind (⟨rest, field⟩ : Target).read? := by
  unfold read?
  simp only [Path.resolve]
  cases (step.value? root).bind Value.asNode? <;> rfl

end Target

theorem Path.resolve_append (path : Path) (step : Step) (root : Fields) :
    Path.resolve (path ++ [step]) root =
      (path.resolve root).bind fun node => (step.value? node).bind Value.asNode? := by
  induction path generalizing root with
  | nil =>
    simp only [List.nil_append, resolve, Option.bind_some]
    cases (step.value? root).bind Value.asNode? <;> rfl
  | cons first rest ih =>
    simp only [List.cons_append, resolve]
    cases (first.value? root).bind Value.asNode? with
    | none => rfl
    | some inner => exact ih inner

theorem Path.resolve_child {root node inner : Fields} {path : Path} {name : String}
    (there : path.resolve root = some node) (held : node.get? name = some (.object inner))
    (isNode : inner.isNode = true) : (path.child name).resolve root = some inner := by
  rw [child, resolve_append, there]
  simp [Step.value?, held, Value.asNode?, isNode]

theorem Path.resolve_element {root node inner : Fields} {path : Path} {name : String}
    {items : List Value} {i : Nat} (there : path.resolve root = some node)
    (held : node.get? name = some (.list items)) (place : items[i]? = some (.object inner))
    (isNode : inner.isNode = true) : (path.element name i).resolve root = some inner := by
  rw [element, resolve_append, there]
  simp [Step.value?, held, Value.asList?, place, Value.asNode?, isNode]

/-- Changing the node behind a step changes the node the step leads to and puts it back. -/
theorem Path.modify?_cons_eq_some {f : Fields → Fields} {step : Step} {rest : Path}
    {root changed : Fields} : Path.modify? f (step :: rest) root = some changed ↔
      ∃ inner next, (step.value? root).bind Value.asNode? = some inner ∧
        rest.modify? f inner = some next ∧ step.replace root (.object next) = changed := by
  simp only [modify?]
  cases leads : (step.value? root).bind Value.asNode? with
  | none => simp
  | some inner =>
    simp only [Option.map_eq_some_iff, Option.some.injEq, exists_and_left, exists_eq_left']

theorem Path.isNode_modify? {f : Fields → Fields}
    (kept : ∀ {node : Fields}, node.isNode = true → (f node).isNode = true) {path : Path}
    {root changed : Fields} (isNode : root.isNode = true) (done : path.modify? f root = some changed) :
    changed.isNode = true := by
  cases path with
  | nil =>
    simp only [modify?, Option.some.injEq] at done
    exact done ▸ kept isNode
  | cons step rest =>
    obtain ⟨inner, next, leads, -, rfl⟩ := modify?_cons_eq_some.1 done
    exact Step.isNode_replace isNode leads _

theorem Path.exists_modify? (f : Fields → Fields) {path : Path} {root node : Fields}
    (there : path.resolve root = some node) : ∃ changed, path.modify? f root = some changed := by
  induction path generalizing root with
  | nil => exact ⟨f root, rfl⟩
  | cons step rest ih =>
    simp only [resolve] at there
    split at there
    · simp at there
    · rename_i inner leads
      obtain ⟨next, done⟩ := ih there
      exact ⟨step.replace root (.object next), by simp [modify?, leads, done]⟩

namespace Target

variable {target other : Target} {value : Value} {root changed : Fields}

theorem read?_cons_replace {step : Step} {rest below : Path} {key field : String}
    {inner next : Fields}
    (leads : (step.value? root).bind Value.asNode? = some inner)
    (inside : rest.modify? (fun node => node.insert key value) inner = some next) :
    (⟨step :: below, field⟩ : Target).read? (step.replace root (.object next)) =
      (⟨below, field⟩ : Target).read? next := by
  have isNode : inner.isNode = true := by
    obtain ⟨_, -, isNode⟩ := Option.bind_eq_some_iff.1 leads
    exact (Value.eq_object_of_asNode? isNode).2
  have still := Path.isNode_modify? (fun isNode => Fields.isNode_insert isNode _ _) isNode inside
  rw [read?_cons, Step.value?_replace_self leads, Option.bind_some]
  simp only [Value.asNode?, still, if_true, Option.bind_some]

theorem read?_write_self (own : target.field ≠ "type") {kind : String} {old : Value}
    (held : target.read? root = some (kind, old))
    (done : target.write? value root = some changed) :
    target.read? changed = some (kind, value) := by
  obtain ⟨path, field⟩ := target
  simp only [write?_eq] at done own
  induction path generalizing root changed with
  | nil =>
    simp only [Path.modify?, Option.some.injEq] at done
    subst done
    obtain ⟨node, there, rfl, -⟩ := read?_eq_some.1 held
    simp only [Path.resolve, Option.some.injEq] at there
    subst there
    refine read?_eq_some.2 ⟨_, rfl, Fields.kind_insert_of_ne _ _ own, ?_⟩
    exact Fields.get?_insert_self ..
  | cons step rest ih =>
    obtain ⟨inner, next, leads, inside, rfl⟩ := Path.modify?_cons_eq_some.1 done
    rw [read?_cons, leads, Option.bind_some] at held
    rw [read?_cons_replace leads inside]
    exact ih held inside

/-- What is read elsewhere stays, as long as neither slot holds a value with parts. -/
theorem read?_write_of_ne (apart : other ≠ target) (own : target.field ≠ "type")
    {kind kind' : String} {old held : Value} (slot : target.read? root = some (kind, old))
    (flat : Flat old) (slot' : other.read? root = some (kind', held)) (flat' : Flat held)
    (done : target.write? value root = some changed) :
    other.read? changed = some (kind', held) := by
  obtain ⟨path, field⟩ := target
  obtain ⟨path', field'⟩ := other
  simp only [write?_eq] at done own
  induction path generalizing path' root changed with
  | nil =>
    simp only [Path.modify?, Option.some.injEq] at done
    subst done
    obtain ⟨node, there, rfl, here⟩ := read?_eq_some.1 slot
    simp only [Path.resolve, Option.some.injEq] at there
    subst there
    cases path' with
    | nil =>
      obtain ⟨node, there, rfl, here'⟩ := read?_eq_some.1 slot'
      simp only [Path.resolve, Option.some.injEq] at there
      subst there
      have different : field' ≠ field := by
        rintro rfl
        exact apart rfl
      refine read?_eq_some.2 ⟨_, rfl, Fields.kind_insert_of_ne _ _ own, ?_⟩
      rw [Fields.get?_insert_of_ne _ _ different]
      exact here'
    | cons step rest =>
      rw [read?_cons] at slot' ⊢
      obtain ⟨inner, leads, -⟩ := Option.bind_eq_some_iff.1 slot'
      have different := Step.field_ne_of_flat leads here flat
      rw [Step.value?, Fields.get?_insert_of_ne _ _ (Ne.symm different)]
      exact slot'
  | cons step rest ih =>
    obtain ⟨inner, next, leads, inside, rfl⟩ := Path.modify?_cons_eq_some.1 done
    rw [read?_cons, leads, Option.bind_some] at slot
    cases path' with
    | nil =>
      obtain ⟨node, there, rfl, here'⟩ := read?_eq_some.1 slot'
      simp only [Path.resolve, Option.some.injEq] at there
      subst there
      refine read?_eq_some.2 ⟨_, rfl, Step.kind_replace leads _, ?_⟩
      rw [Step.get?_replace_of_ne leads _ (Step.field_ne_of_flat leads here' flat')]
      exact here'
    | cons step' rest' =>
      rw [read?_cons] at slot' ⊢
      obtain ⟨inner', leads', slot'⟩ := Option.bind_eq_some_iff.1 slot'
      by_cases same : step' = step
      · subst same
        rw [leads, Option.some.injEq] at leads'
        subst leads'
        rw [← read?_cons, read?_cons_replace leads inside]
        refine ih slot _ slot' ?_ inside
        rintro ⟨rfl, rfl⟩
        exact apart rfl
      · rw [Step.value?_replace_of_ne leads leads' same, leads', Option.bind_some]
        exact slot'

end Target

end Arborist

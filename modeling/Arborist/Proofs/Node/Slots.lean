import Mathlib
import Arborist.Editor
import Arborist.Proofs.Node.Target

/-!
Writing into slots. A slot is a field of the node at a path, and a write changes this slot and
nothing beside it: what it holds afterwards is what was written, every slot that neither lies inside
it nor around it holds what it held, and of two writes to one slot only the last counts. Writes to
slots that lie apart can change places, as long as neither of them brings in a new key: new keys go
last, so their order is the order of the writes.
-/

namespace Arborist

namespace Fields

theorem mem_keys_of_get? {node : Fields} {key : String} {value : Value}
    (found : node.get? key = some value) : key ∈ node.keys :=
  List.mem_map.2 ⟨_, mem_of_get? found, rfl⟩

theorem insert_insert_self (node : Fields) (key : String) (value again : Value) :
    (node.insert key value).insert key again = node.insert key again := by
  induction node with
  | nil => simp [insert]
  | cons entry rest ih =>
    by_cases same : entry.1 = key
    · simp [insert, same]
    · simp [insert, same, ih]

theorem insert_insert_comm {node : Fields} {key other : String} (apart : key ≠ other)
    (held : key ∈ node.keys) (value second : Value) :
    (node.insert key value).insert other second = (node.insert other second).insert key value := by
  induction node with
  | nil => simp [keys] at held
  | cons entry rest ih =>
    obtain ⟨k, old⟩ := entry
    by_cases first : k = key
    · subst first
      simp [insert, apart]
    · by_cases last : k = other
      · subst last
        simp [insert, first]
      · simp only [keys, List.map_cons, List.mem_cons, Ne.symm first, false_or] at held
        simp [insert, first, last, ih held]

end Fields

namespace Step

variable {step other : Step} {node inner elsewhere : Fields}

theorem field_mem_keys (leads : (step.value? node).bind Value.asNode? = some inner) :
    step.field ∈ node.keys := by
  rcases get?_of_leads leads with ⟨-, found⟩ | ⟨i, items, -, found, -⟩
  · exact Fields.mem_keys_of_get? found
  · exact Fields.mem_keys_of_get? found

theorem leads_replace_of_ne (leads : (step.value? node).bind Value.asNode? = some inner)
    (apart : other ≠ step) (next : Fields) :
    (other.value? (step.replace node (.object next))).bind Value.asNode? =
      (other.value? node).bind Value.asNode? := by
  by_cases same : other.field = step.field
  · obtain ⟨field, index⟩ := step
    obtain ⟨field', index'⟩ := other
    simp only at same
    subst same
    -- The field holds a node or a list; a step of the other kind leads to nothing in it.
    rcases get?_of_leads leads with ⟨rfl, found⟩ | ⟨i, items, rfl, found, -⟩
    · cases index' with
      | none => exact absurd rfl apart
      | some j => simp_all [value?, replace, Value.asList?]
    · cases index' with
      | none => simp_all [value?, replace, Value.asNode?]
      | some j =>
        have different : i ≠ j := by
          rintro rfl
          exact apart rfl
        simp_all [value?, replace, Value.asList?, List.getElem?_set_ne different]
  · rw [value?, value?, get?_replace_of_ne leads _ same]

theorem replace_replace_self (leads : (step.value? node).bind Value.asNode? = some inner)
    (value again : Value) : step.replace (step.replace node value) again = step.replace node again := by
  rcases get?_of_leads leads with ⟨index, -⟩ | ⟨i, items, index, found, -⟩
  · simp only [replace, index, Fields.insert_insert_self]
  · simp [replace, index, found, Fields.insert_insert_self]

theorem replace_insert_comm (leads : (step.value? node).bind Value.asNode? = some inner)
    {key : String} (apart : step.field ≠ key) (value second : Value) :
    step.replace (node.insert key second) value = (step.replace node value).insert key second := by
  have held := field_mem_keys leads
  rcases get?_of_leads leads with ⟨index, -⟩ | ⟨i, items, index, found, -⟩
  · simp only [replace, index]
    exact (Fields.insert_insert_comm apart held _ _).symm
  · have still : (node.insert key second).get? step.field = some (.list items) := by
      rw [Fields.get?_insert_of_ne node second apart, found]
    simp only [replace, index, found, still]
    exact (Fields.insert_insert_comm apart held _ _).symm

theorem replace_replace_comm (leads : (step.value? node).bind Value.asNode? = some inner)
    (leads' : (other.value? node).bind Value.asNode? = some elsewhere) (apart : other ≠ step)
    (value second : Value) :
    step.replace (other.replace node second) value =
      other.replace (step.replace node value) second := by
  by_cases same : step.field = other.field
  · obtain ⟨i, j, items, index, index', found, different⟩ :=
      exists_elements_of_same_field leads leads' apart same.symm
    simp [replace, ← same, index, index', found, Fields.insert_insert_self,
      List.set_comm _ _ different.symm]
  · -- Beside another field the step replaces what it would replace in the node itself.
    rcases get?_of_leads leads' with ⟨index, -⟩ | ⟨i, items, index, found, -⟩
    · simp only [replace.eq_1 other, index]
      exact replace_insert_comm leads same value second
    · have still : (step.replace node value).get? other.field = some (.list items) := by
        rw [get?_replace_of_ne leads value (Ne.symm same), found]
      simp only [replace.eq_1 other, index, found, still]
      exact replace_insert_comm leads same value _

end Step

namespace Path

/-- The path leads on from the node of the slot through the slot's field. -/
def Through (path : Path) (slot : Target) : Prop :=
  ∃ step rest, path = slot.path ++ step :: rest ∧ step.field = slot.field

variable {path rest : Path} {step : Step} {root node changed : Fields} {f g : Fields → Fields}

theorem through_root {field : String} :
    Path.Through (step :: rest) ⟨[], field⟩ ↔ step.field = field := by
  constructor
  · rintro ⟨first, more, shape, same⟩
    obtain ⟨rfl, -⟩ := List.cons.inj shape
    exact same
  · exact fun same => ⟨step, rest, rfl, same⟩

theorem through_cons {field : String} :
    Path.Through (step :: rest) ⟨step :: path, field⟩ ↔ Path.Through rest ⟨path, field⟩ := by
  constructor
  · rintro ⟨first, more, shape, same⟩
    exact ⟨first, more, (List.cons.inj shape).2, same⟩
  · rintro ⟨first, more, rfl, same⟩
    exact ⟨first, more, rfl, same⟩

theorem modify?_eq_bind (f : Fields → Fields) (path : Path) (root : Fields) :
    path.modify? f root = (path.resolve root).bind fun node => path.modify? (fun _ => f node) root := by
  induction path generalizing root with
  | nil => rfl
  | cons step rest ih =>
    simp only [modify?, resolve]
    cases (step.value? root).bind Value.asNode? with
    | none => rfl
    | some inner =>
      dsimp only
      rw [ih inner]
      cases resolve rest inner <;> rfl

theorem isSome_modify? (f : Fields → Fields) (path : Path) (root : Fields) :
    (path.modify? f root).isSome = (path.resolve root).isSome := by
  cases there : path.resolve root with
  | none => rw [modify?_eq_bind, there]; rfl
  | some node =>
    obtain ⟨changed, done⟩ := exists_modify? f there
    rw [done]
    rfl

variable (kept : ∀ {node : Fields}, node.isNode = true → (f node).isNode = true)

include kept

theorem isNode_of_leads {inner next : Fields}
    (leads : (step.value? root).bind Value.asNode? = some inner)
    (inside : rest.modify? f inner = some next) : next.isNode = true := by
  obtain ⟨_, -, isNode⟩ := Option.bind_eq_some_iff.1 leads
  exact isNode_modify? kept (Value.eq_object_of_asNode? isNode).2 inside

theorem leads_replace_self {inner next : Fields}
    (leads : (step.value? root).bind Value.asNode? = some inner)
    (inside : rest.modify? f inner = some next) :
    (step.value? (step.replace root (.object next))).bind Value.asNode? = some next := by
  rw [Step.value?_replace_self leads, Option.bind_some, Value.asNode?,
    if_pos (isNode_of_leads kept leads inside)]

theorem resolve_modify? (there : path.resolve root = some node)
    (done : path.modify? f root = some changed) : path.resolve changed = some (f node) := by
  induction path generalizing root changed with
  | nil =>
    simp only [resolve, modify?, Option.some.injEq] at there done ⊢
    rw [← done, there]
  | cons step rest ih =>
    obtain ⟨inner, next, leads, inside, rfl⟩ := modify?_cons_eq_some.1 done
    simp only [resolve, leads] at there
    simp only [resolve, leads_replace_self kept leads inside]
    exact ih there inside

omit kept in
theorem resolve_put {held : Focus Fields Fields} (found : path.focus? root = some held)
    (isNode : node.isNode = true) : path.resolve (held.put node) = some node := by
  have there : path.resolve root = some held.here := by rw [← here_focus?, found, Option.map_some]
  have done : path.modify? (fun _ => node) root = some (held.put node) := by
    rw [modify?_eq, found, Option.map_some]
  exact resolve_modify? (fun _ => isNode) there done

theorem modify?_modify? (g : Fields → Fields) (path : Path) (root : Fields) :
    (path.modify? f root).bind (path.modify? g) = path.modify? (g ∘ f) root := by
  induction path generalizing root with
  | nil => rfl
  | cons step rest ih =>
    simp only [modify?]
    cases leads : (step.value? root).bind Value.asNode? with
    | none => rfl
    | some inner =>
      dsimp only
      rw [← ih inner]
      cases inside : modify? f rest inner with
      | none => rfl
      | some next =>
        have found := leads_replace_self kept leads inside
        simp only [Option.map_some, Option.bind_some, found]
        simp only [Step.replace_replace_self leads]

end Path

namespace Target

variable {slot other : Target} {value second : Value} {root changed : Fields}

/-- The tree after a write, seen from the tree before it. -/
structure Written (slot : Target) (value : Value) (before after : Fields) : Prop where
  own : ∃ old new, slot.path.resolve before = some old ∧ slot.path.resolve after = some new ∧
    new.get? slot.field = some value ∧ (∀ key ≠ slot.field, new.get? key = old.get? key) ∧
    new.keys = if slot.field ∈ old.keys then old.keys else old.keys ++ [slot.field]
  frame : ∀ (path : Path) (field : String), ¬ path.Through slot → ⟨path, field⟩ ≠ slot →
    ¬ slot.path.Through ⟨path, field⟩ →
    (path.resolve after).map (·.get? field) = (path.resolve before).map (·.get? field)

/-- Both paths are followed as long as they agree. Where they part, the step of the one leads to what
it led to; where one of them ends, the slots are fields of one node or lie below different fields. -/
theorem get?_write_elsewhere (done : slot.write? value root = some changed) (path : Path)
    (field : String) (outside : ¬ path.Through slot) (apart : ⟨path, field⟩ ≠ slot)
    (below : ¬ slot.path.Through ⟨path, field⟩) :
    (path.resolve changed).map (·.get? field) = (path.resolve root).map (·.get? field) := by
  obtain ⟨front, key⟩ := slot
  simp only [write?_eq] at done
  induction front generalizing path root changed with
  | nil =>
    simp only [Path.modify?, Option.some.injEq] at done
    subst done
    cases path with
    | nil =>
      have different : field ≠ key := by
        rintro rfl
        exact apart rfl
      simp only [Path.resolve, Option.map_some, Fields.get?_insert_of_ne _ _ different]
    | cons step rest =>
      have different : step.field ≠ key := fun same => outside (Path.through_root.2 same)
      simp only [Path.resolve, Step.value?, Fields.get?_insert_of_ne _ _ different]
  | cons step front ih =>
    obtain ⟨inner, next, leads, inside, rfl⟩ := Path.modify?_cons_eq_some.1 done
    have found := Path.leads_replace_self (fun isNode => Fields.isNode_insert isNode _ _) leads inside
    cases path with
    | nil =>
      have different : step.field ≠ field := fun same => below (Path.through_root.2 same)
      simp only [Path.resolve, Option.map_some, Step.get?_replace_of_ne leads _ (Ne.symm different)]
    | cons first rest =>
      by_cases same : first = step
      · subst same
        simp only [Path.resolve, found, leads]
        refine ih rest ?_ ?_ ?_ inside
        · exact fun inner => outside (Path.through_cons.2 inner)
        · rintro ⟨rfl, rfl⟩
          exact apart rfl
        · exact fun inner => below (Path.through_cons.2 inner)
      · simp only [Path.resolve, Step.leads_replace_of_ne leads same]

theorem written_of_write? (done : slot.write? value root = some changed) :
    Written slot value root changed := by
  refine ⟨?_, get?_write_elsewhere done⟩
  rw [write?_eq] at done
  cases there : slot.path.resolve root with
  | none =>
    rw [Path.modify?_eq_bind, there] at done
    simp at done
  | some node =>
    have after := Path.resolve_modify? (fun isNode => Fields.isNode_insert isNode _ _) there done
    refine ⟨node, _, rfl, after, Fields.get?_insert_self .., ?_, ?_⟩
    · exact fun key other => Fields.get?_insert_of_ne node value other
    · split
      · rename_i held
        exact Fields.keys_insert_of_mem value held
      · rename_i fresh
        exact Fields.keys_insert_of_not_mem value fresh

theorem write?_write?_self (slot : Target) (value again : Value) (root : Fields) :
    (slot.write? value root).bind (slot.write? again) = slot.write? again root := by
  rw [write?_eq, write?_eq, Path.modify?_modify? fun isNode => Fields.isNode_insert isNode _ _]
  congr 1
  funext node
  exact Fields.insert_insert_self node slot.field value again

theorem write?_comm_of_root {key field : String} {path : Path} (value second : Value)
    (held : key ∈ root.keys) (apart : (⟨path, field⟩ : Target) ≠ ⟨[], key⟩)
    (outside : ¬ path.Through ⟨[], key⟩) :
    (⟨path, field⟩ : Target).write? second (root.insert key value) =
      ((⟨path, field⟩ : Target).write? second root).map fun changed => changed.insert key value := by
  cases path with
  | nil =>
    have different : key ≠ field := by
      rintro rfl
      exact apart rfl
    simp only [write?_eq, Path.modify?, Option.map_some, Fields.insert_insert_comm different held]
  | cons step rest =>
    have different : step.field ≠ key := fun same => outside (Path.through_root.2 same)
    have same : step.value? (root.insert key value) = step.value? root := by
      simp only [Step.value?, Fields.get?_insert_of_ne _ _ different]
    simp only [write?_eq, Path.modify?, same]
    cases leads : (step.value? root).bind Value.asNode? with
    | none => rfl
    | some inner =>
      simp only [Option.map_map]
      congr 1
      funext next
      exact Step.replace_insert_comm leads different _ _

theorem write?_write?_comm (apart : other ≠ slot) (outside : ¬ other.path.Through slot)
    (below : ¬ slot.path.Through other) {kind kind' : String} {old old' : Value}
    (held : slot.read? root = some (kind, old)) (held' : other.read? root = some (kind', old'))
    (value second : Value) :
    (slot.write? value root).bind (other.write? second) =
      (other.write? second root).bind (slot.write? value) := by
  obtain ⟨front, key⟩ := slot
  obtain ⟨path, field⟩ := other
  induction front generalizing path root with
  | nil =>
    obtain ⟨node, there, -, found⟩ := read?_eq_some.1 held
    simp only [Path.resolve, Option.some.injEq] at there
    subst there
    have key := Fields.mem_keys_of_get? found
    change (⟨path, field⟩ : Target).write? second (root.insert _ value) =
      ((⟨path, field⟩ : Target).write? second root).bind fun changed => some (changed.insert _ value)
    exact (write?_comm_of_root value second key apart outside).trans (Option.map_eq_bind ..)
  | cons step front ih =>
    cases path with
    | nil =>
      obtain ⟨node, there, -, found⟩ := read?_eq_some.1 held'
      simp only [Path.resolve, Option.some.injEq] at there
      subst there
      have field := Fields.mem_keys_of_get? found
      change ((⟨step :: front, _⟩ : Target).write? value root).bind
          (fun changed => some (changed.insert _ second)) =
        (⟨step :: front, _⟩ : Target).write? value (root.insert _ second)
      exact (Option.map_eq_bind ..).symm.trans
        (write?_comm_of_root second value field (Ne.symm apart) below).symm
    | cons first rest =>
      rw [read?_cons] at held held'
      obtain ⟨inner, leads, slot⟩ := Option.bind_eq_some_iff.1 held
      obtain ⟨inner', leads', slot'⟩ := Option.bind_eq_some_iff.1 held'
      obtain ⟨next, inside⟩ := Path.exists_modify? (fun node => node.insert key value)
        (read?_eq_some.1 slot).choose_spec.1
      obtain ⟨next', inside'⟩ := Path.exists_modify? (fun node => node.insert field second)
        (read?_eq_some.1 slot').choose_spec.1
      have found := Path.leads_replace_self (fun isNode => Fields.isNode_insert isNode _ _) leads inside
      have found' :=
        Path.leads_replace_self (fun isNode => Fields.isNode_insert isNode _ _) leads' inside'
      simp only [write?_eq, Path.modify?, leads, leads', inside, inside', Option.map_some,
        Option.bind_some]
      by_cases same : first = step
      · subst same
        rw [leads, Option.some.injEq] at leads'
        subst leads'
        have both := ih slot rest slot' (by rintro ⟨rfl, rfl⟩; exact apart rfl)
          (fun through => outside (Path.through_cons.2 through))
          (fun through => below (Path.through_cons.2 through))
        simp only [write?_eq, inside, inside', Option.bind_some] at both
        simp only [found, found', both, Step.replace_replace_self leads]
      · have still := Step.leads_replace_of_ne leads same next
        have still' := Step.leads_replace_of_ne leads' (Ne.symm same) next'
        simp only [still, still', leads, leads', inside, inside', Option.map_some,
          Step.replace_replace_comm leads leads' same]

end Target

namespace Editor

variable (editor : Editor) (slot : Target) (value : Value)

theorem write_eq : editor.write ⟨slot, value⟩ =
    match slot.write? value editor.root with
    | some changed => ({ editor with root := changed }, .ok ())
    | none => (editor, .error (.nodeNotFound slot.path)) := by
  unfold write
  cases slot.write? value editor.root <;> rfl

theorem write_of_missing (missing : slot.path.resolve editor.root = none) :
    editor.write ⟨slot, value⟩ = (editor, .error (.nodeNotFound slot.path)) := by
  have found := Path.isSome_modify? (fun node => node.insert slot.field value) slot.path editor.root
  rw [missing, Option.isSome_none, Option.isSome_eq_false_iff, Option.isNone_iff_eq_none] at found
  rw [write_eq, Target.write?_eq, found]

theorem write_of_resolve {node : Fields} (there : slot.path.resolve editor.root = some node) :
    ∃ changed, slot.write? value editor.root = some changed ∧
      editor.write ⟨slot, value⟩ = ({ editor with root := changed }, .ok ()) := by
  obtain ⟨changed, done⟩ := Path.exists_modify? (fun node => node.insert slot.field value) there
  have written : slot.write? value editor.root = some changed := by rw [Target.write?_eq, done]
  exact ⟨changed, written, by rw [write_eq, written]⟩

theorem write_eq_error_iff {e : EditError} : (editor.write ⟨slot, value⟩).2 = .error e ↔
    slot.path.resolve editor.root = none ∧ e = .nodeNotFound slot.path := by
  cases there : slot.path.resolve editor.root with
  | none => simp [write_of_missing editor slot value there, eq_comm]
  | some node =>
    obtain ⟨changed, -, done⟩ := write_of_resolve editor slot value there
    simp [done]

/-- Writes into an editor's tree. Looking a node up to write it finds what looking it up to read it
finds; putting that node back leaves the tree, and any other node that is put there is found there. A
write fails exactly where its path leads to no node, and the editor stays as it was; any other write
changes the tree alone, and there the slot and nothing beside it. Writing a slot again leaves the tree
as the last write alone would; and writes to two slots that are there, of which neither lies inside
the other, give one tree in either order. -/
theorem write_is_framed :
    ((slot.path.focus? editor.root).map Focus.here = slot.path.resolve editor.root ∧
      ∀ held, slot.path.focus? editor.root = some held → held.put held.here = editor.root ∧
        ∀ node : Fields, node.isNode = true → slot.path.resolve (held.put node) = some node) ∧
    (∀ e, (editor.write ⟨slot, value⟩).2 = .error e ↔
      slot.path.resolve editor.root = none ∧ e = .nodeNotFound slot.path) ∧
    (slot.path.resolve editor.root = none → (editor.write ⟨slot, value⟩).1 = editor) ∧
    (∀ node, slot.path.resolve editor.root = some node → ∃ changed,
      editor.write ⟨slot, value⟩ = ({ editor with root := changed }, .ok ()) ∧
      slot.Written value editor.root changed ∧
      ∀ again, ({ editor with root := changed } : Editor).write ⟨slot, again⟩ =
        editor.write ⟨slot, again⟩) ∧
    ∀ (other : Target) (second : Value), (slot.read? editor.root).isSome = true →
      (other.read? editor.root).isSome = true → other ≠ slot → ¬ other.path.Through slot →
      ¬ slot.path.Through other → ∃ first last both,
        editor.write ⟨slot, value⟩ = (first, .ok ()) ∧
        first.write ⟨other, second⟩ = (both, .ok ()) ∧
        editor.write ⟨other, second⟩ = (last, .ok ()) ∧
        last.write ⟨slot, value⟩ = (both, .ok ()) := by
  refine ⟨⟨Path.here_focus? _ _, fun held found => ⟨Path.put_here found, fun node isNode => ?_⟩⟩,
    fun e => write_eq_error_iff editor slot value, fun missing => ?_, fun node there => ?_,
    fun other second held held' apart outside below => ?_⟩
  · exact Path.resolve_put found isNode
  · rw [write_of_missing editor slot value missing]
  · obtain ⟨changed, done, wrote⟩ := write_of_resolve editor slot value there
    refine ⟨changed, wrote, Target.written_of_write? done, fun again => ?_⟩
    have last := Target.write?_write?_self slot value again editor.root
    rw [done, Option.bind_some] at last
    -- The path leads to a node before and after the write, so neither write fails.
    obtain ⟨again', done', wrote'⟩ := write_of_resolve editor slot again there
    rw [done'] at last
    rw [wrote', write_eq, last]
  · obtain ⟨⟨kind, old⟩, here⟩ := Option.isSome_iff_exists.1 held
    obtain ⟨⟨kind', old'⟩, here'⟩ := Option.isSome_iff_exists.1 held'
    obtain ⟨node, there, -⟩ := Target.read?_eq_some.1 here
    obtain ⟨node', there', -⟩ := Target.read?_eq_some.1 here'
    obtain ⟨first, done, wrote⟩ := write_of_resolve editor slot value there
    obtain ⟨last, done', wrote'⟩ := write_of_resolve editor other second there'
    have same := Target.write?_write?_comm apart outside below here here' value second
    rw [done, done', Option.bind_some, Option.bind_some] at same
    -- The slot that is not written first still holds what it held, so the second write succeeds.
    have still := Target.get?_write_elsewhere done other.path other.field outside apart below
    rw [there', Option.map_some, Option.map_eq_some_iff] at still
    obtain ⟨node'', there'', -⟩ := still
    obtain ⟨both, done'', wrote''⟩ :=
      write_of_resolve { editor with root := first } other second there''
    refine ⟨_, _, _, wrote, wrote'', wrote', ?_⟩
    rw [write_eq]
    dsimp only at done'' ⊢
    rw [← same, done'']

theorem write_is_framed_siblings :
    let root : Fields := [("type", .string "List"), ("body", .list
      [.object [("type", .string "Item"), ("value", .null)],
        .object [("type", .string "Item"), ("value", .null)]])]
    let editor : Editor := ⟨root, "", none, [], 1⟩
    let slot : Target := ⟨Path.root.element "body" 0, "value"⟩
    let other : Target := ⟨Path.root.element "body" 1, "value"⟩
    ∃ first last both, editor.write ⟨slot, .bool true⟩ = (first, .ok ()) ∧
      first.write ⟨other, .list []⟩ = (both, .ok ()) ∧
      editor.write ⟨other, .list []⟩ = (last, .ok ()) ∧
      last.write ⟨slot, .bool true⟩ = (both, .ok ()) := by
  intro root editor slot other
  have apart : other ≠ slot := by decide
  have outside : ¬ other.path.Through slot := by
    rintro ⟨step, rest, shape, -⟩
    simp [other, slot, Path.root, Path.element] at shape
  have below : ¬ slot.path.Through other := by
    rintro ⟨step, rest, shape, -⟩
    simp [other, slot, Path.root, Path.element] at shape
  exact (write_is_framed editor slot (.bool true)).2.2.2.2 other (.list []) (by decide +kernel)
    (by decide +kernel) apart outside below

end Editor

end Arborist

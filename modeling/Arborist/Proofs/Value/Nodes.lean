import Mathlib
import Arborist.Proofs.Node.Focus

/-!
Values taken node by node: changed at every node, checked at every node, and compared up to what may
be written into the fields of nodes of a kind.
-/

namespace Arborist

theorem Fields.get?_cons (k : String) (v : Value) (rest : Fields) (key : String) :
    Fields.get? ((k, v) :: rest) key = if k = key then some v else Fields.get? rest key := by
  by_cases hit : k = key
  · simp [Fields.get?, hit]
  · have miss : (key == k) = false := by simpa using Ne.symm hit
    simp [Fields.get?, List.lookup_cons, hit, miss]

@[simp] theorem Fields.get?_nil (key : String) : Fields.get? [] key = none := rfl

theorem Fields.get?_append (front rest : Fields) (key : String) :
    Fields.get? (front ++ rest) key = (Fields.get? front key).or (Fields.get? rest key) := by
  induction front with
  | nil => rfl
  | cons entry more ih =>
    rw [List.cons_append, Fields.get?_cons, Fields.get?_cons]
    split
    · rfl
    · exact ih

theorem Fields.get?_eq_none {fields : Fields} {key : String} (other : ∀ entry ∈ fields, entry.1 ≠ key) :
    Fields.get? fields key = none := by
  induction fields with
  | nil => rfl
  | cons entry more ih =>
    obtain ⟨first, rest⟩ := List.forall_mem_cons.mp other
    rw [Fields.get?_cons, if_neg first, ih rest]

namespace Value

@[elab_as_elim]
theorem induct {motive : Value → Prop} (null : motive .null) (bool : ∀ b, motive (.bool b))
    (number : ∀ n, motive (.number n)) (string : ∀ s, motive (.string s))
    (list : ∀ items, (∀ item ∈ items, motive item) → motive (.list items))
    (object : ∀ fields, (∀ entry ∈ fields, motive entry.2) → motive (.object fields))
    (v : Value) : motive v := by
  refine @Value.rec motive (fun items => ∀ item ∈ items, motive item)
    (fun fields => ∀ entry ∈ fields, motive entry.2) (fun entry => motive entry.2)
    null bool number string list object ?_ ?_ ?_ ?_ (fun _ _ holds => holds) v
  · simp
  · exact fun _ _ head tail => List.forall_mem_cons.mpr ⟨head, tail⟩
  · simp
  · exact fun _ _ head tail => List.forall_mem_cons.mpr ⟨head, tail⟩

mutual

def mapNodes (f : Fields → Fields) : Value → Value
  | .list items => .list (mapNodesItems f items)
  | .object fields =>
    let inner := mapNodesFields f fields
    .object (if Fields.isNode fields then f inner else inner)
  | other => other

def mapNodesItems (f : Fields → Fields) : List Value → List Value
  | [] => []
  | item :: rest => item.mapNodes f :: mapNodesItems f rest

def mapNodesFields (f : Fields → Fields) : List (String × Value) → List (String × Value)
  | [] => []
  | (key, value) :: rest => (key, value.mapNodes f) :: mapNodesFields f rest

end

mutual

def EachNode (holds : Fields → Prop) : Value → Prop
  | .list items => EachItem holds items
  | .object fields => (Fields.isNode fields = true → holds fields) ∧ EachField holds fields
  | _ => True

def EachItem (holds : Fields → Prop) : List Value → Prop
  | [] => True
  | item :: rest => item.EachNode holds ∧ EachItem holds rest

def EachField (holds : Fields → Prop) : List (String × Value) → Prop
  | [] => True
  | (_, value) :: rest => value.EachNode holds ∧ EachField holds rest

end

/-- What may be written over the first value, in a field of a node of some kind. -/
abbrev Allowance := (kind field : String) → Value → Value → Prop

mutual

/-- The second value is the first but for what may have been written into fields of its nodes. -/
def Varies (allows : Allowance) : Value → Value → Prop
  | .list items, other => ∃ others, other = .list others ∧ VariesItems allows items others
  | .object fields, other =>
    ∃ others, other = .object others ∧ VariesFields allows (Fields.kind fields) fields others
  | value, other => other = value

def VariesItems (allows : Allowance) : List Value → List Value → Prop
  | [], others => others = []
  | item :: rest, others =>
    ∃ other more, others = other :: more ∧ item.Varies allows other ∧ VariesItems allows rest more

def VariesFields (allows : Allowance) (kind : String) :
    List (String × Value) → List (String × Value) → Prop
  | [], others => others = []
  | (key, value) :: rest, others =>
    ∃ other more, others = (key, other) :: more ∧
      (value.Varies allows other ∨ allows kind key value other) ∧
      VariesFields allows kind rest more

end

@[simp] theorem mapNodesItems_eq_map (f : Fields → Fields) (items : List Value) :
    mapNodesItems f items = items.map (mapNodes f) := by
  induction items with
  | nil => rfl
  | cons item rest ih => rw [mapNodesItems, ih, List.map_cons]

theorem mapNodesFields_append (f : Fields → Fields) (front rest : List (String × Value)) :
    mapNodesFields f (front ++ rest) = mapNodesFields f front ++ mapNodesFields f rest := by
  induction front with
  | nil => rfl
  | cons entry more ih =>
    rw [List.cons_append, mapNodesFields, mapNodesFields, ih, List.cons_append]

theorem eachItem_iff {holds : Fields → Prop} {items : List Value} :
    EachItem holds items ↔ ∀ item ∈ items, item.EachNode holds := by
  induction items with
  | nil => simp [EachItem]
  | cons item rest ih => simp [EachItem, ih]

theorem eachNode_list {holds : Fields → Prop} {α : Type} {list : List α} {encode : α → Value}
    (members : ∀ a ∈ list, (encode a).EachNode holds) :
    (Value.list (list.map encode)).EachNode holds :=
  eachItem_iff.mpr (List.forall_mem_map.mpr members)

theorem eachField_append {holds : Fields → Prop} {front rest : List (String × Value)} :
    EachField holds (front ++ rest) ↔ EachField holds front ∧ EachField holds rest := by
  induction front with
  | nil => simp [EachField]
  | cons entry more ih => simp [EachField, ih, and_assoc]

theorem EachField.get? {holds : Fields → Prop} {fields : Fields} (each : EachField holds fields)
    {key : String} {value : Value} (found : fields.get? key = some value) :
    value.EachNode holds := by
  induction fields with
  | nil => simp [Fields.get?] at found
  | cons entry rest ih =>
    rw [Fields.get?_cons] at found
    split at found
    · exact Option.some.inj found ▸ each.1
    · exact ih each.2 found

theorem EachField.step {holds : Fields → Prop} {fields : Fields} (each : EachField holds fields)
    {step : Step} {inner : Fields} (leads : (step.value? fields).bind asNode? = some inner) :
    holds inner ∧ EachField holds inner := by
  obtain ⟨value, there, node⟩ := Option.bind_eq_some_iff.mp leads
  obtain ⟨rfl, isNode⟩ := eq_object_of_asNode? node
  have inside : (Value.object inner).EachNode holds := by
    unfold Step.value? at there
    split at there
    · simp at there
    · rename_i value found _
      exact each.get? (found.trans there)
    · rename_i value i found _
      obtain ⟨items, list, place⟩ := Option.bind_eq_some_iff.mp there
      have held : (Value.list items).EachNode holds := by
        cases value with
        | list _ =>
          cases list
          exact each.get? found
        | _ => simp [asList?] at list
      exact eachItem_iff.mp held _ (List.mem_of_getElem? place)
  exact ⟨inside.1 isNode, inside.2⟩

theorem EachField.resolve {holds : Fields → Prop} {root : Fields} (one : holds root)
    (each : EachField holds root) {path : Path} {node : Fields}
    (there : path.resolve root = some node) : holds node := by
  induction path generalizing root with
  | nil =>
    simp only [Path.resolve, Option.some.injEq] at there
    exact there ▸ one
  | cons step rest ih =>
    simp only [Path.resolve] at there
    split at there
    · simp at there
    · rename_i inner leads
      obtain ⟨inside, below⟩ := each.step leads
      exact ih inside below there

section Varies

variable {allows : Allowance}

theorem varies_refl (v : Value) : v.Varies allows v := by
  induction v using induct with
  | list items ih =>
    refine ⟨items, rfl, ?_⟩
    induction items with
    | nil => rfl
    | cons item rest inner =>
      obtain ⟨first, others⟩ := List.forall_mem_cons.mp ih
      exact ⟨item, rest, rfl, first, inner others⟩
  | object fields ih =>
    refine ⟨fields, rfl, ?_⟩
    generalize Fields.kind fields = kind
    induction fields with
    | nil => rfl
    | cons entry rest inner =>
      obtain ⟨first, others⟩ := List.forall_mem_cons.mp ih
      exact ⟨entry.2, rest, rfl, .inl first, inner others⟩
  | _ => rfl

theorem variesFields_refl (fields : Fields) :
    VariesFields allows fields.kind fields fields := by
  obtain ⟨others, same, varies⟩ := varies_refl (.object fields)
  cases same
  exact varies

theorem VariesItems.length_eq {items others : List Value}
    (varies : VariesItems allows items others) : others.length = items.length := by
  induction items generalizing others with
  | nil =>
    rw [VariesItems] at varies
    rw [varies]
  | cons item rest ih =>
    obtain ⟨first, more, rfl, -, tail⟩ := varies
    rw [List.length_cons, List.length_cons, ih tail]

theorem VariesItems.getElem? {items others : List Value} (varies : VariesItems allows items others)
    {i : Nat} {other : Value} (found : others[i]? = some other) :
    ∃ item, items[i]? = some item ∧ item.Varies allows other := by
  induction items generalizing others i with
  | nil =>
    rw [VariesItems] at varies
    simp [varies] at found
  | cons item rest ih =>
    obtain ⟨first, more, rfl, head, tail⟩ := varies
    cases i with
    | zero =>
      simp only [List.getElem?_cons_zero, Option.some.injEq] at found
      exact ⟨item, rfl, found ▸ head⟩
    | succ i => exact ih tail found

theorem VariesItems.set {items others : List Value} (varies : VariesItems allows items others)
    {i : Nat} {item other : Value} (found : items[i]? = some item)
    (same : item.Varies allows other) : VariesItems allows items (others.set i other) := by
  induction items generalizing others i with
  | nil => simp at found
  | cons first rest ih =>
    obtain ⟨head, more, rfl, one, tail⟩ := varies
    cases i with
    | zero =>
      simp only [List.getElem?_cons_zero, Option.some.injEq] at found
      exact ⟨other, more, rfl, found ▸ same, tail⟩
    | succ i => exact ⟨head, more.set i other, rfl, one, ih tail found⟩

variable {kind : String} {fields others : Fields}

theorem VariesFields.get?_none (varies : VariesFields allows kind fields others) {key : String}
    (missing : fields.get? key = none) : others.get? key = none := by
  induction fields generalizing others with
  | nil =>
    rw [VariesFields] at varies
    rw [varies]
    rfl
  | cons entry rest ih =>
    obtain ⟨value, more, rfl, -, tail⟩ := varies
    rw [Fields.get?_cons] at missing ⊢
    split at missing
    · simp at missing
    · rename_i miss
      rw [if_neg miss]
      exact ih tail missing

theorem VariesFields.get?_some (varies : VariesFields allows kind fields others) {key : String}
    {value : Value} (found : fields.get? key = some value) :
    ∃ other, others.get? key = some other ∧
      (value.Varies allows other ∨ allows kind key value other) := by
  induction fields generalizing others with
  | nil => simp [Fields.get?] at found
  | cons entry rest ih =>
    obtain ⟨k, v⟩ := entry
    obtain ⟨other, more, rfl, same, tail⟩ := varies
    rw [Fields.get?_cons] at found ⊢
    split at found
    · rename_i hit
      subst hit
      exact ⟨other, if_pos rfl, Option.some.inj found ▸ same⟩
    · rename_i miss
      rw [if_neg miss]
      exact ih tail found

theorem VariesFields.insert (varies : VariesFields allows kind fields others) {key : String}
    {value other : Value} (found : fields.get? key = some value)
    (same : value.Varies allows other ∨ allows kind key value other) :
    VariesFields allows kind fields (others.insert key other) := by
  induction fields generalizing others with
  | nil => simp [Fields.get?] at found
  | cons entry rest ih =>
    obtain ⟨k, v⟩ := entry
    obtain ⟨first, more, rfl, one, tail⟩ := varies
    by_cases hit : k = key
    · subst hit
      rw [Fields.get?_cons, if_pos rfl] at found
      rw [Fields.insert, if_pos rfl]
      exact ⟨other, more, rfl, Option.some.inj found ▸ same, tail⟩
    · rw [Fields.get?_cons, if_neg hit] at found
      rw [Fields.insert, if_neg hit]
      exact ⟨first, Fields.insert more key other, rfl, one, ih tail found⟩

structure Allowance.Flat (allows : Allowance) : Prop where
  typed : ∀ {kind value other}, ¬ allows kind "type" value other
  scalar : ∀ {kind field value other}, allows kind field value other →
    other.asNode? = none ∧ other.asList? = none

section Flat

variable (flat : Allowance.Flat allows)

include flat

theorem VariesFields.kind_eq (varies : VariesFields allows kind fields others) :
    others.kind = fields.kind ∧ others.isNode = fields.isNode := by
  unfold Fields.kind Fields.isNode Fields.contains
  cases found : fields.get? "type" with
  | none => simp [varies.get?_none found]
  | some value =>
    obtain ⟨other, there, same | written⟩ := varies.get?_some found
    · rw [there]
      refine ⟨?_, rfl⟩
      cases value with
      | list items =>
        obtain ⟨_, rfl, -⟩ := same
        rfl
      | object inner =>
        obtain ⟨_, rfl, -⟩ := same
        rfl
      | _ => rw [same]
    · exact absurd written flat.typed

theorem Varies.asNode? {value other : Value} (varies : value.Varies allows other) :
    (∀ inner, value.asNode? = some inner → ∃ changed, other.asNode? = some changed ∧
      VariesFields allows inner.kind inner changed) ∧
    ∀ changed, other.asNode? = some changed → ∃ inner, value.asNode? = some inner ∧
      VariesFields allows inner.kind inner changed := by
  cases value with
  | object fields =>
    obtain ⟨others, rfl, same⟩ := varies
    have isNode := (same.kind_eq flat).2
    simp only [Value.asNode?, isNode]
    split
    · refine ⟨fun inner eq => ⟨others, rfl, Option.some.inj eq ▸ same⟩, fun changed eq => ?_⟩
      exact ⟨fields, rfl, Option.some.inj eq ▸ same⟩
    · simp
  | list items =>
    obtain ⟨others, rfl, -⟩ := varies
    simp [Value.asNode?]
  | _ =>
    rw [varies]
    simp [Value.asNode?]

theorem VariesFields.step (varies : VariesFields allows kind fields others) {step : Step}
    {changed : Fields} (leads : (step.value? others).bind Value.asNode? = some changed) :
    ∃ inner, (step.value? fields).bind Value.asNode? = some inner ∧
      VariesFields allows inner.kind inner changed ∧
      ∀ {next : Fields}, VariesFields allows inner.kind inner next →
        VariesFields allows kind fields (step.replace others (.object next)) := by
  obtain ⟨other, there, isNode⟩ := Option.bind_eq_some_iff.mp leads
  obtain ⟨field, index⟩ := step
  simp only [Step.value?] at there ⊢
  cases found : fields.get? field with
  | none => simp [varies.get?_none found] at there
  | some value =>
    obtain ⟨current, held, same⟩ := varies.get?_some found
    rw [held] at there
    cases index with
    | none =>
      obtain rfl : current = other := by simpa using there
      have same : value.Varies allows current := by
        rcases same with same | written
        · exact same
        · simp [(flat.scalar written).1] at isNode
      obtain ⟨inner, node, inside⟩ := (same.asNode? flat).2 changed isNode
      refine ⟨inner, by simpa using node, inside, fun next => varies.insert found (.inl ?_)⟩
      obtain ⟨rfl, -⟩ := eq_object_of_asNode? node
      exact ⟨_, rfl, next⟩
    | some i =>
      obtain ⟨list, asList, there⟩ := Option.bind_eq_some_iff.mp there
      have same : value.Varies allows current := by
        rcases same with same | written
        · exact same
        · simp [(flat.scalar written).2] at asList
      cases value with
      | list items =>
        obtain ⟨rest, rfl, inside⟩ := same
        obtain rfl : rest = list := by simpa [Value.asList?] using asList
        obtain ⟨item, place, one⟩ := inside.getElem? there
        obtain ⟨inner, node, within⟩ := (one.asNode? flat).2 changed isNode
        refine ⟨inner, by simp [Value.asList?, place, node], within, fun {next} vary => ?_⟩
        have entry : item.Varies allows (.object next) := by
          obtain ⟨rfl, -⟩ := eq_object_of_asNode? node
          exact ⟨_, rfl, vary⟩
        simp only [Step.replace, held]
        exact varies.insert found (.inl ⟨_, rfl, inside.set place entry⟩)
      | object fields =>
        obtain ⟨rest, rfl, -⟩ := same
        simp [Value.asList?] at asList
      | _ =>
        rw [same] at asList
        simp [Value.asList?] at asList

theorem VariesFields.modify {holds : Fields → Prop} {f : Fields → Fields} {path : Path}
    {fields others changed : Fields} (one : holds fields) (each : EachField holds fields)
    (varies : VariesFields allows fields.kind fields others)
    (done : path.modify? f others = some changed)
    (there : ∀ {inner node : Fields}, path.resolve others = some node → holds inner →
      VariesFields allows inner.kind inner node → VariesFields allows inner.kind inner (f node)) :
    VariesFields allows fields.kind fields changed := by
  induction path generalizing fields others changed with
  | nil =>
    rw [Path.modify?, Option.some.injEq] at done
    exact done ▸ there rfl one varies
  | cons step rest ih =>
    rw [Path.modify?] at done
    cases leads : (step.value? others).bind Value.asNode? with
    | none => simp [leads] at done
    | some node =>
      simp only [leads, Option.map_eq_some_iff] at done
      obtain ⟨next, inside, rfl⟩ := done
      obtain ⟨inner, origin, vary, replaced⟩ := varies.step flat leads
      obtain ⟨holdsInner, eachInner⟩ := EachField.step each origin
      refine replaced (ih holdsInner eachInner vary inside fun {deep target} resolved => ?_)
      exact there (by rw [Path.resolve, leads]; exact resolved)

end Flat

end Varies

end Value

end Arborist

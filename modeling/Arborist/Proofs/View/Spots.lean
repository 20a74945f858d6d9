import Mathlib
import Arborist.Proofs.Node.Target
import Arborist.View

/-!
Rows by what they stand for. Which nodes, labels, items and fields show depends on the tree and on
what is open, and on nothing else of a view; so the rows of a view come from the spots of the tree, one
by one, and a view changes on the way only where a widget is mounted. Every node that shows is reached
from the root through open nodes.
-/

namespace Arborist

open Value (Allowance VariesFields VariesItems)

/-- What a row stands for, without what the view adds to it. -/
inductive Spot where
  | node (depth : Nat) (path : Path) (node : Fields)
  | label (depth : Nat) (field : String)
  | item (depth : Nat) (value : Value)
  | field (depth : Nat) (kind : String) (target : Target) (value : Value)
  deriving Repr

namespace Spot

mutual

def below (isOpen : Path → Bool) (depth : Nat) (path : Path) (kind : String) :
    List (String × Value) → List Spot
  | [] => []
  | (name, value) :: rest =>
    (if FieldView.isPrimitiveName name then [.field (depth + 1) kind ⟨path, name⟩ value]
    else inField isOpen (depth + 1) path name value) ++ below isOpen depth path kind rest

def inField (isOpen : Path → Bool) (depth : Nat) (path : Path) (name : String) :
    Value → List Spot
  | .object inner =>
    if Fields.isNode inner then
      .label depth name :: .node (depth + 1) (path.child name) inner ::
        (if isOpen (path.child name) then
          below isOpen (depth + 1) (path.child name) (Fields.kind inner) inner
        else [])
    else []
  | .list items =>
    if items.head?.any Value.isNode then
      .label depth name :: among isOpen (depth + 1) path name 0 items
    else []
  | _ => []

def among (isOpen : Path → Bool) (depth : Nat) (path : Path) (name : String) (i : Nat) :
    List Value → List Spot
  | [] => []
  | first :: rest =>
    inItem isOpen depth path name i first ++ among isOpen depth path name (i + 1) rest

def inItem (isOpen : Path → Bool) (depth : Nat) (path : Path) (name : String) (i : Nat) :
    Value → List Spot
  | .object inner =>
    if Fields.isNode inner then
      .node depth (path.element name i) inner ::
        (if isOpen (path.element name i) then
          below isOpen depth (path.element name i) (Fields.kind inner) inner
        else [])
    else [.item depth (.object inner)]
  | other => [.item depth other]

end

def all (isOpen : Path → Bool) (root : Fields) : List Spot :=
  .node 0 Path.root root :: (if isOpen Path.root then below isOpen 0 Path.root root.kind root else [])

end Spot

namespace View

/-- The row of a spot and the view by then. -/
def see (view : View) : Spot → Row × View
  | .node depth path node => (view.nodeRow depth path node, view)
  | .label depth field => (⟨depth, .label field⟩, view)
  | .item depth value => (⟨depth, .opaqueItem value.display⟩, view)
  | .field depth kind target value => view.fieldRow depth kind target value

def visit (view : View) : List Spot → List Row × View
  | [] => ([], view)
  | spot :: rest =>
    let (row, next) := view.see spot
    let (rows, last) := visit next rest
    (row :: rows, last)

section Visit

variable {view : View}

theorem visit_append (spots others : List Spot) : view.visit (spots ++ others) =
    ((view.visit spots).1 ++ ((view.visit spots).2.visit others).1,
      ((view.visit spots).2.visit others).2) := by
  induction spots generalizing view with
  | nil => rfl
  | cons spot rest ih => simp only [List.cons_append, visit, ih]

/-- A spot leaves the view as it is, or it mounts a widget for a field that has none. -/
theorem see_cases (view : View) (spot : Spot) : (view.see spot).2 = view ∨
    ∃ depth kind target value w, spot = .field depth kind target value ∧
      view.widget? target = none ∧ view.registry.mount? kind target value = some w ∧
      (view.see spot).2 = view.mount target w := by
  cases spot with
  | node | label | item => exact .inl rfl
  | field depth kind target value =>
    cases mounted : view.widget? target with
    | some w => exact .inl (by simp only [see, fieldRow, mounted])
    | none =>
      cases made : view.registry.mount? kind target value with
      | none => exact .inl (by simp only [see, fieldRow, mounted, made])
      | some w =>
        refine .inr ⟨depth, kind, target, value, w, rfl, mounted, made, ?_⟩
        simp only [see, fieldRow, mounted, made]

/-- What every mount on the way keeps holds of the view in the end. -/
theorem visit_induct {motive : View → Prop} {spots : List Spot} (start : motive view)
    (mounts : ∀ {next depth kind target value w}, motive next →
      .field depth kind target value ∈ spots → next.widget? target = none →
      next.registry.mount? kind target value = some w → motive (next.mount target w)) :
    motive (view.visit spots).2 := by
  induction spots generalizing view with
  | nil => exact start
  | cons spot rest ih =>
    have step : motive (view.see spot).2 := by
      rcases see_cases view spot with same | ⟨_, _, _, _, _, rfl, free, made, after⟩
      · exact same.symm ▸ start
      · exact after.symm ▸ mounts start List.mem_cons_self free made
    exact ih step fun holds member => mounts holds (List.mem_cons_of_mem _ member)

theorem expanded_visit (view : View) (spots : List Spot) :
    (view.visit spots).2.expanded = view.expanded :=
  @visit_induct view (fun next => next.expanded = view.expanded) spots rfl fun same _ _ _ => same

theorem registry_visit (view : View) (spots : List Spot) :
    (view.visit spots).2.registry = view.registry :=
  @visit_induct view (fun next => next.registry = view.registry) spots rfl fun same _ _ _ => same

theorem isExpanded_visit (view : View) (spots : List Spot) :
    (view.visit spots).2.isExpanded = view.isExpanded := by
  funext path
  rw [isExpanded, expanded_visit, isExpanded]

end Visit

-- The traversal goes through the spots of the tree, and none of its mounts changes what is open.
mutual

theorem fieldRows_eq (depth : Nat) (path : Path) (kind : String) :
    (fields : List (String × Value)) → (view : View) → view.fieldRows depth path kind fields =
      view.visit (Spot.below view.isExpanded depth path kind fields)
  | [], view => by rw [fieldRows, Spot.below, visit]
  | (name, value) :: rest, view => by
    have front : (if FieldView.isPrimitiveName name then
          let (row, next) := view.fieldRow (depth + 1) kind ⟨path, name⟩ value
          ([row], next)
        else view.heldRows (depth + 1) path name value) =
        view.visit (if FieldView.isPrimitiveName name then
          [.field (depth + 1) kind ⟨path, name⟩ value]
        else Spot.inField view.isExpanded (depth + 1) path name value) := by
      split
      · rfl
      · exact heldRows_eq (depth + 1) path name value view
    rw [fieldRows, Spot.below, front, visit_append]
    dsimp only
    rw [fieldRows_eq depth path kind rest, isExpanded_visit]
termination_by structural fields => fields

theorem heldRows_eq (depth : Nat) (path : Path) (name : String) :
    (value : Value) → (view : View) → view.heldRows depth path name value =
      view.visit (Spot.inField view.isExpanded depth path name value)
  | .object inner, view => by
    rw [heldRows, Spot.inField]
    split
    · by_cases opened : view.isExpanded (path.child name) = true
      · rw [if_pos opened, if_pos opened,
          fieldRows_eq (depth + 1) (path.child name) (Fields.kind inner) inner]
        rfl
      · rw [if_neg opened, if_neg opened]
        rfl
    · rfl
  | .list items, view => by
    rw [heldRows, Spot.inField]
    split
    · rw [itemRows_eq (depth + 1) path name 0 items]
      rfl
    · rfl
  | .null, _ | .bool _, _ | .number _, _ | .string _, _ => rfl
termination_by structural value => value

theorem itemRows_eq (depth : Nat) (path : Path) (name : String) (i : Nat) :
    (items : List Value) → (view : View) → view.itemRows depth path name i items =
      view.visit (Spot.among view.isExpanded depth path name i items)
  | [], view => by rw [itemRows, Spot.among, visit]
  | first :: rest, view => by
    rw [itemRows, Spot.among, elementRows_eq depth path name i first, visit_append]
    dsimp only
    rw [itemRows_eq depth path name (i + 1) rest, isExpanded_visit]
termination_by structural items => items

theorem elementRows_eq (depth : Nat) (path : Path) (name : String) (i : Nat) :
    (value : Value) → (view : View) → view.elementRows depth path name i value =
      view.visit (Spot.inItem view.isExpanded depth path name i value)
  | .object inner, view => by
    rw [elementRows, Spot.inItem]
    split
    · by_cases opened : view.isExpanded (path.element name i) = true
      · rw [if_pos opened, if_pos opened,
          fieldRows_eq depth (path.element name i) (Fields.kind inner) inner]
        rfl
      · rw [if_neg opened, if_neg opened]
        rfl
    · rfl
  | .null, _ | .bool _, _ | .number _, _ | .string _, _ | .list _, _ => rfl
termination_by structural value => value

end

/-- The rows of a view are those of all that shows, made one after another. -/
theorem rows_eq (view : View) (root : Fields) :
    view.rows root = view.visit (Spot.all view.isExpanded root) := by
  unfold rows Spot.all
  by_cases opened : view.isExpanded Path.root = true
  · rw [if_pos opened, if_pos opened, fieldRows_eq]
    rfl
  · rw [if_neg opened, if_neg opened]
    rfl

end View

/-- The node is the root, or a node that an open node of the kind shows. -/
inductive Reached (isOpen : Path → Bool) (root : Fields) : Path → Fields → Prop where
  | root : Reached isOpen root Path.root root
  | child {path : Path} {node inner : Fields} {name : String}
      (around : Reached isOpen root path node) (opened : isOpen path = true)
      (held : (name, Value.object inner) ∈ node) (isNode : inner.isNode = true) :
      Reached isOpen root (path.child name) inner
  | element {path : Path} {node inner : Fields} {name : String} {items : List Value} {i : Nat}
      (around : Reached isOpen root path node) (opened : isOpen path = true)
      (held : (name, Value.list items) ∈ node) (place : items[i]? = some (.object inner))
      (isNode : inner.isNode = true) : Reached isOpen root (path.element name i) inner

theorem View.isVisible_append {view : View} {path : Path} {step : Step} :
    view.isVisible (path ++ [step]) = true ↔
      view.isVisible path = true ∧ view.isExpanded path = true := by
  have before : ∀ n < path.length, (path ++ [step]).take n = path.take n := fun n inside =>
    List.take_append_of_le_length inside.le
  simp only [isVisible, List.length_append, List.length_singleton, List.range_succ, List.all_append,
    List.all_cons, List.all_nil, Bool.and_true, Bool.and_eq_true, List.take_left, List.all_eq_true,
    List.mem_range]
  refine and_congr_left fun _ => forall₂_congr fun n inside => ?_
  rw [before n inside]

namespace Reached

variable {isOpen : Path → Bool} {root : Fields} {path : Path} {node : Fields}

theorem isVisible {view : View} (reached : Reached view.isExpanded root path node) :
    view.isVisible path = true := by
  induction reached with
  | root => rfl
  | child around opened held isNode ih => exact View.isVisible_append.2 ⟨ih, opened⟩
  | element around opened held place isNode ih => exact View.isVisible_append.2 ⟨ih, opened⟩

theorem resolve
    (nodup : ∀ {path : Path} {node : Fields}, path.resolve root = some node → node.keys.Nodup)
    (reached : Reached isOpen root path node) : path.resolve root = some node := by
  induction reached with
  | root => rfl
  | child around opened held isNode ih =>
    exact Path.resolve_child ih (Fields.get?_of_mem (nodup ih) held) isNode
  | element around opened held place isNode ih =>
    exact Path.resolve_element ih (Fields.get?_of_mem (nodup ih) held) place isNode

end Reached

theorem Value.Varies.isNode_eq {allows : Allowance} (flat : allows.Flat) {value other : Value}
    (varies : value.Varies allows other) : other.isNode = value.isNode := by
  obtain ⟨forth, back⟩ := varies.asNode? flat
  unfold Value.isNode
  cases found : value.asNode? with
  | some inner =>
    obtain ⟨changed, there, -⟩ := forth inner found
    rw [there, Option.isSome_some, Option.isSome_some]
  | none =>
    cases there : other.asNode? with
    | some changed =>
      obtain ⟨inner, here, -⟩ := back changed there
      simp [found] at here
    | none => rfl

theorem Value.VariesItems.any_head {allows : Allowance} (flat : allows.Flat)
    {items others : List Value} (varies : VariesItems allows items others) :
    others.head?.any Value.isNode = items.head?.any Value.isNode := by
  cases items with
  | nil =>
    rw [VariesItems] at varies
    rw [varies]
  | cons item rest =>
    obtain ⟨other, more, rfl, one, -⟩ := varies
    exact one.isNode_eq flat

structure Value.Allowance.Shallow (allows : Allowance) : Prop where
  flat : allows.Flat
  primitive : ∀ {kind field value other}, allows kind field value other →
    FieldView.isPrimitiveName field = true

namespace Spot

variable {isOpen : Path → Bool} {root : Fields}

def Placed (isOpen : Path → Bool) (root : Fields) : Spot → Prop
  | .node _ path inner => Reached isOpen root path inner
  | .field _ kind target value =>
    isOpen target.path = true ∧ ∃ owner, Reached isOpen root target.path owner ∧ owner.kind = kind ∧
      (target.field, value) ∈ owner
  | _ => True

-- The fields left to show are some of the node's own, the items left are a tail of its list.
mutual

theorem placed_below {path : Path} {owner : Fields} (reached : Reached isOpen root path owner)
    (opened : isOpen path = true) (depth : Nat) :
    (fields : List (String × Value)) → (∀ entry ∈ fields, entry ∈ owner) →
      ∀ spot ∈ below isOpen depth path owner.kind fields, spot.Placed isOpen root
  | [], _ => by simp [below]
  | (name, value) :: rest, part => by
    obtain ⟨held, others⟩ := List.forall_mem_cons.1 part
    rw [below]
    refine List.forall_mem_append.2 ⟨?_, placed_below reached opened depth rest others⟩
    split
    · exact List.forall_mem_singleton.2 ⟨opened, owner, reached, rfl, held⟩
    · exact placed_inField reached opened (depth + 1) value held
termination_by structural fields => fields

theorem placed_inField {path : Path} {owner : Fields} (reached : Reached isOpen root path owner)
    (opened : isOpen path = true) (depth : Nat) {name : String} :
    (value : Value) → (name, value) ∈ owner →
      ∀ spot ∈ inField isOpen depth path name value, spot.Placed isOpen root
  | .object inner, held => by
    rw [inField]
    split
    · rename_i isNode
      have next := Reached.child reached opened held isNode
      refine List.forall_mem_cons.2 ⟨trivial, List.forall_mem_cons.2 ⟨next, ?_⟩⟩
      split
      · rename_i deeper
        exact placed_below next deeper (depth + 1) inner fun _ member => member
      · simp
    · simp
  | .list items, held => by
    rw [inField]
    split
    · exact List.forall_mem_cons.2 ⟨trivial, placed_among reached opened (depth + 1) held items rfl⟩
    · simp
  | .null, _ | .bool _, _ | .number _, _ | .string _, _ => by simp [inField]
termination_by structural value => value

theorem placed_among {path : Path} {owner : Fields} (reached : Reached isOpen root path owner)
    (opened : isOpen path = true) (depth : Nat) {name : String} {items : List Value}
    (held : (name, Value.list items) ∈ owner) {i : Nat} :
    (rest : List Value) → items.drop i = rest →
      ∀ spot ∈ among isOpen depth path name i rest, spot.Placed isOpen root
  | [], _ => by simp [among]
  | first :: rest, part => by
    have place : items[i]? = some first := by
      rw [← List.head?_drop, part, List.head?_cons]
    have behind : items.drop (i + 1) = rest := by
      rw [← List.drop_drop, part, List.drop_one, List.tail_cons]
    rw [among]
    exact List.forall_mem_append.2 ⟨placed_inItem reached opened depth held first place,
      placed_among reached opened depth held rest behind⟩
termination_by structural rest => rest

theorem placed_inItem {path : Path} {owner : Fields} (reached : Reached isOpen root path owner)
    (opened : isOpen path = true) (depth : Nat) {name : String} {items : List Value}
    (held : (name, Value.list items) ∈ owner) {i : Nat} :
    (value : Value) → items[i]? = some value →
      ∀ spot ∈ inItem isOpen depth path name i value, spot.Placed isOpen root
  | .object inner, place => by
    rw [inItem]
    split
    · rename_i isNode
      have next := Reached.element reached opened held place isNode
      refine List.forall_mem_cons.2 ⟨next, ?_⟩
      split
      · rename_i deeper
        exact placed_below next deeper depth inner fun _ member => member
      · simp
    · exact List.forall_mem_singleton.2 trivial
  | .null, _ | .bool _, _ | .number _, _ | .string _, _ | .list _, _ => by
    exact List.forall_mem_singleton.2 trivial
termination_by structural value => value

end

theorem placed_all : ∀ spot ∈ all isOpen root, spot.Placed isOpen root := by
  unfold all
  refine List.forall_mem_cons.2 ⟨.root, ?_⟩
  split
  · rename_i opened
    exact placed_below .root opened 0 root fun _ member => member
  · simp

theorem read?_of_mem
    (nodup : ∀ {path : Path} {node : Fields}, path.resolve root = some node → node.keys.Nodup)
    {depth : Nat} {kind : String} {target : Target} {value : Value}
    (member : .field depth kind target value ∈ all isOpen root) :
    target.read? root = some (kind, value) := by
  obtain ⟨-, owner, reached, same, held⟩ := placed_all _ member
  have there := reached.resolve nodup
  exact Target.read?_eq_some.2 ⟨owner, there, same, Fields.get?_of_mem (nodup there) held⟩

def slot? : Spot → Option (String × Target)
  | .field _ kind target _ => some (kind, target)
  | _ => none

section Varies

variable {allows : Allowance}

-- Where only primitive fields are written over, the same fields show in the same order.
mutual

theorem slots_below (shallow : allows.Shallow) {kind : String} (depth : Nat) (path : Path) :
    (fields : List (String × Value)) → {others : Fields} → VariesFields allows kind fields others →
      (below isOpen depth path kind others).map slot? =
        (below isOpen depth path kind fields).map slot?
  | [], others, varies => by
    rw [VariesFields] at varies
    rw [varies]
  | (name, value) :: rest, _, varies => by
    obtain ⟨other, more, rfl, one, tail⟩ := varies
    rw [below, below, List.map_append, List.map_append, slots_below shallow depth path rest tail]
    congr 1
    split
    · rfl
    · rename_i secondary
      have same : value.Varies allows other := by
        rcases one with same | written
        · exact same
        · exact absurd (shallow.primitive written) secondary
      exact slots_inField shallow (depth + 1) path name value same
termination_by structural fields => fields

theorem slots_inField (shallow : allows.Shallow) (depth : Nat) (path : Path) (name : String) :
    (value : Value) → {other : Value} → value.Varies allows other →
      (inField isOpen depth path name other).map slot? =
        (inField isOpen depth path name value).map slot?
  | .object inner, _, varies => by
    obtain ⟨next, rfl, inside⟩ := varies
    obtain ⟨kind, isNode⟩ := inside.kind_eq shallow.flat
    rw [inField, inField, isNode, kind]
    split
    · split
      · simp only [List.map_cons, slot?, slots_below shallow (depth + 1) (path.child name) inner inside]
      · rfl
    · rfl
  | .list items, _, varies => by
    obtain ⟨next, rfl, inside⟩ := varies
    rw [inField, inField, inside.any_head shallow.flat]
    split
    · simp only [List.map_cons, slot?, slots_among shallow (depth + 1) path name 0 items inside]
    · rfl
  | .null, _, varies | .bool _, _, varies | .number _, _, varies | .string _, _, varies => by
    rw [varies]
termination_by structural value => value

theorem slots_among (shallow : allows.Shallow) (depth : Nat) (path : Path) (name : String) (i : Nat) :
    (items : List Value) → {others : List Value} → VariesItems allows items others →
      (among isOpen depth path name i others).map slot? =
        (among isOpen depth path name i items).map slot?
  | [], _, varies => by
    rw [VariesItems] at varies
    rw [varies]
  | first :: rest, _, varies => by
    obtain ⟨other, more, rfl, one, tail⟩ := varies
    rw [among, among, List.map_append, List.map_append,
      slots_among shallow depth path name (i + 1) rest tail,
      slots_inItem shallow depth path name i first one]
termination_by structural items => items

theorem slots_inItem (shallow : allows.Shallow) (depth : Nat) (path : Path) (name : String) (i : Nat) :
    (value : Value) → {other : Value} → value.Varies allows other →
      (inItem isOpen depth path name i other).map slot? =
        (inItem isOpen depth path name i value).map slot?
  | .object inner, _, varies => by
    obtain ⟨next, rfl, inside⟩ := varies
    obtain ⟨kind, isNode⟩ := inside.kind_eq shallow.flat
    rw [inItem, inItem, isNode, kind]
    split
    · split
      · simp only [List.map_cons, slot?, slots_below shallow depth (path.element name i) inner inside]
      · rfl
    · rfl
  | .list _, _, varies => by
    obtain ⟨next, rfl, -⟩ := varies
    rfl
  | .null, _, varies | .bool _, _, varies | .number _, _, varies | .string _, _, varies => by
    rw [varies]
termination_by structural value => value

end

theorem slots_all (shallow : allows.Shallow) {other : Fields}
    (varies : VariesFields allows root.kind root other) :
    (all isOpen other).map slot? = (all isOpen root).map slot? := by
  unfold all
  rw [List.map_cons, List.map_cons, (varies.kind_eq shallow.flat).1]
  split
  · rw [slots_below shallow 0 Path.root root varies]
    rfl
  · rfl

end Varies

end Spot

end Arborist

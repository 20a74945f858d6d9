import Mathlib
import Arborist.Proofs.View.Expansion

/-!
The rows and the tree that is visible. The visible paths are the root and, below every open one, the
nodes that its node shows as children and elements. The rows have each visible path once and each
primitive field of an open one once, in preorder of the tree, and nothing else of the two kinds.
-/

namespace Arborist

def Fields.Keyed (root : Fields) : Prop :=
  root.keys.Nodup ∧ Value.EachField (fun node => node.keys.Nodup) root

theorem Fields.Keyed.nodup {root : Fields} (keyed : root.Keyed) {path : Path} {node : Fields}
    (there : path.resolve root = some node) : node.keys.Nodup :=
  Value.EachField.resolve keyed.1 keyed.2 there

/-- The least set of paths with the root and what the nodes at its open paths show. -/
inductive Shown (isOpen : Path → Bool) (root : Fields) : Path → Prop where
  | root : Shown isOpen root Path.root
  | child {path : Path} {node inner : Fields} {name : String} (around : Shown isOpen root path)
      (opened : isOpen path = true) (there : path.resolve root = some node)
      (shows : .child name inner ∈ node.views) : Shown isOpen root (path.child name)
  | element {path : Path} {node : Fields} {name : String} {items : List Value} {item : Value}
      {i : Nat} (around : Shown isOpen root path) (opened : isOpen path = true)
      (there : path.resolve root = some node) (shows : .sequence name items ∈ node.views)
      (place : items[i]? = some item) (isNode : item.isNode = true) :
      Shown isOpen root (path.element name i)

/-- The order of the steps down from a node: by its fields, and inside a list by the places. -/
def Step.Before (node : Fields) (step other : Step) : Prop :=
  [step.field, other.field].Sublist node.keys ∨
    step.field = other.field ∧ ∃ i j, step.index = some i ∧ other.index = some j ∧ i < j

/-- Preorder: a path comes before what is below it, and two paths that part come in the order in
which the node where they part has its fields and elements. -/
def Path.Precedes (root : Fields) (path other : Path) : Prop :=
  (path <+: other ∧ path ≠ other) ∨
    ∃ front step turn node, front ++ [step] <+: path ∧ front ++ [turn] <+: other ∧
      Path.resolve front root = some node ∧ Step.Before node step turn

namespace Row

def path? (row : Row) : Option Path :=
  match row.kind with
  | .node path .. => some path
  | _ => none

def target? (row : Row) : Option Target :=
  match row.kind with
  | .field target .. => some target
  | _ => none

def address? (row : Row) : Option Path :=
  row.path?.or (row.target?.map fun target => target.path.child target.field)

theorem address?_of_target? {row : Row} {target : Target} (same : row.target? = some target) :
    row.address? = some (target.path.child target.field) := by
  obtain ⟨depth, kind⟩ := row
  cases kind with
  | field => cases same; rfl
  | _ => cases same

end Row

section Views

variable {node inner : Fields} {name : String} {value : Value} {items : List Value}

namespace FieldView

def Stems (view : FieldView) (name : String) (value : Value) : Prop :=
  match view with
  | .primitive field held => field = name ∧ held = value
  | .child field inner => field = name ∧ Value.object inner = value ∧ inner.isNode = true
  | .sequence field items => field = name ∧ Value.list items = value

theorem stems_of_ofField? {view : FieldView} (shows : ofField? name value = some view) :
    view.Stems name value := by
  unfold ofField? at shows
  split at shows
  · cases shows
    exact ⟨rfl, rfl⟩
  · split at shows
    · rename_i inner there
      obtain ⟨rfl, isNode⟩ := Value.eq_object_of_asNode? there
      cases shows
      exact ⟨rfl, rfl, isNode⟩
    · split at shows
      · split at shows
        · cases shows
          exact ⟨rfl, rfl⟩
        · cases shows
      · cases shows

theorem Stems.name_eq {view : FieldView} (stems : view.Stems name value) : view.name = name := by
  cases view with
  | _ => exact stems.1

end FieldView

namespace Fields

theorem mem_views {view : FieldView} (shows : view ∈ node.views) :
    ∃ name value, (name, value) ∈ node ∧ view.Stems name value := by
  obtain ⟨⟨name, value⟩, member, made⟩ := List.mem_filterMap.1 shows
  exact ⟨name, value, member, FieldView.stems_of_ofField? made⟩

theorem names_views_sublist (node : Fields) : (node.views.map FieldView.name).Sublist node.keys := by
  induction node with
  | nil => exact List.Sublist.refl []
  | cons entry rest ih =>
    unfold views keys at ih ⊢
    rw [List.filterMap_cons, List.map_cons]
    split
    · exact ih.cons _
    · rename_i view shows
      rw [List.map_cons, (FieldView.stems_of_ofField? shows).name_eq]
      exact ih.cons_cons _

theorem mem_of_primitive (shows : .primitive name value ∈ node.views) : (name, value) ∈ node := by
  obtain ⟨field, held, member, rfl, rfl⟩ := mem_views shows
  exact member

theorem mem_of_child (shows : .child name inner ∈ node.views) :
    (name, .object inner) ∈ node ∧ inner.isNode = true := by
  obtain ⟨field, held, member, rfl, rfl, isNode⟩ := mem_views shows
  exact ⟨member, isNode⟩

theorem mem_of_sequence (shows : .sequence name items ∈ node.views) :
    (name, .list items) ∈ node := by
  obtain ⟨field, held, member, rfl, rfl⟩ := mem_views shows
  exact member

theorem views_induct {motive : Fields → Prop}
    (step : ∀ node : Fields,
      (∀ name inner, .child name inner ∈ node.views → motive inner) →
      (∀ name items inner, .sequence name items ∈ node.views → .object inner ∈ items →
        motive inner) → motive node) (node : Fields) : motive node := by
  apply step
  · intro name inner shows
    have smaller : sizeOf inner < sizeOf node := by
      have entry := List.sizeOf_lt_of_mem (mem_of_child shows).1
      simp at entry
      omega
    exact views_induct step inner
  · intro name items inner shows held
    have smaller : sizeOf inner < sizeOf node := by
      have entry := List.sizeOf_lt_of_mem (mem_of_sequence shows)
      have item := List.sizeOf_lt_of_mem held
      simp at entry item
      omega
    exact views_induct step inner
termination_by sizeOf node

end Fields

end Views

namespace Spot

variable (isOpen : Path → Bool)

def ofNode (depth : Nat) (path : Path) (node : Fields) : List Spot :=
  .node depth path node :: (if isOpen path then below isOpen depth path node.kind node else [])

def ofItem (depth : Nat) (path : Path) (name : String) (entry : Value × Nat) : List Spot :=
  match entry.1.asNode? with
  | some inner => ofNode isOpen depth (path.element name entry.2) inner
  | none => [.item depth entry.1]

def ofView (depth : Nat) (path : Path) (kind : String) : FieldView → List Spot
  | .primitive name value => [.field (depth + 1) kind ⟨path, name⟩ value]
  | .child name inner => .label (depth + 1) name :: ofNode isOpen (depth + 2) (path.child name) inner
  | .sequence name items =>
    .label (depth + 1) name :: items.zipIdx.flatMap (ofItem isOpen (depth + 2) path name)

theorem inItem_eq (depth : Nat) (path : Path) (name : String) (i : Nat) (value : Value) :
    inItem isOpen depth path name i value = ofItem isOpen depth path name (value, i) := by
  cases value with
  | object inner =>
    rw [inItem, ofItem, Value.asNode?]
    by_cases isNode : Fields.isNode inner = true
    · simp only [isNode, if_true]
      rfl
    · simp only [isNode, Bool.false_eq_true, if_false]
  | _ => rfl

theorem among_eq (depth : Nat) (path : Path) (name : String) (i : Nat) (items : List Value) :
    among isOpen depth path name i items =
      (items.zipIdx i).flatMap (ofItem isOpen depth path name) := by
  induction items generalizing i with
  | nil => rw [among, List.zipIdx_nil, List.flatMap_nil]
  | cons first rest ih => rw [among, List.zipIdx_cons, List.flatMap_cons, ih, inItem_eq]

theorem inField_eq {name : String} {value : Value} (other : FieldView.isPrimitiveName name = false)
    (depth : Nat) (path : Path) (kind : String) : inField isOpen (depth + 1) path name value =
      ((FieldView.ofField? name value).map (ofView isOpen depth path kind)).getD [] := by
  unfold FieldView.ofField?
  rw [if_neg (by simp [other])]
  cases value with
  | object inner =>
    rw [inField, Value.asNode?]
    by_cases isNode : Fields.isNode inner = true
    · simp only [isNode, if_true]
      rfl
    · simp only [isNode, Bool.false_eq_true, if_false]
      rfl
  | list items =>
    rw [inField, Value.asNode?.eq_2 _ (by simp)]
    cases items with
    | nil => rfl
    | cons first rest =>
      simp only [List.head?_cons, Option.any_some]
      by_cases isNode : first.isNode = true
      · simp only [isNode, if_true, Option.map_some, Option.getD_some]
        rw [ofView, among_eq]
      · simp only [isNode, Bool.false_eq_true, if_false]
        rfl
  | _ => rfl

theorem below_eq (depth : Nat) (path : Path) (kind : String) (fields : Fields) :
    below isOpen depth path kind fields = fields.views.flatMap (ofView isOpen depth path kind) := by
  induction fields with
  | nil => rw [below]; rfl
  | cons entry rest ih =>
    obtain ⟨name, value⟩ := entry
    have one : (if FieldView.isPrimitiveName name then [.field (depth + 1) kind ⟨path, name⟩ value]
        else inField isOpen (depth + 1) path name value) =
        ((FieldView.ofField? name value).map (ofView isOpen depth path kind)).getD [] := by
      by_cases primitive : FieldView.isPrimitiveName name = true
      · unfold FieldView.ofField?
        rw [if_pos primitive, if_pos primitive]
        rfl
      · rw [if_neg primitive, inField_eq isOpen (by simpa using primitive) depth path kind]
    unfold Fields.views at ih ⊢
    rw [below, one, ih, List.filterMap_cons]
    cases FieldView.ofField? name value with
    | none => rfl
    | some view => rfl

section Order

variable {isOpen : Path → Bool} {root : Fields}

def address? : Spot → Option Path
  | .node _ path _ => some path
  | .field _ _ target _ => some (target.path.child target.field)
  | _ => none

def addresses (spots : List Spot) : List Path := spots.filterMap address?

theorem addresses_flatMap {α : Type} (list : List α) (f : α → List Spot) :
    addresses (list.flatMap f) = list.flatMap fun a => addresses (f a) :=
  List.filterMap_flatMap

theorem addresses_ofNode (depth : Nat) (path : Path) (node : Fields) :
    addresses (ofNode isOpen depth path node) = path ::
      (if isOpen path then
        node.views.flatMap fun view => addresses (ofView isOpen depth path node.kind view)
      else []) := by
  change path :: addresses (if isOpen path then below isOpen depth path node.kind node else []) = _
  by_cases opened : isOpen path = true
  · rw [if_pos opened, if_pos opened, below_eq, addresses_flatMap]
  · rw [if_neg opened, if_neg opened]
    rfl

theorem addresses_sequence (depth : Nat) (path : Path) (kind name : String) (items : List Value) :
    addresses (ofView isOpen depth path kind (.sequence name items)) =
      items.zipIdx.flatMap fun entry => addresses (ofItem isOpen (depth + 2) path name entry) :=
  addresses_flatMap ..

def Beneath (isOpen : Path → Bool) (node : Fields) : Prop :=
  ∀ depth path, ∀ address ∈ addresses (ofNode isOpen depth path node), path <+: address

theorem element_of_item {depth : Nat} {path address : Path} {name : String} {entry : Value × Nat}
    (inside : ∀ inner, entry.1 = .object inner → Beneath isOpen inner)
    (member : address ∈ addresses (ofItem isOpen depth path name entry)) :
    path.element name entry.2 <+: address := by
  unfold ofItem at member
  split at member
  · rename_i inner found
    exact inside inner (Value.eq_object_of_asNode? found).1 _ _ _ member
  · simp [addresses, address?] at member

theorem step_of_view {depth : Nat} {path address : Path} {kind : String} {view : FieldView}
    (child : ∀ name inner, view = .child name inner → Beneath isOpen inner)
    (element : ∀ name items inner, view = .sequence name items → .object inner ∈ items →
      Beneath isOpen inner)
    (member : address ∈ addresses (ofView isOpen depth path kind view)) :
    ∃ step : Step, step.field = view.name ∧ path ++ [step] <+: address := by
  cases view with
  | primitive name value =>
    obtain rfl : address = path.child name := by simpa [ofView, addresses, address?] using member
    exact ⟨⟨name, none⟩, rfl, List.prefix_refl _⟩
  | child name inner => exact ⟨⟨name, none⟩, rfl, child name inner rfl _ _ _ member⟩
  | sequence name items =>
    rw [addresses_sequence, List.mem_flatMap] at member
    obtain ⟨entry, among, member⟩ := member
    refine ⟨⟨name, some entry.2⟩, rfl, element_of_item (fun inner found => ?_) member⟩
    exact element name items inner rfl (found ▸ List.fst_mem_of_mem_zipIdx among)

theorem beneath (node : Fields) : Beneath isOpen node := by
  induction node using Fields.views_induct with
  | step node child element =>
    intro depth path address member
    rw [addresses_ofNode, List.mem_cons] at member
    rcases member with rfl | member
    · exact List.prefix_refl _
    · obtain ⟨-, view, shows, member⟩ : isOpen path = true ∧ ∃ view ∈ node.views,
          address ∈ addresses (ofView isOpen depth path node.kind view) := by simpa using member
      have turn := step_of_view (fun name inner same => child name inner (same ▸ shows))
        (fun name items inner same => element name items inner (same ▸ shows)) member
      obtain ⟨step, -, leads⟩ := turn
      exact (List.prefix_append _ _).trans leads

theorem precedes_of_views {path : Path} {node : Fields} (there : path.resolve root = some node)
    (depth : Nat) : node.views.Pairwise fun view other =>
      ∀ address ∈ addresses (ofView isOpen depth path node.kind view),
      ∀ later ∈ addresses (ofView isOpen depth path node.kind other),
        Path.Precedes root address later := by
  rw [List.pairwise_iff_forall_sublist]
  intro view other order address member later behind
  obtain ⟨step, first, leads⟩ := step_of_view (fun _ _ _ => beneath _) (fun _ _ _ _ _ => beneath _) member
  obtain ⟨turn, second, ends⟩ := step_of_view (fun _ _ _ => beneath _) (fun _ _ _ _ _ => beneath _) behind
  refine .inr ⟨path, step, turn, node, leads, ends, there, .inl ?_⟩
  rw [first, second]
  exact (order.map FieldView.name).trans (Fields.names_views_sublist node)

theorem precedes_of_items {path : Path} {node : Fields} (there : path.resolve root = some node)
    (depth : Nat) (name : String) (items : List Value) : items.zipIdx.Pairwise fun entry other =>
      ∀ address ∈ addresses (ofItem isOpen depth path name entry),
      ∀ later ∈ addresses (ofItem isOpen depth path name other),
        Path.Precedes root address later := by
  have places : items.zipIdx.Pairwise fun entry other => entry.2 < other.2 := by
    rw [← List.pairwise_map, List.zipIdx_map_snd]
    exact List.pairwise_lt_range'
  apply places.imp
  intro entry other order address member later behind
  have leads := element_of_item (fun _ _ => beneath _) member
  have ends := element_of_item (fun _ _ => beneath _) behind
  exact .inr ⟨path, _, _, node, leads, ends, there, .inr ⟨rfl, entry.2, other.2, rfl, rfl, order⟩⟩

theorem precedes_of_step {path address : Path} {step : Step} (leads : path ++ [step] <+: address) :
    Path.Precedes root path address := by
  refine .inl ⟨(List.prefix_append _ _).trans leads, ?_⟩
  rintro rfl
  have longer := leads.length_le
  simp at longer

theorem ordered_ofNode (keyed : root.Keyed) (node : Fields) (depth : Nat) {path : Path}
    (there : path.resolve root = some node) :
    (addresses (ofNode isOpen depth path node)).Pairwise (Path.Precedes root) := by
  induction node using Fields.views_induct generalizing depth path with
  | step node child element =>
    have held : ∀ {name value}, (name, value) ∈ node → node.get? name = some value :=
      fun member => Fields.get?_of_mem (keyed.nodup there) member
    rw [addresses_ofNode]
    split
    · apply List.pairwise_cons.2
      constructor
      · intro address member
        obtain ⟨view, -, member⟩ := List.mem_flatMap.1 member
        obtain ⟨step, -, leads⟩ := step_of_view (fun _ _ _ => beneath _) (fun _ _ _ _ _ => beneath _) member
        exact precedes_of_step leads
      · refine List.pairwise_flatMap.2 ⟨fun view shows => ?_, precedes_of_views there depth⟩
        cases view with
        | primitive name value => exact List.pairwise_singleton _ _
        | child name inner =>
          obtain ⟨member, isNode⟩ := Fields.mem_of_child shows
          exact child name inner shows _ (Path.resolve_child there (held member) isNode)
        | sequence name items =>
          rw [addresses_sequence]
          refine List.pairwise_flatMap.2 ⟨fun entry among => ?_, precedes_of_items there _ name items⟩
          have place := List.mem_zipIdx_iff_getElem?.1 among
          unfold ofItem
          split
          · rename_i inner found
            obtain ⟨same, isNode⟩ := Value.eq_object_of_asNode? found
            rw [same] at place
            exact element name items inner shows (List.mem_of_getElem? place) _
              (Path.resolve_element there (held (Fields.mem_of_sequence shows)) place isNode)
          · exact List.Pairwise.nil
    · exact List.pairwise_singleton _ _

end Order

section Exact

variable {isOpen : Path → Bool} {root : Fields}

/-- A node that shows stands at a visible path that leads to it, a field that shows is a primitive one
of an open node, and how deep they are is the length of the path. -/
def Exact (isOpen : Path → Bool) (root : Fields) : Spot → Prop
  | .node depth path inner =>
    Shown isOpen root path ∧ path.resolve root = some inner ∧ depth = 2 * path.length
  | .field depth kind target value =>
    Shown isOpen root target.path ∧ isOpen target.path = true ∧ depth = 2 * target.path.length + 1 ∧
      ∃ owner, target.path.resolve root = some owner ∧ owner.kind = kind ∧
        .primitive target.field value ∈ owner.views
  | _ => True

theorem exact_ofNode (keyed : root.Keyed) (node : Fields) {depth : Nat} {path : Path}
    (shown : Shown isOpen root path) (there : path.resolve root = some node)
    (deep : depth = 2 * path.length) :
    ∀ spot ∈ ofNode isOpen depth path node, spot.Exact isOpen root := by
  induction node using Fields.views_induct generalizing depth path with
  | step node child element =>
    have held : ∀ {name value}, (name, value) ∈ node → node.get? name = some value :=
      fun member => Fields.get?_of_mem (keyed.nodup there) member
    have deeper : ∀ step : Step, depth + 2 = 2 * (path ++ [step]).length := by
      intro step
      rw [List.length_append, List.length_singleton]
      omega
    unfold ofNode
    refine List.forall_mem_cons.2 ⟨⟨shown, there, deep⟩, ?_⟩
    · split
      · rename_i opened
        intro spot member
        rw [below_eq] at member
        obtain ⟨view, shows, member⟩ := List.mem_flatMap.1 member
        cases view with
        | primitive name value =>
          obtain rfl := List.mem_singleton.1 member
          exact ⟨shown, opened, congrArg (· + 1) deep, node, there, rfl, shows⟩
        | child name inner =>
          obtain ⟨inside, isNode⟩ := Fields.mem_of_child shows
          rcases List.mem_cons.1 member with rfl | member
          · trivial
          · exact child name inner shows (.child shown opened there shows)
              (Path.resolve_child there (held inside) isNode) (deeper _) spot member
        | sequence name items =>
          rcases List.mem_cons.1 member with rfl | member
          · trivial
          · obtain ⟨entry, among, member⟩ := List.mem_flatMap.1 member
            have place := List.mem_zipIdx_iff_getElem?.1 among
            unfold ofItem at member
            split at member
            · rename_i inner found
              obtain ⟨same, isNode⟩ := Value.eq_object_of_asNode? found
              have visible := Shown.element shown opened there shows place (by simp [Value.isNode, found])
              rw [same] at place
              exact element name items inner shows (List.mem_of_getElem? place) visible
                (Path.resolve_element there (held (Fields.mem_of_sequence shows)) place isNode)
                (deeper _) spot member
            · obtain rfl := List.mem_singleton.1 member
              trivial
      · simp

theorem exact_all (keyed : root.Keyed) : ∀ spot ∈ all isOpen root, spot.Exact isOpen root :=
  exact_ofNode keyed root .root rfl rfl

theorem ofView_subset {depth : Nat} {path : Path} {node : Fields} (opened : isOpen path = true)
    {view : FieldView} (shows : view ∈ node.views) :
    ofView isOpen depth path node.kind view ⊆ ofNode isOpen depth path node := by
  intro spot member
  unfold ofNode
  rw [if_pos opened, below_eq]
  exact List.mem_cons_of_mem _ (List.mem_flatMap.2 ⟨view, shows, member⟩)

theorem ofNode_subset (keyed : root.Keyed) {path : Path} (shown : Shown isOpen root path) :
    ∃ node, path.resolve root = some node ∧
      ofNode isOpen (2 * path.length) path node ⊆ all isOpen root := by
  induction shown with
  | root => exact ⟨root, rfl, List.Subset.refl _⟩
  | @child path node inner name around opened there shows ih =>
    obtain ⟨owner, same, inside⟩ := ih
    obtain rfl : node = owner := by simpa [there] using same
    obtain ⟨member, isNode⟩ := Fields.mem_of_child shows
    refine ⟨inner, Path.resolve_child there (Fields.get?_of_mem (keyed.nodup there) member) isNode, ?_⟩
    intro spot member
    apply inside
    apply ofView_subset opened shows
    rw [Path.child, List.length_append] at member
    exact List.mem_cons_of_mem _ member
  | @element path node name items item i around opened there shows place isNode ih =>
    obtain ⟨owner, same, inside⟩ := ih
    obtain rfl : node = owner := by simpa [there] using same
    obtain ⟨inner, found⟩ := Option.isSome_iff_exists.1 isNode
    obtain ⟨rfl, kinded⟩ := Value.eq_object_of_asNode? found
    have held := Fields.get?_of_mem (keyed.nodup there) (Fields.mem_of_sequence shows)
    refine ⟨inner, Path.resolve_element there held place kinded, ?_⟩
    intro spot member
    apply inside
    apply ofView_subset opened shows
    apply List.mem_cons_of_mem
    refine List.mem_flatMap.2 ⟨(.object inner, i), List.mem_zipIdx_iff_getElem?.2 place, ?_⟩
    rw [Path.element, List.length_append] at member
    unfold ofItem
    rw [found]
    exact member

end Exact

end Spot

theorem Path.not_precedes_self {root : Fields} (keyed : root.Keyed) (path : Path) :
    ¬ Path.Precedes root path path := by
  rintro (⟨-, apart⟩ | ⟨front, step, turn, node, leads, ends, there, before⟩)
  · exact apart rfl
  · obtain rfl : step = turn := by
      have same := List.prefix_of_prefix_length_le leads ends (by simp)
      simpa using same.eq_of_length (by simp)
    rcases before with twice | ⟨-, i, j, first, second, less⟩
    · exact List.nodup_iff_sublist.1 (keyed.nodup there) step.field twice
    · rw [first, Option.some.injEq] at second
      omega

namespace View

variable {view : View} {root : Fields}

theorem node_of_row {spot : Spot} {path : Path} (same : (view.draw spot).path? = some path) :
    ∃ depth node, spot = .node depth path node := by
  cases spot with
  | node depth path node => exact ⟨depth, node, by simpa [draw, nodeRow, Row.path?] using same⟩
  | field depth kind target value =>
    rw [draw] at same
    split at same <;> simp [Row.path?] at same
  | label depth field => simp [draw, Row.path?] at same
  | item depth value => simp [draw, Row.path?] at same

theorem field_of_row {spot : Spot} {target : Target} (same : (view.draw spot).target? = some target) :
    ∃ depth kind value, spot = .field depth kind target value := by
  cases spot with
  | node depth path node => simp [draw, nodeRow, Row.target?] at same
  | field depth kind target value =>
    refine ⟨depth, kind, value, ?_⟩
    rw [draw] at same
    split at same <;> simpa [Row.target?] using same
  | label depth field => simp [draw, Row.target?] at same
  | item depth value => simp [draw, Row.target?] at same

theorem address?_draw (spot : Spot) : (view.draw spot).address? = spot.address? := by
  cases spot with
  | field depth kind target value =>
    rw [draw]
    split <;> rfl
  | _ => rfl

theorem rows_of_keyed (keyed : root.Keyed) :
    (view.rows root).1 = (Spot.all view.isExpanded root).map view.draw :=
  rows_fst fun there => keyed.nodup there

theorem addresses_rows (keyed : root.Keyed) : (view.rows root).1.filterMap Row.address? =
    Spot.addresses (Spot.all view.isExpanded root) := by
  unfold Spot.addresses
  rw [rows_of_keyed keyed, List.filterMap_map]
  exact List.filterMap_congr fun spot _ => address?_draw spot

structure Lists (view : View) (root : Fields) : Prop where
  /-- Each visible path has a row, and no other path has. -/
  nodes : ∀ path, path ∈ (view.rows root).1.filterMap Row.path? ↔ Shown view.isExpanded root path
  /-- Each primitive field of a visible node that is expanded has a row, and no other field has. -/
  fields : ∀ target : Target, target ∈ (view.rows root).1.filterMap Row.target? ↔
    Shown view.isExpanded root target.path ∧ view.isExpanded target.path = true ∧
      ∃ node value, target.path.resolve root = some node ∧ .primitive target.field value ∈ node.views
  /-- No path and no field has two rows. -/
  once : ((view.rows root).1.filterMap Row.path?).Nodup ∧ ((view.rows root).1.filterMap Row.target?).Nodup
  preorder : ((view.rows root).1.filterMap Row.address?).Pairwise (Path.Precedes root)
  /-- The row of a path is that of the node to which the path leads. -/
  node : ∀ depth path kind expandable expanded,
    ⟨depth, .node path kind expandable expanded⟩ ∈ (view.rows root).1 →
      depth = 2 * path.length ∧ view.isVisible path = true ∧ expanded = view.isExpanded path ∧
        ∃ node, path.resolve root = some node ∧ kind = node.kind ∧ expandable = node.hasViews
  /-- A field can be edited if a widget is mounted for it once the rows are made, and one is then if
  one was before or the registry has an input for the field. -/
  field : ∀ depth target text editable, ⟨depth, .field target text editable⟩ ∈ (view.rows root).1 →
    depth = 2 * target.path.length + 1 ∧ ∃ node, target.path.resolve root = some node ∧
      (editable = true ↔ ((view.rows root).2.widget? target).isSome = true) ∧
      (((view.rows root).2.widget? target).isSome = true ↔ (view.widget? target).isSome = true ∨
        (view.registry.resolve? node.kind target.field).isSome = true)
  /-- Rows that are made once more are the same, and the view stays as it is. -/
  again : (view.rows root).2.rows root = view.rows root

theorem isVisible_of_shown {path : Path} (shown : Shown view.isExpanded root path) :
    view.isVisible path = true := by
  induction shown with
  | root => rfl
  | child around opened there shows ih => exact isVisible_append.2 ⟨ih, opened⟩
  | element around opened there shows place isNode ih => exact isVisible_append.2 ⟨ih, opened⟩

theorem isSome_found? (kind : String) (target : Target) (value : Value) :
    (view.found? kind target value).isSome = true ↔ (view.widget? target).isSome = true ∨
      (view.registry.resolve? kind target.field).isSome = true := by
  unfold found? Registry.mount?
  rw [Option.isSome_or, Bool.or_eq_true, Option.isSome_map]

theorem nodup_of_ordered (keyed : root.Keyed) {α : Type} {key? : Row → Option α}
    (place : α → Path) (addressed : ∀ row key, key? row = some key → row.address? = some (place key))
    (ordered : ((view.rows root).1.filterMap Row.address?).Pairwise (Path.Precedes root)) :
    ((view.rows root).1.filterMap key?).Nodup := by
  apply List.pairwise_filterMap.2
  apply (List.pairwise_filterMap.1 ordered).imp
  intro row other before key first later second same
  subst same
  exact Path.not_precedes_self keyed _ (before _ (addressed row key first) _ (addressed other key second))

/-- The row list is the visible tree: whatever the registry, the expanded paths and the mounted
widgets, and for every tree whose nodes have no key twice. -/
theorem rows_list_shown (view : View) (root : Fields) (keyed : root.Keyed) : view.Lists root := by
  have exactly : ∀ spot ∈ Spot.all view.isExpanded root, spot.Exact view.isExpanded root :=
    Spot.exact_all keyed
  have ordered : ((view.rows root).1.filterMap Row.address?).Pairwise (Path.Precedes root) := by
    rw [addresses_rows keyed]
    exact Spot.ordered_ofNode keyed root 0 rfl
  constructor
  case nodes =>
    intro path
    rw [rows_of_keyed keyed, List.filterMap_map, List.mem_filterMap]
    constructor
    · rintro ⟨spot, member, same⟩
      obtain ⟨depth, node, rfl⟩ := node_of_row same
      exact (exactly _ member).1
    · intro shown
      obtain ⟨node, there, inside⟩ := Spot.ofNode_subset keyed shown
      exact ⟨_, inside List.mem_cons_self, rfl⟩
  case fields =>
    intro target
    rw [rows_of_keyed keyed, List.filterMap_map, List.mem_filterMap]
    constructor
    · rintro ⟨spot, member, same⟩
      obtain ⟨depth, kind, value, rfl⟩ := field_of_row same
      obtain ⟨shown, opened, -, owner, there, -, shows⟩ := exactly _ member
      exact ⟨shown, opened, owner, value, there, shows⟩
    · rintro ⟨shown, opened, node, value, there, shows⟩
      obtain ⟨owner, same, inside⟩ := Spot.ofNode_subset keyed shown
      obtain rfl : node = owner := by simpa [there] using same
      have member := inside (Spot.ofView_subset opened shows List.mem_cons_self)
      refine ⟨_, member, ?_⟩
      rw [Function.comp_apply, draw]
      split <;> rfl
  case once =>
    constructor
    · apply nodup_of_ordered keyed id _ ordered
      intro row path same
      rw [Row.address?, same, Option.some_or, id]
    · apply nodup_of_ordered keyed (fun target : Target => target.path.child target.field) _ ordered
      intro row target same
      exact Row.address?_of_target? same
  case preorder => exact ordered
  case node =>
    intro depth path kind expandable expanded member
    rw [rows_of_keyed keyed, List.mem_map] at member
    obtain ⟨spot, inside, same⟩ := member
    obtain ⟨deep, node, rfl⟩ := node_of_row (congrArg Row.path? same)
    obtain ⟨shown, there, length⟩ := exactly _ inside
    simp only [draw, nodeRow, Row.mk.injEq, RowKind.node.injEq, true_and] at same
    obtain ⟨rfl, rfl, rfl, rfl⟩ := same
    exact ⟨length, isVisible_of_shown shown, rfl, node, there, rfl, rfl⟩
  case field =>
    intro depth target text editable member
    rw [rows_of_keyed keyed, List.mem_map] at member
    obtain ⟨spot, inside, same⟩ := member
    obtain ⟨deep, kind, value, rfl⟩ := field_of_row (congrArg Row.target? same)
    obtain ⟨-, -, length, node, there, rfl, -⟩ := exactly _ inside
    obtain ⟨rfl, rfl⟩ : deep = depth ∧ (view.found? node.kind target value).isSome = editable := by
      rw [draw] at same
      cases found : view.found? node.kind target value with
      | some w =>
        rw [found] at same
        cases same
        exact ⟨rfl, rfl⟩
      | none =>
        rw [found] at same
        cases same
        exact ⟨rfl, rfl⟩
    rw [widget?_rows (fun there => keyed.nodup there) inside]
    exact ⟨length, node, there, Iff.rfl, isSome_found? ..⟩
  case again => exact rows_rows fun there => keyed.nodup there

theorem rows_list_shown_declaration :
    let declared : Fields := [("type", .string "VariableDeclaration"), ("kind", .string "let")]
    let tree : Fields := [("type", .string "Program"), ("body", .list [.object declared, .null])]
    let view := (View.create Registry.builtin).moves
      [.toggle tree Path.root, .rows tree, .toggle tree [⟨"body", some 0⟩]]
    tree.Keyed ∧ view.Lists tree ∧ (view.rows tree).1.map Row.depth = [0, 1, 2, 3, 2] := by
  intro declared tree view
  have keyed : tree.Keyed := by
    simp [Fields.Keyed, tree, declared, Fields.keys, Value.EachField, Value.EachNode, Value.EachItem]
  exact ⟨keyed, rows_list_shown view tree keyed, by decide +kernel⟩

end View

end Arborist

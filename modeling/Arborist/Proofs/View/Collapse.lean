import Mathlib
import Arborist.Proofs.View.Shown

/-!
Closing undoes opening. As long as nothing but the tree's rows and toggles below an open path happen,
all that is not below the path stays as it was: what is closed there was closed before, and the fields
that show there have had their widgets since the rows were made. So closing the path again leaves the
view that it was opened in, and what shows when it is opened once more is as if for the first time.
-/

namespace Arborist

theorem Path.under_self (path : Path) : path.under path = true :=
  Path.under_iff.2 (List.prefix_refl path)

namespace View

/-- The views that a registry can lead to: by toggles and rows, each on any tree, and by widgets that
are put in the place of mounted ones. -/
inductive Arises (registry : Registry) : View → Prop where
  | create : Arises registry (View.create registry)
  | move {view : View} (before : Arises registry view) (next : Move) : Arises registry (view.move next)
  | setWidget {view : View} (before : Arises registry view) (target : Target) (w : Widget) :
      Arises registry (view.setWidget target w)

theorem Nested.setWidget {view : View} (nested : view.Nested) (target : Target) (w : Widget) :
    (view.setWidget target w).Nested := by
  refine ⟨nested.closed, ?_, fun entry member => ?_⟩
  · rw [targets_setWidget]
    exact nested.apart
  · have among : entry.1 ∈ view.widgets.map Prod.fst := by
      rw [← targets_setWidget view target w]
      exact List.mem_map_of_mem member
    obtain ⟨old, there, same⟩ := List.mem_map.1 among
    exact same ▸ nested.mounted old there

theorem Arises.nested {registry : Registry} {view : View} (arises : Arises registry view) :
    view.Nested := by
  induction arises with
  | create => exact nested_create registry
  | move _ next ih => exact ih.move next
  | setWidget _ target w ih => exact ih.setWidget target w

def Move.Below (root : Fields) (path : Path) : Move → Prop
  | .rows tree => tree = root
  | .toggle tree other => tree = root ∧ other.under path = true ∧ other ≠ path

/-- The path is open in the view, and apart from what is below it the view is still the first. -/
structure Beside (first : View) (path : Path) (view : View) : Prop where
  registry : view.registry = first.registry
  expanded : view.expanded.filter (fun p => !p.under path) = first.expanded
  widgets : view.widgets.filter (fun entry => !entry.1.path.under path) = first.widgets
  opened : view.isExpanded path = true

section Steps

variable {first view : View} {path : Path}

theorem filter_collapsed {α : Type} (place : α → Path) {other : Path} (inside : other.under path = true)
    (list : List α) :
    (list.filter fun a => !(place a).under other).filter (fun a => !(place a).under path) =
      list.filter fun a => !(place a).under path := by
  rw [List.filter_filter]
  refine List.filter_congr fun a _ => ?_
  cases lower : (place a).under other with
  | true => simp [Path.under_trans lower inside]
  | false => simp

theorem lookup_filter {target : Target} {keep : Target × Widget → Bool}
    (kept : ∀ w, keep (target, w) = true) (list : List (Target × Widget)) :
    (list.filter keep).lookup target = list.lookup target := by
  induction list with
  | nil => rfl
  | cons entry rest ih =>
    obtain ⟨key, w⟩ := entry
    by_cases same : target = key
    · subst same
      rw [List.filter_cons_of_pos (kept w), List.lookup_cons_self, List.lookup_cons_self]
    · have miss : (target == key) = false := by simpa using same
      rw [List.filter_cons, List.lookup_cons, miss]
      split
      · rw [List.lookup_cons, miss]
        exact ih
      · exact ih

theorem Nested.filter_of_closed (nested : first.Nested) (closed : first.isExpanded path = false) :
    first.expanded.filter (fun p => !p.under path) = first.expanded ∧
      first.widgets.filter (fun entry => !entry.1.path.under path) = first.widgets := by
  have outside : ∀ other, first.isExpanded other = true → other.under path = false := by
    intro other expanded
    by_contra inside
    rw [nested.closed expanded (by simpa using inside)] at closed
    cases closed
  constructor
  · refine List.filter_eq_self.2 fun other member => ?_
    rw [outside other (by simpa [isExpanded] using member)]
    rfl
  · refine List.filter_eq_self.2 fun entry member => ?_
    rw [outside _ (nested.mounted entry member)]
    rfl

theorem beside_opened (nested : first.Nested) (closed : first.isExpanded path = false) :
    Beside first path (first.expand path) := by
  obtain ⟨expanded, widgets⟩ := nested.filter_of_closed closed
  refine ⟨rfl, ?_, widgets, isExpanded_expand.2 (.inl rfl)⟩
  rw [View.expand, List.filter_cons_of_neg (by simp [Path.under_self])]
  exact expanded

namespace Beside

theorem isExpanded_iff (beside : Beside first path view) {other : Path}
    (outside : other.under path = false) : view.isExpanded other = first.isExpanded other := by
  simp only [isExpanded, ← beside.expanded, List.contains_eq_mem, List.mem_filter, outside,
    Bool.not_false, and_true]

theorem widget?_eq (beside : Beside first path view) {target : Target}
    (outside : target.path.under path = false) : view.widget? target = first.widget? target := by
  rw [widget?, widget?, ← beside.widgets]
  exact (lookup_filter (fun w => by simp [outside]) view.widgets).symm

theorem isVisible_eq (beside : Beside first path view) (visible : first.isVisible path = true) :
    view.isVisible path = true := by
  refine List.all_eq_true.2 fun n inside => ?_
  have shorter := List.mem_range.1 inside
  have outside : Path.under (path.take n) path = false := by
    by_contra below
    have long := (Path.under_iff.1 (by simpa using below)).length_le
    rw [List.length_take] at long
    omega
  rw [beside.isExpanded_iff outside]
  exact List.all_eq_true.1 visible n inside

theorem toggle (beside : Beside first path view) {root : Fields} {other : Path}
    (inside : other.under path = true) (apart : other ≠ path) :
    Beside first path (view.toggle root other).1 := by
  rcases toggle_cases view root other with ⟨e, done⟩ | done | done | ⟨-, done⟩ <;> rw [done]
  · exact beside
  · exact beside
  · have stays : path.under other = false := by
      by_contra below
      have around := Path.under_iff.1 (show path.under other = true by simpa using below)
      exact apart (around.eq_of_length_le (Path.under_iff.1 inside).length_le)
    exact ⟨beside.registry, (filter_collapsed id inside _).trans beside.expanded,
      (filter_collapsed (fun entry : Target × Widget => entry.1.path) inside _).trans beside.widgets,
      isExpanded_collapse.2 ⟨beside.opened, stays⟩⟩
  · refine ⟨beside.registry, ?_, beside.widgets, isExpanded_expand.2 (.inr beside.opened)⟩
    rw [View.expand, List.filter_cons_of_neg (by simp [inside])]
    exact beside.expanded

theorem mount (beside : Beside first path view) {target : Target}
    (inside : target.path.under path = true) (w : Widget) :
    Beside first path (view.mount target w) := by
  refine ⟨beside.registry, beside.expanded, ?_, beside.opened⟩
  rw [View.mount, List.filter_append, List.filter_singleton, inside]
  simpa using beside.widgets

end Beside

theorem Beside.shown (beside : Beside first path view) {root : Fields} {other : Path}
    (shown : Shown view.isExpanded root other) (outside : other.under path = false) :
    Shown first.isExpanded root other := by
  have above : ∀ {front : Path} {step : Step}, Path.under (front ++ [step]) path = false →
      front.under path = false := by
    intro front step outside
    by_contra below
    rw [Path.under_trans (Path.under_iff.2 (List.prefix_append front [step]))
      (by simpa using below)] at outside
    cases outside
  induction shown with
  | root => exact .root
  | child around opened there shows ih =>
    have free := above outside
    exact .child (ih free) (beside.isExpanded_iff free ▸ opened) there shows
  | element around opened there shows place isNode ih =>
    have free := above outside
    exact .element (ih free) (beside.isExpanded_iff free ▸ opened) there shows place isNode

theorem Beside.mounted {base : View} {root : Fields} (keyed : root.Keyed)
    (beside : Beside (base.rows root).2 path view) {depth : Nat} {kind : String} {target : Target}
    {value : Value} (member : .field depth kind target value ∈ Spot.all view.isExpanded root)
    (outside : target.path.under path = false)
    (registered : (view.registry.resolve? kind target.field).isSome = true) :
    ((base.rows root).2.widget? target).isSome = true := by
  obtain ⟨shown, opened, -, owner, there, rfl, primitive⟩ := Spot.exact_all keyed _ member
  have before := beside.shown shown outside
  rw [beside.isExpanded_iff outside] at opened
  have expanded : (base.rows root).2.isExpanded = base.isExpanded := by
    rw [rows_eq, isExpanded_visit]
  rw [expanded] at before opened
  obtain ⟨node, same, inside⟩ := Spot.ofNode_subset keyed before
  obtain rfl : owner = node := by simpa [there] using same
  have spot := inside (Spot.ofView_subset opened primitive List.mem_cons_self)
  rw [widget?_rows (fun there => keyed.nodup there) spot, isSome_found?]
  rw [beside.registry, rows_eq, registry_visit] at registered
  exact .inr registered

theorem Beside.rows {base : View} {root : Fields} (keyed : root.Keyed)
    (beside : Beside (base.rows root).2 path view) :
    Beside (base.rows root).2 path (view.rows root).2 := by
  rw [rows_eq view]
  suffices kept : Beside (base.rows root).2 path (view.visit (Spot.all view.isExpanded root)).2 ∧
      (view.visit (Spot.all view.isExpanded root)).2.registry = view.registry from kept.1
  refine visit_induct (motive := fun next =>
    Beside (base.rows root).2 path next ∧ next.registry = view.registry) ⟨beside, rfl⟩ ?_
  rintro next depth kind target value w ⟨holds, same⟩ member free made
  cases outside : target.path.under path with
  | true => exact ⟨holds.mount outside w, same⟩
  | false =>
    have registered : (view.registry.resolve? kind target.field).isSome = true := by
      obtain ⟨build, found, -⟩ := Option.map_eq_some_iff.1 made
      rw [← same, found]
      rfl
    have there := beside.mounted keyed member outside registered
    rw [← holds.widget?_eq outside, free] at there
    cases there

theorem Beside.moves {base : View} {root : Fields} (keyed : root.Keyed)
    (beside : Beside (base.rows root).2 path view) {between : List Move}
    (below : ∀ move ∈ between, move.Below root path) :
    Beside (base.rows root).2 path (view.moves between) := by
  induction between generalizing view with
  | nil => exact beside
  | cons next rest ih =>
    obtain ⟨one, others⟩ := List.forall_mem_cons.1 below
    refine ih ?_ others
    cases next with
    | rows tree =>
      obtain rfl : tree = root := one
      exact beside.rows keyed
    | toggle tree other =>
      obtain ⟨rfl, inside, apart⟩ := one
      exact beside.toggle inside apart

end Steps

/-- What shows below a path that was just opened: its nodes are closed, and a field there is one of the
node at the path, shown through a widget seeded with what the field holds, if there is one. -/
structure Fresh (view : View) (root : Fields) (path : Path) (node : Fields) : Prop where
  nodes : ∀ depth other kind expandable expanded,
    ⟨depth, .node other kind expandable expanded⟩ ∈ (view.rows root).1 →
      other.under path = true → other ≠ path → expanded = false
  fields : ∀ depth target text editable,
    ⟨depth, .field target text editable⟩ ∈ (view.rows root).1 → target.path.under path = true →
      target.path = path ∧ ∃ value, node.get? target.field = some value ∧
        let seeded := view.registry.mount? node.kind target value
        text = (seeded.map Widget.display).getD value.display ∧ editable = seeded.isSome ∧
          (view.rows root).2.widget? target = seeded
  widgets : ∀ entry ∈ (view.rows root).2.widgets, entry.1.path.under path = true →
    ∃ value, node.get? entry.1.field = some value ∧
      view.registry.mount? node.kind entry.1 value = some entry.2

/-- Below the path nothing else is open, and no widget is mounted there. -/
structure JustOpened (view : View) (path : Path) : Prop where
  only : ∀ other, other.under path = true → view.isExpanded other = true → other = path
  bare : ∀ entry ∈ view.widgets, entry.1.path.under path = false

theorem justOpened_expand {view : View} {path : Path} (nested : view.Nested)
    (closed : view.isExpanded path = false) : (view.expand path).JustOpened path := by
  constructor
  · intro other inside expanded
    rcases isExpanded_expand.1 expanded with same | before
    · exact same
    · rw [nested.closed before inside] at closed
      cases closed
  · intro entry member
    by_contra inside
    rw [nested.closed (nested.mounted entry member) (by simpa using inside)] at closed
    cases closed

namespace JustOpened

variable {view : View} {root : Fields} {path : Path} {node : Fields} {depth : Nat} {kind : String}
  {target : Target} {value : Value}

theorem unmounted (opened : view.JustOpened path) (inside : target.path.under path = true) :
    view.widget? target = none := by
  cases found : view.widget? target with
  | none => rfl
  | some w =>
    rw [opened.bare _ (mem_of_widget? found)] at inside
    cases inside

theorem seeded_of_spot (opened : view.JustOpened path) (keyed : root.Keyed)
    (there : path.resolve root = some node)
    (among : .field depth kind target value ∈ Spot.all view.isExpanded root)
    (inside : target.path.under path = true) :
    target.path = path ∧ node.get? target.field = some value ∧
      view.found? kind target value = view.registry.mount? node.kind target value := by
  obtain ⟨-, expanded, -, owner, leads, rfl, shows⟩ := Spot.exact_all keyed _ among
  have here := opened.only _ inside expanded
  obtain rfl : owner = node := by
    rw [here, there, Option.some.injEq] at leads
    exact leads.symm
  refine ⟨here, ?_, ?_⟩
  · exact Fields.get?_of_mem (keyed.nodup there) (Fields.mem_of_primitive shows)
  · rw [found?, opened.unmounted inside, Option.none_or]

/-- Each widget below the path was mounted for a field that shows, as none was there before. -/
theorem seeded_of_widget (opened : view.JustOpened path) (keyed : root.Keyed)
    (there : path.resolve root = some node) :
    ∀ entry ∈ (view.rows root).2.widgets, entry.1.path.under path = true →
      ∃ value, node.get? entry.1.field = some value ∧
        view.registry.mount? node.kind entry.1 value = some entry.2 := by
  rw [rows_eq]
  suffices kept : (view.visit (Spot.all view.isExpanded root)).2.registry = view.registry ∧
      ∀ entry ∈ (view.visit (Spot.all view.isExpanded root)).2.widgets,
        entry.1.path.under path = true → ∃ value, node.get? entry.1.field = some value ∧
          view.registry.mount? node.kind entry.1 value = some entry.2 from kept.2
  refine visit_induct (motive := fun next => next.registry = view.registry ∧
    ∀ entry ∈ next.widgets, entry.1.path.under path = true →
      ∃ value, node.get? entry.1.field = some value ∧
        view.registry.mount? node.kind entry.1 value = some entry.2) ⟨rfl, ?_⟩ ?_
  · intro entry member inside
    rw [opened.bare entry member] at inside
    cases inside
  · rintro next depth kind target value w ⟨same, holds⟩ among free made
    refine ⟨same, fun entry member inside => ?_⟩
    rcases List.mem_append.1 member with old | new
    · exact holds entry old inside
    · obtain rfl := List.mem_singleton.1 new
      obtain ⟨-, held, seeded⟩ := opened.seeded_of_spot keyed there among inside
      rw [found?, opened.unmounted inside, Option.none_or, ← same, made] at seeded
      exact ⟨value, held, same ▸ seeded.symm⟩

theorem fresh (opened : view.JustOpened path) (keyed : root.Keyed)
    (there : path.resolve root = some node) : view.Fresh root path node := by
  constructor
  case nodes =>
    intro depth other kind expandable expanded member inside strict
    rw [rows_of_keyed keyed, List.mem_map] at member
    obtain ⟨spot, -, same⟩ := member
    obtain ⟨deep, inner, rfl⟩ := node_of_row (congrArg Row.path? same)
    simp only [draw, nodeRow, Row.mk.injEq, RowKind.node.injEq] at same
    rw [← same.2.2.2.2]
    by_contra remains
    exact strict (opened.only other inside (by simpa using remains))
  case fields =>
    intro depth target text editable member inside
    rw [rows_of_keyed keyed, List.mem_map] at member
    obtain ⟨spot, among, same⟩ := member
    obtain ⟨deep, kind, value, rfl⟩ := field_of_row (congrArg Row.target? same)
    obtain ⟨here, held, seeded⟩ := opened.seeded_of_spot keyed there among inside
    refine ⟨here, value, held, ?_⟩
    rw [widget?_rows (fun there => keyed.nodup there) among, ← seeded]
    rw [draw] at same
    cases found : view.found? kind target value <;> rw [found] at same <;> cases same <;>
      exact ⟨rfl, rfl, rfl⟩
  case widgets => exact opened.seeded_of_widget keyed there

end JustOpened

/-- Closing undoes opening, whatever happened below. Let the rows of a tree be made in any view that
can arise, and let a path be visible, closed and lead to a node with something to show. Opening it,
any rows of the tree and toggles below the path, refused or not, and closing it again give back the
view as it was before, with what is expanded and all widgets; and opening it again shows what is below
it closed and its fields through new widgets. -/
theorem toggle_undoes_toggle {registry : Registry} {base : View} (arises : Arises registry base)
    {root : Fields} (keyed : root.Keyed) {path : Path} {node : Fields}
    (there : path.resolve root = some node) (shows : node.hasViews = true)
    (visible : (base.rows root).2.isVisible path = true)
    (closed : (base.rows root).2.isExpanded path = false)
    {between : List Move} (below : ∀ move ∈ between, move.Below root path) :
    ∃ opened, (base.rows root).2.toggle root path = (opened, .ok .expanded) ∧
      (opened.moves between).toggle root path = ((base.rows root).2, .ok .collapsed) ∧
      opened.Fresh root path node := by
  have nested := arises.nested.rows root
  refine ⟨(base.rows root).2.expand path, ?_, ?_, (justOpened_expand nested closed).fresh keyed there⟩
  · simp [toggle, there, visible, shows, closed]
  · have beside := (beside_opened nested closed).moves keyed below
    generalize ((base.rows root).2.expand path).moves between = view at beside
    have restored : view.collapse path = (base.rows root).2 := by
      rw [collapse, beside.expanded, beside.widgets, beside.registry]
    simp [toggle, there, beside.isVisible_eq visible, shows, beside.opened, restored]

/-- A call is opened, shown, opened further, closed in part, and closed, with a toggle between that is
refused. -/
theorem toggle_undoes_toggle_call :
    let name : Fields := [("type", .string "Identifier"), ("name", .string "log")]
    let call : Fields := [("type", .string "CallExpression"), ("callee", .object name),
      ("arguments", .list [.object name])]
    let tree : Fields := [("type", .string "ExpressionStatement"), ("expression", .object call)]
    let base := (View.create Registry.builtin).move (.toggle tree Path.root)
    let path : Path := [⟨"expression", none⟩]
    let between : List Move := [.rows tree, .toggle tree (path ++ [⟨"callee", none⟩]), .rows tree,
      .toggle tree (path ++ [⟨"arguments", some 7⟩]),
      .toggle tree (path ++ [⟨"arguments", some 0⟩]), .rows tree,
      .toggle tree (path ++ [⟨"callee", none⟩])]
    (base.rows tree).2.isVisible path = true ∧ (base.rows tree).2.isExpanded path = false ∧
      ∃ opened, (base.rows tree).2.toggle tree path = (opened, .ok .expanded) ∧
        (opened.moves between).toggle tree path = ((base.rows tree).2, .ok .collapsed) ∧
        opened.Fresh tree path call := by
  intro name call tree base path between
  have keyed : tree.Keyed := by
    simp [Fields.Keyed, tree, call, name, Fields.keys, Value.EachField, Value.EachNode, Value.EachItem]
  have arises : Arises Registry.builtin base := .move .create _
  have visible : (base.rows tree).2.isVisible path = true := by decide +kernel
  have closed : (base.rows tree).2.isExpanded path = false := by decide +kernel
  have below : ∀ move ∈ between, move.Below tree path := by
    simp [between, path, Move.Below, Path.under_iff]
  exact ⟨visible, closed,
    toggle_undoes_toggle arises keyed (by rfl) (by decide +kernel) visible closed below⟩

end View

end Arborist

import Mathlib
import Arborist.Proofs.View.Mounted

/-!
What is expanded and what is mounted. Each call may see another tree, so paths may stay expanded that
lead to no node any more, and widgets whose fields are gone. Even so the expanded paths are closed
upwards, every widget is kept for a field of an expanded path and is what the registry made for that
field, and a toggle that is refused leaves the view as it was.
-/

namespace Arborist

namespace Path

theorem under_iff {path above : Path} : path.under above = true ↔ above <+: path :=
  List.isPrefixOf_iff_prefix

theorem under_trans {path middle above : Path} (lower : path.under middle = true)
    (upper : middle.under above = true) : path.under above = true :=
  under_iff.2 ((under_iff.1 upper).trans (under_iff.1 lower))

end Path

/-- Each factory builds widgets for the target that it is given. A factory is any function; this is
what the registry asks of it. -/
def Registry.Binds (registry : Registry) : Prop :=
  ∀ entry ∈ registry.entries, ∀ target value, (entry.2 target value).target = target

namespace Registry

variable {registry : Registry} {kind : String} {target : Target} {value : Value} {w : Widget}

theorem Binds.target_of_mount? (binds : registry.Binds)
    (made : registry.mount? kind target value = some w) : w.target = target := by
  obtain ⟨build, found, rfl⟩ := Option.map_eq_some_iff.1 made
  obtain ⟨front, behind, whole, -⟩ := List.lookup_eq_some_iff.1 found
  exact binds (key kind target.field, build) (by simp [whole]) target value

theorem binds_builtin : builtin.Binds := by
  intro entry member target value
  obtain ⟨input, -, rfl⟩ := List.mem_map.1 member
  rfl

end Registry

namespace View

inductive Move where
  | toggle (root : Fields) (path : Path)
  | rows (root : Fields)
  deriving Repr

def move (view : View) : Move → View
  | .toggle root path => (view.toggle root path).1
  | .rows root => (view.rows root).2

def moves (view : View) (list : List Move) : View := list.foldl move view

/-- The expanded paths are closed upwards, no two widgets are kept for one target, and what the fields
belong to is expanded. -/
structure Nested (view : View) : Prop where
  closed : ∀ {path above : Path}, view.isExpanded path = true → path.under above = true →
    view.isExpanded above = true
  apart : (view.widgets.map Prod.fst).Nodup
  mounted : ∀ entry ∈ view.widgets, view.isExpanded entry.1.path = true

/-- Every widget is one that the registry makes for the target under which it is kept. -/
def Made (registry : Registry) (view : View) : Prop :=
  view.registry = registry ∧
    ∀ entry ∈ view.widgets, ∃ kind value, registry.mount? kind entry.1 value = some entry.2

section Steps

variable {view : View} {registry : Registry}

theorem nested_create (registry : Registry) : (View.create registry).Nested :=
  ⟨fun expanded => by simp [create, isExpanded] at expanded, List.nodup_nil,
    fun _ member => absurd member List.not_mem_nil⟩

theorem made_create (registry : Registry) : (View.create registry).Made registry :=
  ⟨rfl, fun _ member => absurd member List.not_mem_nil⟩

theorem Nested.isVisible (nested : view.Nested) {path : Path} (expanded : view.isExpanded path = true) :
    view.isVisible path = true := by
  refine List.all_eq_true.2 fun n _ => ?_
  exact nested.closed expanded (Path.under_iff.2 (List.take_prefix n path))

theorem isExpanded_of_isVisible {path above : Path} (visible : view.isVisible path = true)
    (around : path.under above = true) (strict : above ≠ path) : view.isExpanded above = true := by
  have shape := List.prefix_iff_eq_take.1 (Path.under_iff.1 around)
  have shorter : above.length < path.length := by
    refine lt_of_le_of_ne (Path.under_iff.1 around).length_le fun same => strict ?_
    rw [shape, same, List.take_length]
  rw [shape]
  exact List.all_eq_true.1 visible _ (List.mem_range.2 shorter)

/-- What a toggle does: it is refused, or nothing is to be seen, or it closes the node with all that
is below it, or it opens a node whose surroundings are open. -/
theorem toggle_cases (view : View) (root : Fields) (path : Path) :
    (∃ e, view.toggle root path = (view, .error e)) ∨
    view.toggle root path = (view, .ok .disallowed) ∨
    view.toggle root path = (view.collapse path, .ok .collapsed) ∨
    (view.isVisible path = true ∧ view.toggle root path = (view.expand path, .ok .expanded)) := by
  unfold toggle
  split
  · exact .inl ⟨_, rfl⟩
  · split
    · exact .inl ⟨_, rfl⟩
    · rename_i visible
      split
      · exact .inr (.inl rfl)
      · split
        · exact .inr (.inr (.inl rfl))
        · exact .inr (.inr (.inr ⟨by simpa using visible, rfl⟩))

theorem isExpanded_collapse {path other : Path} : (view.collapse path).isExpanded other = true ↔
    view.isExpanded other = true ∧ other.under path = false := by
  simp [isExpanded, collapse]

theorem isExpanded_expand {path other : Path} : (view.expand path).isExpanded other = true ↔
    other = path ∨ view.isExpanded other = true := by
  simp [isExpanded, expand]

theorem Nested.collapse (nested : view.Nested) (path : Path) : (view.collapse path).Nested := by
  refine ⟨fun {other above} expanded around => ?_, ?_, fun entry member => ?_⟩
  · obtain ⟨before, outside⟩ := isExpanded_collapse.1 expanded
    refine isExpanded_collapse.2 ⟨nested.closed before around, ?_⟩
    by_contra inside
    rw [Path.under_trans around (by simpa using inside)] at outside
    cases outside
  · exact nested.apart.sublist (List.filter_sublist.map _)
  · obtain ⟨before, outside⟩ := List.mem_filter.1 member
    exact isExpanded_collapse.2 ⟨nested.mounted entry before, by simpa using outside⟩

theorem Nested.expand (nested : view.Nested) {path : Path} (visible : view.isVisible path = true) :
    (view.expand path).Nested := by
  refine ⟨fun {other above} expanded around => ?_, nested.apart, fun entry member => ?_⟩
  · rcases isExpanded_expand.1 expanded with rfl | before
    · by_cases same : above = other
      · exact isExpanded_expand.2 (.inl same)
      · exact isExpanded_expand.2 (.inr (isExpanded_of_isVisible visible around same))
    · exact isExpanded_expand.2 (.inr (nested.closed before around))
  · exact isExpanded_expand.2 (.inr (nested.mounted entry member))

theorem Nested.mount (nested : view.Nested) {target : Target} (free : view.widget? target = none)
    (expanded : view.isExpanded target.path = true) (w : Widget) : (view.mount target w).Nested := by
  refine ⟨nested.closed, nodup_mount nested.apart free w, fun entry member => ?_⟩
  rcases List.mem_append.1 member with old | new
  · exact nested.mounted entry old
  · exact List.mem_singleton.1 new ▸ expanded

theorem Made.mount (made : view.Made registry) {kind : String} {target : Target} {value : Value}
    {w : Widget} (fresh : view.registry.mount? kind target value = some w) :
    (view.mount target w).Made registry := by
  refine ⟨made.1, fun entry member => ?_⟩
  rcases List.mem_append.1 member with old | new
  · exact made.2 entry old
  · obtain rfl := List.mem_singleton.1 new
    exact ⟨kind, value, made.1 ▸ fresh⟩

theorem Nested.rows (nested : view.Nested) (root : Fields) : (view.rows root).2.Nested := by
  rw [rows_eq]
  suffices kept : (view.visit (Spot.all view.isExpanded root)).2.Nested ∧
      (view.visit (Spot.all view.isExpanded root)).2.isExpanded = view.isExpanded from kept.1
  refine visit_induct (motive := fun next => next.Nested ∧ next.isExpanded = view.isExpanded)
    ⟨nested, rfl⟩ ?_
  rintro next depth kind target value w ⟨holds, same⟩ member free -
  obtain ⟨expanded, -⟩ := Spot.placed_all _ member
  exact ⟨holds.mount free (same ▸ expanded) w, same⟩

theorem Made.rows (made : view.Made registry) (root : Fields) : (view.rows root).2.Made registry := by
  rw [rows_eq]
  exact visit_induct made fun holds _ _ fresh => holds.mount fresh

theorem Nested.toggle (nested : view.Nested) (root : Fields) (path : Path) :
    (view.toggle root path).1.Nested := by
  rcases toggle_cases view root path with ⟨e, done⟩ | done | done | ⟨visible, done⟩ <;> rw [done]
  · exact nested
  · exact nested
  · exact nested.collapse path
  · exact nested.expand visible

theorem Made.toggle (made : view.Made registry) (root : Fields) (path : Path) :
    (view.toggle root path).1.Made registry := by
  rcases toggle_cases view root path with ⟨e, done⟩ | done | done | ⟨visible, done⟩ <;> rw [done]
  · exact made
  · exact made
  · exact ⟨made.1, fun entry member => made.2 entry (List.mem_filter.1 member).1⟩
  · exact made

theorem Nested.move (nested : view.Nested) (next : Move) : (view.move next).Nested := by
  cases next with
  | rows root => exact nested.rows root
  | toggle root path => exact nested.toggle root path

theorem Made.move (made : view.Made registry) (next : Move) : (view.move next).Made registry := by
  cases next with
  | rows root => exact made.rows root
  | toggle root path => exact made.toggle root path

theorem moves_induct {motive : View → Prop} (start : motive view)
    (step : ∀ {view : View}, motive view → ∀ next, motive (view.move next)) (list : List Move) :
    motive (view.moves list) := by
  induction list generalizing view with
  | nil => exact start
  | cons first rest ih => exact ih (step start first)

theorem toggle_fst_of_refused {root : Fields} {path : Path}
    (refused : (∃ e, (view.toggle root path).2 = .error e) ∨
      (view.toggle root path).2 = .ok .disallowed) : (view.toggle root path).1 = view := by
  rcases toggle_cases view root path with ⟨e, done⟩ | done | done | ⟨-, done⟩
  · rw [done]
  · rw [done]
  · simp [done] at refused
  · simp [done] at refused

end Steps

/-- Over any registry and after any toggles and rows, each on any tree: all that is above an expanded
path is expanded, so an expanded path is visible; every mounted widget is kept for a field of an
expanded path, it is the one that is found for that field, and it is what a factory of the registry
made for it, so it has that target itself if the factories bind what they build; for every field to be
edited the rows mount the widget that its row shows; and a toggle that fails or is disallowed changes
nothing. -/
theorem nested_along_moves (registry : Registry) (list : List Move) :
    let view := (View.create registry).moves list
    (∀ path above : Path, view.isExpanded path = true → path.under above = true →
      view.isExpanded above = true) ∧
    (∀ entry ∈ view.widgets, view.isExpanded entry.1.path = true ∧
      view.widget? entry.1 = some entry.2) ∧
    (∀ target w, view.widget? target = some w →
      (target, w) ∈ view.widgets ∧ ∃ kind value, registry.mount? kind target value = some w) ∧
    (registry.Binds → ∀ target w, view.widget? target = some w → w.target = target) ∧
    (∀ root, ∀ row ∈ (view.rows root).1, ∀ target text, row.kind = .field target text true →
      ∃ w, (view.rows root).2.widget? target = some w ∧ w.display = text) ∧
    (∀ path, view.isExpanded path = true → view.isVisible path = true) ∧
    ∀ root path,
      ((∃ e, (view.toggle root path).2 = .error e) ∨ (view.toggle root path).2 = .ok .disallowed) →
      (view.toggle root path).1 = view := by
  intro view
  have nested : view.Nested := moves_induct (nested_create registry) Nested.move list
  have made : view.Made registry := moves_induct (made_create registry) Made.move list
  refine ⟨fun path above => nested.closed, fun entry member => ?_, fun target w found => ?_,
    fun binds target w found => ?_, fun root row member target text => ?_,
    fun path => nested.isVisible, fun root path => toggle_fst_of_refused⟩
  · exact ⟨nested.mounted entry member, widget?_of_mem nested.apart member⟩
  · exact ⟨mem_of_widget? found, made.2 _ (mem_of_widget? found)⟩
  · obtain ⟨kind, value, fresh⟩ := made.2 _ (mem_of_widget? found)
    exact binds.target_of_mount? fresh
  · rw [rows_eq] at member ⊢
    exact widget?_of_row member

theorem nested_along_moves_declaration :
    let declared : Fields := [("type", .string "VariableDeclaration"), ("kind", .string "let")]
    let tree : Fields := [("type", .string "Program"), ("body", .list [.object declared])]
    let place : Path := [⟨"body", some 0⟩]
    let view := (View.create Registry.builtin).moves
      [.toggle tree Path.root, .toggle tree place, .rows tree, .rows declared]
    Registry.builtin.Binds ∧ (view.widget? ⟨place, "kind"⟩).isSome = true ∧
      ∀ target w, view.widget? target = some w → w.target = target := by
  intro declared tree place view
  have mounted : (view.widget? ⟨place, "kind"⟩).isSome = true := by decide +kernel
  exact ⟨Registry.binds_builtin, mounted,
    (nested_along_moves Registry.builtin _).2.2.2.1 Registry.binds_builtin⟩

/-- A factory that drops its target is registered like any other, and what it builds is kept for the
field that asked for it. -/
example :
    let loose : Factory := fun _ value => ⟨⟨Path.root, "elsewhere"⟩, .text value.display⟩
    let tree : Fields := [("type", .string "Identifier"), ("name", .string "a")]
    let view := (View.create (Registry.empty.register "Identifier" "name" loose).1).moves
      [.toggle tree Path.root, .rows tree]
    (view.widget? ⟨Path.root, "name"⟩).map Widget.target = some ⟨Path.root, "elsewhere"⟩ := by
  decide +kernel

end View

end Arborist

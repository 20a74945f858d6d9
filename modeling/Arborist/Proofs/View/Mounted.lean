import Mathlib
import Arborist.Proofs.View.Spots

/-!
Widgets of the rows that show. A field shows the widget that is mounted for it or else the one that the
registry makes for it, which is mounted by that; a widget that is mounted stays. Where each target
stands for one slot of the tree, what a field shows does not depend on the rows before it.
-/

namespace Arborist

namespace View

section Lookup

variable {view : View} {target other : Target} {w : Widget}

theorem mem_of_widget? (found : view.widget? target = some w) : (target, w) ∈ view.widgets := by
  obtain ⟨front, behind, whole, -⟩ := List.lookup_eq_some_iff.1 found
  simp [whole]

theorem widget?_of_mem (apart : (view.widgets.map Prod.fst).Nodup)
    (member : (target, w) ∈ view.widgets) : view.widget? target = some w := by
  cases found : view.widget? target with
  | none => simpa using List.lookup_eq_none_iff.1 found _ member
  | some other =>
    have same := List.inj_on_of_nodup_map apart (mem_of_widget? found) member rfl
    rw [(Prod.mk.inj same).2]

theorem not_mem_of_widget? (free : view.widget? target = none) :
    target ∉ view.widgets.map Prod.fst := by
  intro member
  obtain ⟨entry, inside, rfl⟩ := List.mem_map.1 member
  simpa using List.lookup_eq_none_iff.1 free entry inside

theorem widget?_mount : (view.mount target w).widget? other =
    (view.widget? other).or (if other = target then some w else none) := by
  unfold widget? mount
  rw [List.lookup_append]
  by_cases same : other = target
  · rw [if_pos same, same, List.lookup_cons_self]
  · have miss : (other == target) = false := by simpa using same
    rw [if_neg same, List.lookup_cons, miss, List.lookup_nil]

theorem nodup_mount (apart : (view.widgets.map Prod.fst).Nodup) (free : view.widget? target = none)
    (w : Widget) : ((view.mount target w).widgets.map Prod.fst).Nodup := by
  rw [mount, List.map_append, List.map_singleton]
  refine List.nodup_append.2 ⟨apart, List.nodup_singleton _, fun old member last here => ?_⟩
  rw [List.mem_singleton.1 here]
  rintro rfl
  exact not_mem_of_widget? free member

theorem targets_setWidget (view : View) (target : Target) (w : Widget) :
    (view.setWidget target w).widgets.map Prod.fst = view.widgets.map Prod.fst := by
  rw [setWidget, List.map_map]
  refine List.map_congr_left fun entry _ => ?_
  rw [Function.comp_apply]
  split
  · rename_i same
    exact same.symm
  · rfl

end Lookup

/-- The widget that a field shows: the mounted one, or else the one that the registry makes. -/
def found? (view : View) (kind : String) (target : Target) (value : Value) : Option Widget :=
  (view.widget? target).or (view.registry.mount? kind target value)

def draw (view : View) : Spot → Row
  | .node depth path node => view.nodeRow depth path node
  | .label depth field => ⟨depth, .label field⟩
  | .item depth value => ⟨depth, .opaqueItem value.display⟩
  | .field depth kind target value =>
    match view.found? kind target value with
    | some w => ⟨depth, .field target w.display true⟩
    | none => ⟨depth, .field target value.display false⟩

section Rows

variable {view : View} {spots : List Spot} {depth : Nat} {kind : String} {target : Target}
  {value : Value} {w : Widget} {text : String}

theorem see_field (view : View) (depth : Nat) (kind : String) (target : Target) (value : Value) :
    (view.see (.field depth kind target value)).1 = view.draw (.field depth kind target value) ∧
      (view.see (.field depth kind target value)).2.widget? target =
        view.found? kind target value := by
  simp only [see, fieldRow, draw, found?]
  cases mounted : view.widget? target with
  | some w => exact ⟨rfl, mounted⟩
  | none =>
    cases view.registry.mount? kind target value with
    | none => exact ⟨rfl, mounted⟩
    | some w => exact ⟨rfl, by rw [widget?_mount, mounted, if_pos rfl]⟩

theorem see_fst (view : View) (spot : Spot) : (view.see spot).1 = view.draw spot := by
  cases spot with
  | field depth kind target value => exact (see_field view depth kind target value).1
  | _ => rfl

theorem exists_see_of_mem {row : Row} (member : row ∈ (view.visit spots).1) :
    ∃ before spot behind, spots = before ++ spot :: behind ∧
      (view.visit before).2.draw spot = row := by
  induction spots generalizing view with
  | nil => simp [visit] at member
  | cons first rest ih =>
    rcases List.mem_cons.1 member with rfl | later
    · exact ⟨[], first, rest, rfl, (see_fst view first).symm⟩
    · obtain ⟨before, spot, behind, rfl, drawn⟩ := ih later
      exact ⟨first :: before, spot, behind, rfl, drawn⟩

theorem widget?_visit_of_some (mounted : view.widget? target = some w) (spots : List Spot) :
    (view.visit spots).2.widget? target = some w := by
  refine visit_induct (motive := fun next => next.widget? target = some w) mounted ?_
  intro next depth kind other value new mounted member free made
  rw [widget?_mount, mounted, Option.some_or]

/-- By the end each field has the widget mounted that it showed in its turn. -/
theorem widget?_visit_between (before behind : List Spot)
    (shown : (view.visit before).2.found? kind target value = some w) :
    (view.visit (before ++ .field depth kind target value :: behind)).2.widget? target = some w := by
  rw [visit_append]
  exact widget?_visit_of_some ((see_field ..).2.trans shown) behind

theorem widget?_of_row {row : Row} (member : row ∈ (view.visit spots).1)
    (editable : row.kind = .field target text true) :
    ∃ w, (view.visit spots).2.widget? target = some w ∧ w.display = text := by
  obtain ⟨before, spot, behind, rfl, rfl⟩ := exists_see_of_mem member
  cases spot with
  | field depth kind other value =>
    cases shown : (view.visit before).2.found? kind other value with
    | none =>
      rw [draw, shown] at editable
      cases editable
    | some w =>
      rw [draw, shown] at editable
      cases editable
      exact ⟨w, widget?_visit_between before behind shown, rfl⟩
  | _ => cases editable

end Rows

section Again

variable {view : View} {root : Fields} {spots : List Spot} {depth : Nat} {kind : String}
  {target : Target} {value : Value}
  (slots : ∀ {depth kind target value}, .field depth kind target value ∈ spots →
    target.read? root = some (kind, value))

include slots

/-- What a slot shows is the same before and after the rows are made, for the tree has one value under
its target. -/
theorem found?_visit (slot : target.read? root = some (kind, value)) :
    (view.visit spots).2.found? kind target value = view.found? kind target value := by
  refine visit_induct
    (motive := fun next => next.found? kind target value = view.found? kind target value) rfl ?_
  intro next depth kind' other value' w same member free made
  rw [← same]
  unfold found?
  rw [widget?_mount]
  by_cases here : target = other
  · subst here
    obtain ⟨rfl, rfl⟩ : kind = kind' ∧ value = value' := by
      simpa [slot] using slots member
    rw [if_pos rfl, free, made]
    rfl
  · rw [if_neg here, Option.or_none]
    rfl

theorem visit_fst : (view.visit spots).1 = spots.map view.draw := by
  induction spots generalizing view with
  | nil => rfl
  | cons spot rest ih =>
    have later : ∀ other ∈ rest, (view.visit [spot]).2.draw other = view.draw other := by
      intro other member
      cases other with
      | field depth kind target value =>
        have same : (view.visit [spot]).2.found? kind target value = view.found? kind target value :=
          found?_visit (fun among => slots (List.mem_cons.2 (.inl (List.mem_singleton.1 among))))
            (slots (List.mem_cons_of_mem _ member))
        rw [draw, draw, same]
      | node depth path node => rw [draw, draw, nodeRow, nodeRow, isExpanded_visit]
      | label | item => rfl
    have tail : ((view.visit [spot]).2.visit rest).1 = rest.map (view.visit [spot]).2.draw :=
      ih fun member => slots (List.mem_cons_of_mem _ member)
    rw [List.map_cons, ← see_fst, ← List.map_congr_left later, ← tail]
    rfl

theorem widget?_visit (member : .field depth kind target value ∈ spots) :
    (view.visit spots).2.widget? target = view.found? kind target value := by
  have same : (view.visit spots).2.found? kind target value = view.found? kind target value :=
    found?_visit slots (slots member)
  cases shown : view.found? kind target value with
  | none =>
    rw [shown] at same
    exact (Option.or_eq_none_iff.1 same).1
  | some w =>
    obtain ⟨before, behind, rfl⟩ := List.append_of_mem member
    refine widget?_visit_between before behind ?_
    rw [found?_visit (fun among => slots (List.mem_append_left _ among)) (slots member), shown]

theorem visit_visit_snd : ((view.visit spots).2.visit spots).2 = (view.visit spots).2 := by
  refine visit_induct (motive := fun next => next = (view.visit spots).2) rfl ?_
  rintro _ depth kind target value w rfl member free made
  have shown : (view.visit spots).2.widget? target = view.found? kind target value :=
    widget?_visit slots member
  rw [free, ← found?_visit slots (slots member), found?, free, made] at shown
  cases shown

end Again

section Keyed

variable {view : View} {root : Fields}
  (nodup : ∀ {path : Path} {node : Fields}, path.resolve root = some node → node.keys.Nodup)

include nodup

theorem rows_fst : (view.rows root).1 = (Spot.all view.isExpanded root).map view.draw := by
  rw [rows_eq, visit_fst (Spot.read?_of_mem nodup)]

theorem widget?_rows {depth : Nat} {kind : String} {target : Target} {value : Value}
    (member : .field depth kind target value ∈ Spot.all view.isExpanded root) :
    (view.rows root).2.widget? target = view.found? kind target value := by
  rw [rows_eq, widget?_visit (Spot.read?_of_mem nodup) member]

theorem rows_rows : (view.rows root).2.rows root = view.rows root := by
  have slots : ∀ {depth kind target value},
      .field depth kind target value ∈ Spot.all view.isExpanded root →
        target.read? root = some (kind, value) := Spot.read?_of_mem nodup
  rw [rows_eq, rows_eq, isExpanded_visit]
  refine Prod.ext ?_ (visit_visit_snd slots)
  rw [visit_fst slots, visit_fst slots]
  refine List.map_congr_left fun spot member => ?_
  cases spot with
  | field depth kind target value => rw [draw, draw, found?_visit slots (slots member)]
  | node depth path node => rw [draw, draw, nodeRow, nodeRow, isExpanded_visit]
  | label | item => rfl

end Keyed

end View

end Arborist

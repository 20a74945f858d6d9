import Mathlib
import Arborist.Proofs.Session.FrontEnds
import Arborist.Proofs.View.Expansion

/-!
Browsing and editing. The rows, the selection, the mode and the field being edited are kept apart, and
the same key means something else in each mode; yet they fit together after every key. An edit leaves
every row that can be edited where it is, so the selection stays on the field that is being edited.
-/

namespace Arborist

open Script (parseProgram)
open Value (Refilled)

variable {width : Nat} {tree : Fields}

theorem Registry.isPrimitiveName_of_builtinInput? {kind field : String} {input : InputKind}
    (found : builtinInput? kind field = some input) : FieldView.isPrimitiveName field = true := by
  have primitive : ∀ row ∈ table, FieldView.isPrimitiveName row.2.1 = true := by decide
  exact primitive _ (mem_table_of_builtinInput? (undotted_of_builtinInput? found) found)

theorem Value.shallow_refilled : Allowance.Shallow Refilled := by
  constructor
  · exact registered_refilled.flat
  · intro kind field value other written
    obtain ⟨input, found, -⟩ := written.input
    exact Registry.isPrimitiveName_of_builtinInput? found

def Row.editable? (row : Row) : Option Target :=
  match row.kind with
  | .field target _ true => some target
  | _ => none

theorem Row.editable?_eq_some {row : Row} {target : Target} :
    row.editable? = some target ↔ ∃ text, row.kind = .field target text true := by
  unfold editable?
  split
  · rename_i other text kind
    simp [kind]
  · rename_i different
    simpa using different target

namespace Session

def registered? (slot : Option (String × Target)) : Option Target :=
  slot.bind fun (kind, target) =>
    (Registry.builtinInput? kind target.field).map fun _ => target

variable {s : Session} (sturdy : Sturdy tree)

theorem Sound.isSome_found? (sound : s.Sound width tree) {kind : String} {target : Target}
    {value : Value} (slot : target.read? s.root = some (kind, value)) :
    (s.view.found? kind target value).isSome =
      (Registry.builtinInput? kind target.field).isSome := by
  cases mounted : s.view.widget? target with
  | some w =>
    obtain ⟨rfl, kind', value', input, slot', registered, -⟩ := sound.coherent.of_widget? mounted
    rw [slot, Option.some.injEq, Prod.mk.injEq] at slot'
    obtain ⟨rfl, rfl⟩ := slot'
    rw [View.found?, mounted, registered]
    rfl
  | none =>
    rw [View.found?, mounted, Option.none_or, sound.settled.registry, Registry.mount?,
      Registry.resolve?_builtin, Option.isSome_map, Option.isSome_map]

include sturdy

theorem Sound.editable?_draw (sound : s.Sound width tree) {spot : Spot}
    (member : spot ∈ Spot.all s.view.isExpanded s.root) :
    (s.view.draw spot).editable? = registered? spot.slot? := by
  cases spot with
  | field depth kind target value =>
    have same := sound.isSome_found? (Spot.read?_of_mem (sound.nodup sturdy) member)
    rw [View.draw]
    simp only [registered?, Spot.slot?, Option.bind_some]
    cases found : s.view.found? kind target value with
    | some w =>
      rw [found, Option.isSome_some, eq_comm, Option.isSome_iff_exists] at same
      obtain ⟨input, registered⟩ := same
      rw [registered]
      rfl
    | none =>
      rw [found, Option.isSome_none, eq_comm, Option.isSome_eq_false_iff, Option.isNone_iff_eq_none]
        at same
      rw [same]
      rfl
  | _ => rfl

/-- Which rows can be edited depends on the opened tree and on what is expanded alone. -/
theorem Sound.editable_rows (sound : s.Sound width tree) : s.rows.1.map Row.editable? =
    ((Spot.all s.view.isExpanded tree).map Spot.slot?).map registered? := by
  rw [← Spot.slots_all Value.shallow_refilled sound.settled.refilled]
  change (s.view.rows s.root).1.map Row.editable? = _
  rw [View.rows_fst (sound.nodup sturdy), List.map_map, List.map_map]
  exact List.map_congr_left fun spot member => sound.editable?_draw sturdy member

theorem Sound.rows_rows (sound : s.Sound width tree) : s.rows.2.rows = s.rows := by
  have again : s.rows.2.view.rows s.root = s.view.rows s.root :=
    View.rows_rows (sound.nodup sturdy)
  calc s.rows.2.rows
      = ((s.rows.2.view.rows s.root).1, { s with view := (s.rows.2.view.rows s.root).2 }) := rfl
    _ = s.rows := by
      rw [again]
      rfl

end Session

namespace Browser

structure Steady (width : Nat) (tree : Fields) (b : Browser) : Prop where
  sound : b.session.Sound width tree
  shown : b.session.rows = (b.rows, b.session)
  inside : b.selected < b.rows.length
  modal : b.mode = .edit ↔ b.editing.isSome = true
  focused : ∀ target, b.editing = some target →
    (b.rows.map Row.editable?)[b.selected]? = some (some target)

variable {b : Browser}

theorem pump_of_sound (sound : b.session.Sound width tree) : b.pump = b := by
  unfold Browser.pump
  rw [sound.pump]

theorem steady_refresh (sturdy : Sturdy tree) (sound : b.session.Sound width tree)
    (modal : b.mode = .edit ↔ b.editing.isSome = true)
    (focused : ∀ target, b.editing = some target →
      (b.session.rows.1.map Row.editable?)[b.selected]? = some (some target)) :
    b.refresh.Steady width tree := by
  have some : 0 < b.session.rows.1.length := by
    simp [Session.rows, View.rows]
  constructor
  · exact sound_refresh sturdy sound
  · exact sound.rows_rows sturdy
  · simp only [refresh]
    split <;> omega
  · exact modal
  · intro target editing
    have here := focused target editing
    obtain ⟨within, -⟩ := List.getElem?_eq_some_iff.1 here
    rw [List.length_map] at within
    simp only [refresh]
    rw [if_neg (by omega)]
    exact here

section Steps

variable (sturdy : Sturdy tree)

include sturdy

theorem steady_idle (sound : b.session.Sound width tree) (calm : b.mode ≠ .edit)
    (idle : b.editing = none) : b.pump.refresh.Steady width tree := by
  rw [pump_of_sound sound]
  apply steady_refresh sturdy sound
  · simp [calm, idle]
  · simp [idle]

omit sturdy in
theorem activate_cases (b : Browser) :
    (b.activate.mode = b.mode ∧ b.activate.editing = b.editing) ∨
    ∃ target status, (b.rows.map Row.editable?)[b.selected]? = some (some target) ∧
      b.activate = { b with status := status, editing := some target, mode := .edit } := by
  unfold activate
  split
  · exact .inl ⟨rfl, rfl⟩
  · rename_i row here
    split
    · split <;> exact .inl ⟨rfl, rfl⟩
    · rename_i target text kind
      refine .inr ⟨target, _, ?_, rfl⟩
      rw [List.getElem?_map, show b.rows[b.selected]? = some row from here, Option.map_some,
        Row.editable?_eq_some.2 ⟨text, kind⟩]
    all_goals exact .inl ⟨rfl, rfl⟩

theorem steady_activate (steady : b.Steady width tree) (calm : b.mode ≠ .edit)
    (idle : b.editing = none) : b.activate.pump.refresh.Steady width tree := by
  have sound := sound_activate steady.sound
  rcases activate_cases b with ⟨mode, editing⟩ | ⟨target, status, here, started⟩
  · apply steady_idle sturdy sound
    · rw [mode]
      exact calm
    · rw [editing]
      exact idle
  · rw [pump_of_sound sound]
    apply steady_refresh sturdy sound
    · simp [started]
    · intro other editing
      simp only [started, Option.some.injEq] at editing
      simp only [started, steady.shown, ← editing]
      exact here

theorem steady_browseKey (steady : b.Steady width tree) (browsing : b.mode = .browse) (key : Key) :
    (b.browseKey key).pump.refresh.Steady width tree := by
  have calm : b.mode ≠ .edit := by simp [browsing]
  have idle : b.editing = none := by simpa [browsing] using steady.modal
  unfold browseKey
  split
  all_goals first
    | exact steady_activate sturdy steady calm idle
    | exact steady_idle sturdy steady.sound (by simp [browsing]) idle

theorem steady_helpKey (steady : b.Steady width tree) (helping : b.mode = .help) (key : Key) :
    (b.helpKey key).pump.refresh.Steady width tree := by
  have idle : b.editing = none := by simpa [helping] using steady.modal
  unfold helpKey
  split
  · exact steady_idle sturdy steady.sound (by simp) idle
  · exact steady_idle sturdy steady.sound (by simp [helping]) idle

omit sturdy in
theorem widgetKey_keeps (b : Browser) (target : Target) (w : Widget) (key : Key) :
    (b.widgetKey target w key).selected = b.selected ∧ (b.widgetKey target w key).mode = b.mode ∧
      (b.widgetKey target w key).editing = b.editing ∧
      (b.widgetKey target w key).session.view.expanded = b.session.view.expanded := by
  unfold widgetKey
  split
  · exact ⟨rfl, rfl, rfl, rfl⟩
  · split
    · exact ⟨rfl, rfl, rfl, rfl⟩
    · dsimp only
      split <;> exact ⟨rfl, rfl, rfl, rfl⟩

omit sturdy in
theorem Steady.widget? (steady : b.Steady width tree) {target : Target}
    (editing : b.editing = some target) : ∃ w, b.session.view.widget? target = some w := by
  have here := steady.focused target editing
  rw [List.getElem?_map, Option.map_eq_some_iff] at here
  obtain ⟨row, among, editable⟩ := here
  obtain ⟨text, kind⟩ := Row.editable?_eq_some.1 editable
  have member : row ∈ (b.session.view.rows b.session.root).1 := by
    rw [show (b.session.view.rows b.session.root).1 = b.rows from congrArg Prod.fst steady.shown]
    exact List.mem_of_getElem? among
  rw [View.rows_eq] at member
  obtain ⟨w, found, -⟩ := View.widget?_of_row member kind
  rw [← View.rows_eq] at found
  have same : (b.session.view.rows b.session.root).2 = b.session.view :=
    congrArg (fun result : List Row × Session => result.2.view) steady.shown
  exact ⟨w, same ▸ found⟩

theorem steady_widgetKey (steady : b.Steady width tree) {target : Target} {w : Widget}
    (found : b.session.view.widget? target = some w) (key : Key) :
    (b.widgetKey target w key).pump.refresh.Steady width tree := by
  obtain ⟨selected, mode, same, expanded⟩ := widgetKey_keeps b target w key
  obtain ⟨next, applied, pumped, sound⟩ := ready_widgetKey sturdy steady.sound found key
  have after : (b.widgetKey target w key).pump =
      { b.widgetKey target w key with session := next } := by
    rw [Browser.pump, pumped]
  have view : next.view = (b.widgetKey target w key).session.view :=
    congrArg (fun result : Session × Except EditError Nat => result.1.view) pumped.symm
  rw [after]
  apply steady_refresh sturdy sound
  · simp only [mode, same]
    exact steady.modal
  · intro other editing
    simp only [same] at editing
    -- The opened tree and what is expanded fix the rows that can be edited.
    have opened : next.view.isExpanded = b.session.view.isExpanded := by
      funext path
      rw [View.isExpanded, view, expanded, View.isExpanded]
    have rows : next.rows.1.map Row.editable? = b.session.rows.1.map Row.editable? := by
      rw [sound.editable_rows sturdy, steady.sound.editable_rows sturdy, opened]
    simp only [rows, selected, steady.shown]
    exact steady.focused other editing

theorem steady_editKey (steady : b.Steady width tree) (mode : b.mode = .edit) (key : Key) :
    (b.editKey key).pump.refresh.Steady width tree := by
  obtain ⟨target, editing⟩ := Option.isSome_iff_exists.1 (steady.modal.1 mode)
  obtain ⟨w, found⟩ := steady.widget? editing
  simp only [editKey, editing, found]
  split
  · exact steady_idle sturdy steady.sound (by simp [stopEditing]) rfl
  · exact steady_widgetKey sturdy steady found key

theorem steady_press (steady : b.Steady width tree) (key : Key) :
    (b.press key).Steady width tree := by
  unfold press
  cases mode : b.mode with
  | browse => exact steady_browseKey sturdy steady mode key
  | edit => exact steady_editKey sturdy steady mode key
  | help => exact steady_helpKey sturdy steady mode key

theorem steady_handle (steady : b.Steady width tree) (event : KeyEvent) :
    (b.handle event).Steady width tree := by
  unfold handle
  cases event.stroke with
  | pressed => exact steady_press sturdy steady event.key
  | held | released => exact steady

end Steps

theorem steady_along (sturdy : Sturdy tree) (steady : b.Steady width tree) (events : List KeyEvent) :
    (b.along events).Steady width tree := by
  induction events generalizing b with
  | nil => exact steady
  | cons event rest ih => exact ih (steady_handle sturdy steady event)

section Quit

theorem quit_pump (b : Browser) : b.pump.quit = b.quit := by
  unfold Browser.pump
  split <;> rfl

theorem quit_activate (b : Browser) : b.activate.quit = b.quit := by
  unfold activate
  split
  · rfl
  · split
    · split <;> rfl
    all_goals rfl

theorem quit_browseKey (b : Browser) (key : Key) :
    (b.browseKey key).quit = true ↔ b.quit = true ∨ key = .char 'q' := by
  unfold browseKey
  split
  all_goals simp_all [quit_activate]

theorem quit_editKey (b : Browser) (key : Key) : (b.editKey key).quit = b.quit := by
  have keeps (target : Target) (w : Widget) : (b.widgetKey target w key).quit = b.quit := by
    unfold widgetKey
    split
    · rfl
    · split
      · rfl
      · dsimp only
        split <;> rfl
  unfold editKey
  split
  · rfl
  · split
    · rfl
    · split
      · rfl
      · exact keeps _ _

theorem quit_helpKey (b : Browser) (key : Key) : (b.helpKey key).quit = b.quit := by
  unfold helpKey
  split <;> rfl

def close : KeyEvent := ⟨.char 'q', .pressed⟩

theorem quit_handle (b : Browser) (event : KeyEvent) :
    (b.handle event).quit = true ↔ b.quit = true ∨ (event = close ∧ b.mode = .browse) := by
  obtain ⟨key, stroke⟩ := event
  cases stroke with
  | pressed =>
    have same : (b.handle ⟨key, .pressed⟩).quit = (b.press key).quit := rfl
    have last (after : Browser) : after.pump.refresh.quit = after.quit := quit_pump after
    rw [same, press, last]
    cases mode : b.mode with
    | browse => simp [quit_browseKey, close]
    | edit => simp [quit_editKey]
    | help => simp [quit_helpKey]
  | held | released => simp [handle, close]

theorem quit_along (b : Browser) (events : List KeyEvent) :
    (b.along events).quit = true ↔ b.quit = true ∨
      ∃ before behind, events = before ++ close :: behind ∧ (b.along before).mode = .browse := by
  induction events generalizing b with
  | nil => simp [along]
  | cons event rest ih =>
    rw [show b.along (event :: rest) = (b.handle event).along rest from rfl, ih, quit_handle,
      or_assoc]
    refine or_congr_right ?_
    constructor
    · rintro (⟨rfl, browsing⟩ | ⟨before, behind, rfl, browsing⟩)
      · exact ⟨[], rest, rfl, browsing⟩
      · exact ⟨event :: before, behind, rfl, browsing⟩
    · rintro ⟨before, behind, split, browsing⟩
      cases before with
      | nil =>
        obtain ⟨rfl, rfl⟩ := List.cons.inj split
        exact .inl ⟨rfl, browsing⟩
      | cons first more =>
        obtain ⟨rfl, rfl⟩ := List.cons.inj split
        exact .inr ⟨more, behind, rfl, browsing⟩

end Quit

/-- The rows are those of the tree and one of them is selected; in editing mode, and in no other, a
field is edited, and then it has a widget, its row is the one that is selected, and every key but those
that end the editing goes to the widget. -/
structure Consistent (b : Browser) : Prop where
  filled : b.rows ≠ []
  shown : b.session.rows = (b.rows, b.session)
  inside : b.selected < b.rows.length
  modal : b.mode = .edit ↔ ∃ target, b.editing = some target
  focused : ∀ target, b.editing = some target → ∃ w row text,
    b.session.view.widget? target = some w ∧ b.selectedRow? = some row ∧
      row.kind = .field target text true ∧
      ∀ key, b.editKey key =
        if key = .esc ∨ key = .enter then b.stopEditing else b.widgetKey target w key

theorem Steady.consistent (steady : b.Steady width tree) : b.Consistent := by
  constructor
  · exact List.ne_nil_of_length_pos (by have := steady.inside; omega)
  · exact steady.shown
  · exact steady.inside
  · rw [steady.modal, Option.isSome_iff_exists]
  · intro target editing
    obtain ⟨w, found⟩ := steady.widget? editing
    have here := steady.focused target editing
    rw [List.getElem?_map, Option.map_eq_some_iff] at here
    obtain ⟨row, among, editable⟩ := here
    obtain ⟨text, kind⟩ := Row.editable?_eq_some.1 editable
    refine ⟨w, row, text, found, among, kind, fun key => ?_⟩
    simp only [editKey, editing, found]

end Browser

/-- An accepted text is opened in the browser, and after any key events all parts of the browser fit
together; and it is to be closed exactly if `q` was pressed while browsing. -/
theorem consistent_along_events {source : String} {tree : Fields}
    (parsed : parseProgram source = .ok tree) (width : Nat) :
    ∃ session, Session.openSource width source = .ok session ∧
      ∀ events, ((Browser.create session).along events).Consistent ∧
        (((Browser.create session).along events).quit = true ↔
          ∃ before behind, events = before ++ ⟨.char 'q', .pressed⟩ :: behind ∧
            ((Browser.create session).along before).mode = .browse) := by
  have sturdy := sturdy_of_parseProgram parsed
  obtain ⟨session, opened, sound⟩ := Session.sound_openSource parsed width
  refine ⟨session, opened, fun events => ⟨?_, ?_⟩⟩
  · have start : (Browser.create session).Steady width tree :=
      Browser.steady_refresh sturdy sound (by simp) (by simp)
    exact (Browser.steady_along sturdy start events).consistent
  · rw [Browser.quit_along]
    simp [Browser.create, Browser.refresh, Browser.close]

/-- The field is edited while its row is selected, and the key that was pressed changed it. -/
theorem consistent_along_events_declaration :
    let source := "var a = 1"
    let events : List KeyEvent :=
      [.enter, .down, .down, .enter, .down, .down, .down, .enter, .right].map fun key =>
        ⟨key, .pressed⟩
    ∃ tree session, parseProgram source = .ok tree ∧ Session.openSource 2 source = .ok session ∧
      ((Browser.create session).along events).mode = .edit ∧
      ((Browser.create session).along events).session.editor.code = "let a = 1;" ∧
      ((Browser.create session).along events).Consistent ∧
      (((Browser.create session).along events).quit = true ↔
        ∃ before behind, events = before ++ ⟨.char 'q', .pressed⟩ :: behind ∧
          ((Browser.create session).along before).mode = .browse) := by
  intro source events
  obtain ⟨tree, parsed⟩ : ∃ tree, parseProgram source = .ok tree :=
    exists_of_isOk (by decide +kernel)
  obtain ⟨session, opened, runs⟩ := consistent_along_events parsed 2
  have ends : (Session.openSource 2 source).toOption.map (fun s =>
      (((Browser.create s).along events).mode,
        ((Browser.create s).along events).session.editor.code)) = some (.edit, "let a = 1;") := by
    decide +kernel
  rw [opened] at ends
  obtain ⟨mode, code⟩ := Prod.mk.inj (Option.some.inj ends)
  exact ⟨tree, session, parsed, opened, mode, code, runs events⟩

end Arborist

import Mathlib
import Arborist.Proofs.Script.RoundTrip
import Arborist.Proofs.View.Expansion
import Arborist.Proofs.Widget.Response
import Arborist.Session

/-!
Sessions at rest. The queue is empty, the code is that of the tree, and the tree is the opened one
but for slots that were filled again by their inputs. The mounted widgets are never made anew from
the tree, and yet each of them shows what its slot holds. Making rows, toggling a node and sending
what a widget answers all lead from such a session to such a session.
-/

namespace Arborist

open Script (compile parseProgram)
open Value (Allowance EachField EachNode VariesFields)

namespace Value

/-- Values of one shape; a number is written only if it is finite. -/
inductive SameShape : Value → Value → Prop where
  | string (old new : String) : SameShape (.string old) (.string new)
  | number (old : Number) {new : Number} (finite : new.isFinite = true) :
      SameShape (.number old) (.number new)
  | bool (old new : Bool) : SameShape (.bool old) (.bool new)

/-- What an input writes into a built-in slot: a value that it takes, of the shape that was there. -/
structure Refilled (kind field : String) (value other : Value) : Prop where
  input : ∃ input, Registry.builtinInput? kind field = some input ∧ input.Takes other
  shape : value.SameShape other

theorem registered_refilled : Allowance.Registered Refilled := ⟨Refilled.input⟩

theorem SameShape.of_sendable {input : InputKind} {value other : Value} (holds : input.Holds value)
    (sendable : input.Sendable other) : value.SameShape other := by
  obtain ⟨takes, finite⟩ := sendable
  cases input with
  | choice options =>
    obtain ⟨old, rfl⟩ := holds
    obtain ⟨new, -, rfl⟩ := takes
    exact .string old new
  | text =>
    obtain ⟨old, rfl⟩ := holds
    obtain ⟨new, rfl⟩ := takes
    exact .string old new
  | number =>
    obtain ⟨old, rfl⟩ := holds
    obtain ⟨new, rfl⟩ := takes
    exact .number old (finite new rfl)
  | toggle =>
    obtain ⟨old, rfl⟩ := holds
    obtain ⟨new, rfl⟩ := takes
    exact .bool old new

theorem flat_of_holds {input : InputKind} {value : Value} (holds : input.Holds value) :
    value.Flat := by
  cases input <;> obtain ⟨_, rfl⟩ := holds <;> exact ⟨rfl, rfl⟩

end Value

open Value (Refilled)

/-- A tree that stays one that compiles, whatever inputs write into its slots. -/
structure Sturdy (tree : Fields) : Prop where
  isNode : tree.isNode = true
  complete : (Value.object tree).EachNode Fields.Complete
  compiles : ∀ {root : Fields}, VariesFields Refilled tree.kind tree root → ∀ width,
    ∃ code, compile width root = .ok code

theorem sturdy_of_parseProgram {text : String} {tree : Fields}
    (parsed : parseProgram text = .ok tree) : Sturdy tree := by
  obtain ⟨inner, last, body, accepted, rfl⟩ := Script.exists_of_parseProgram parsed
  refine ⟨rfl, Script.complete_program .., fun {root} varies width => ?_⟩
  have stable : ∀ s ∈ body, s.Stable fun _ _ => True :=
    accepted.forms.stable fun t member => ⟨accepted.spelled t member, fun _ _ _ => trivial⟩
  obtain ⟨trees, decoded, -⟩ := Script.decode_program Value.registered_refilled
    (fun s member => (stable s member).printable) ⟨root, rfl, varies⟩
  exact ⟨_, Script.compile_of_decode decoded width⟩

section Complete

variable {tree root : Fields}

theorem Sturdy.complete_of_varies (sturdy : Sturdy tree)
    (varies : VariesFields Refilled tree.kind tree root) {path : Path} {node : Fields}
    (there : path.resolve root = some node) : node.Complete := by
  have whole := Script.complete_of_varies Value.registered_refilled sturdy.complete varies
  have isNode := (VariesFields.kind_eq Value.registered_refilled.flat varies).2
  exact Value.EachField.resolve (whole.1 (isNode.trans sturdy.isNode)) whole.2 there

theorem Sturdy.holds_of_read (sturdy : Sturdy tree)
    (varies : VariesFields Refilled tree.kind tree root) {target : Target} {kind : String}
    {value : Value} (slot : target.read? root = some (kind, value)) {input : InputKind}
    (registered : Registry.builtinInput? kind target.field = some input) : input.Holds value := by
  obtain ⟨node, there, rfl, held⟩ := Target.read?_eq_some.1 slot
  obtain ⟨found, heldAgain, holds⟩ :=
    (sturdy.complete_of_varies varies there).registered _ _ registered
  rw [held, Option.some.injEq] at heldAgain
  exact heldAgain ▸ holds

end Complete

/-- The widget has the input that is registered for a slot of the tree, and shows what is there. -/
def Widget.Mirrors (root : Fields) (w : Widget) : Prop :=
  ∃ kind value input, w.target.read? root = some (kind, value) ∧
    Registry.builtinInput? kind w.target.field = some input ∧ input.Makes w.input ∧
    w.input.Shows value

theorem Registry.ne_type_of_builtinInput? {kind field : String} {input : InputKind}
    (registered : builtinInput? kind field = some input) : field ≠ "type" := by
  intro type
  rw [type, Value.builtinInput?_type] at registered
  cases registered

section Write

variable {tree root changed : Fields} (sturdy : Sturdy tree)
  (varies : VariesFields Refilled tree.kind tree root) {target : Target} {kind : String}
  {value sent : Value} {input : InputKind} (slot : target.read? root = some (kind, value))
  (registered : Registry.builtinInput? kind target.field = some input)
  (written : target.write? sent root = some changed)

include slot registered written

theorem Widget.mirrors_written {next : Input} (made : input.Makes next) (shows : next.Shows sent) :
    (⟨target, next⟩ : Widget).Mirrors changed :=
  ⟨kind, sent, input,
    Target.read?_write_self (Registry.ne_type_of_builtinInput? registered) slot written, registered,
    made, shows⟩

include sturdy varies

theorem Sturdy.refilled_write (sendable : input.Sendable sent) :
    VariesFields Refilled tree.kind tree changed := by
  obtain ⟨node, there, rfl, -⟩ := Target.read?_eq_some.1 slot
  exact Script.variesFields_write Value.registered_refilled.flat sturdy.complete sturdy.isNode varies
    there registered
    (fun holds => ⟨⟨input, registered, sendable.takes⟩, .of_sendable holds sendable⟩) written

theorem Sturdy.mirrors_elsewhere {other : Widget} (apart : other.target ≠ target)
    (mirrors : other.Mirrors root) : other.Mirrors changed := by
  obtain ⟨otherKind, held, otherInput, otherSlot, otherRegistered, made, shows⟩ := mirrors
  have own := Registry.ne_type_of_builtinInput? registered
  have flat := Value.flat_of_holds (sturdy.holds_of_read varies slot registered)
  have otherFlat := Value.flat_of_holds (sturdy.holds_of_read varies otherSlot otherRegistered)
  exact ⟨otherKind, held, otherInput,
    Target.read?_write_of_ne apart own slot flat otherSlot otherFlat written, otherRegistered, made,
    shows⟩

end Write

/-- Each widget is kept once, under its own target, and mirrors the tree. -/
structure View.Coherent (root : Fields) (view : View) : Prop where
  apart : (view.widgets.map Prod.fst).Nodup
  bound : ∀ entry ∈ view.widgets, entry.2.target = entry.1
  mirrors : ∀ entry ∈ view.widgets, entry.2.Mirrors root

/-- The view will be right for any tree that the widget mirrors, if the widgets of other targets go on
mirroring it. -/
def View.Follows (root : Fields) (view : View) (w : Widget) : Prop :=
  ∀ changed : Fields, w.Mirrors changed →
    (∀ other : Widget, other.target ≠ w.target → other.Mirrors root → other.Mirrors changed) →
    view.Coherent changed

namespace View

variable {root : Fields} {view : View} {target : Target} {w : Widget}

theorem coherent_create (registry : Registry) : (View.create registry).Coherent root :=
  ⟨List.nodup_nil, fun _ member => absurd member List.not_mem_nil,
    fun _ member => absurd member List.not_mem_nil⟩

theorem Coherent.of_widget? (coherent : view.Coherent root) (found : view.widget? target = some w) :
    w.target = target ∧ w.Mirrors root :=
  ⟨coherent.bound _ (mem_of_widget? found), coherent.mirrors _ (mem_of_widget? found)⟩

theorem Coherent.mount (coherent : view.Coherent root) (free : view.widget? target = none)
    (bound : w.target = target) (mirrors : w.Mirrors root) :
    (view.mount target w).Coherent root := by
  refine ⟨nodup_mount coherent.apart free w, fun entry member => ?_, fun entry member => ?_⟩
  · rcases List.mem_append.1 member with old | new
    · exact coherent.bound entry old
    · exact List.mem_singleton.1 new ▸ bound
  · rcases List.mem_append.1 member with old | new
    · exact coherent.mirrors entry old
    · exact List.mem_singleton.1 new ▸ mirrors

theorem Coherent.toggle (coherent : view.Coherent root) (path : Path) :
    (view.toggle root path).1.Coherent root ∧
      (view.toggle root path).1.registry = view.registry := by
  rcases toggle_cases view root path with ⟨e, done⟩ | done | done | ⟨-, done⟩ <;> rw [done]
  · exact ⟨coherent, rfl⟩
  · exact ⟨coherent, rfl⟩
  · refine ⟨⟨coherent.apart.sublist (List.filter_sublist.map _), fun entry member => ?_,
      fun entry member => ?_⟩, rfl⟩
    · exact coherent.bound entry (List.mem_filter.1 member).1
    · exact coherent.mirrors entry (List.mem_filter.1 member).1
  · exact ⟨⟨coherent.apart, coherent.bound, coherent.mirrors⟩, rfl⟩

theorem Coherent.follows_setWidget (coherent : view.Coherent root) (w : Widget) :
    (view.setWidget w.target w).Follows root w := by
  intro changed mirrors others
  refine ⟨targets_setWidget view w.target w ▸ coherent.apart, fun entry member => ?_,
    fun entry member => ?_⟩
  · obtain ⟨old, inside, rfl⟩ := List.mem_map.1 member
    split
    · rfl
    · exact coherent.bound old inside
  · obtain ⟨old, inside, rfl⟩ := List.mem_map.1 member
    split
    · exact mirrors
    · rename_i different
      exact others old.2 (coherent.bound old inside ▸ different) (coherent.mirrors old inside)

theorem Coherent.follows_of_free (coherent : view.Coherent root)
    (free : view.widget? w.target = none) : view.Follows root w := by
  intro changed mirrors others
  refine ⟨coherent.apart, coherent.bound, fun entry inside => others entry.2 ?_ ?_⟩
  · intro same
    rw [coherent.bound entry inside] at same
    exact not_mem_of_widget? free (same ▸ List.mem_map_of_mem inside)
  · exact coherent.mirrors entry inside

end View

namespace Session

/-- Nothing waits, the code is that of the tree, and the tree is the opened one but for slots that
their inputs filled again. -/
structure Settled (width : Nat) (tree : Fields) (s : Session) : Prop where
  indent : s.width = width
  registry : s.view.registry = Registry.builtin
  refilled : VariesFields Refilled tree.kind tree s.root
  compiled : compile width s.root = .ok s.editor.code
  flawless : s.editor.lastError = none
  drained : s.editor.pending = []

structure Sound (width : Nat) (tree : Fields) (s : Session) : Prop where
  settled : s.Settled width tree
  coherent : s.view.Coherent s.root

variable {width : Nat} {tree : Fields} {s : Session}

theorem sound_openSource {source : String} (parsed : parseProgram source = .ok tree) (width : Nat) :
    ∃ s, openSource width source = .ok s ∧ s.Sound width tree := by
  obtain ⟨code, compiled⟩ :=
    (sturdy_of_parseProgram parsed).compiles (Value.variesFields_refl tree) width
  refine ⟨⟨width, ⟨tree, code, none, [], 1⟩, View.create Registry.builtin⟩, ?_, ?_⟩
  · simp [openSource, parsed, Editor.create, compiled, Except.map]
  · exact ⟨⟨rfl, rfl, Value.variesFields_refl tree, compiled, rfl, rfl⟩, View.coherent_create _⟩

theorem Sound.withView (sound : s.Sound width tree) {view : View}
    (registry : view.registry = s.view.registry) (coherent : view.Coherent s.root) :
    Sound width tree { s with view := view } :=
  ⟨{ sound.settled with registry := registry.trans sound.settled.registry }, coherent⟩

section Steps

variable (sturdy : Sturdy tree)

include sturdy

theorem Sound.mirrors_of_mount (sound : s.Sound width tree) {kind : String} {target : Target}
    {value : Value} {w : Widget} (slot : target.read? s.root = some (kind, value))
    (mounted : s.view.registry.mount? kind target value = some w) :
    w.target = target ∧ w.Mirrors s.root := by
  rw [sound.settled.registry, Registry.mount?, Registry.resolve?_builtin, Option.map_map] at mounted
  obtain ⟨input, registered, rfl⟩ := Option.map_eq_some_iff.1 mounted
  have holds := sturdy.holds_of_read sound.settled.refilled slot registered
  exact ⟨rfl, kind, value, input, slot, registered, input.makes_seed value,
    InputKind.shows_seed holds⟩

theorem Sound.nodup (sound : s.Sound width tree) {path : Path} {node : Fields}
    (there : path.resolve s.root = some node) : node.keys.Nodup :=
  (sturdy.complete_of_varies sound.settled.refilled there).nodup

theorem Sound.rows (sound : s.Sound width tree) : s.rows.2.Sound width tree := by
  suffices kept : s.rows.2.view.Coherent s.root ∧ s.rows.2.view.registry = s.view.registry from
    sound.withView kept.2 kept.1
  simp only [Session.rows, View.rows_eq]
  refine View.visit_induct
    (motive := fun next => next.Coherent s.root ∧ next.registry = s.view.registry)
    ⟨sound.coherent, rfl⟩ ?_
  rintro next depth kind target value w ⟨holds, same⟩ member free made
  have slot := Spot.read?_of_mem (sound.nodup sturdy) member
  obtain ⟨bound, mirrors⟩ := sound.mirrors_of_mount sturdy slot (same ▸ made)
  exact ⟨holds.mount free bound mirrors, same⟩

omit sturdy in
theorem Sound.toggle (sound : s.Sound width tree) (path : Path) :
    (s.toggle path).1.Sound width tree := by
  obtain ⟨coherent, registry⟩ := sound.coherent.toggle path
  exact sound.withView registry coherent

def Ready (width : Nat) (tree : Fields) (s : Session) : Prop :=
  ∃ next applied, s.pump = (next, .ok applied) ∧ next.Sound width tree

omit sturdy in
theorem Sound.pump (sound : s.Sound width tree) : s.pump = (s, .ok 0) := by
  have empty := sound.settled.drained
  obtain ⟨width, ⟨root, code, error, pending, runs⟩, view⟩ := s
  simp only at empty
  subst empty
  rfl

omit sturdy in
theorem Sound.ready (sound : s.Sound width tree) : s.Ready width tree :=
  ⟨s, 0, sound.pump, sound⟩

section Send

variable {target : Target} {kind : String} {value : Value} {input : InputKind}
  (slot : target.read? s.root = some (kind, value))
  (registered : Registry.builtinInput? kind target.field = some input) {view : View}

include slot registered

theorem Sound.ready_send (sound : s.Sound width tree) {sent : Value}
    (sendable : input.Sendable sent) {next : Input} (made : input.Makes next)
    (shows : next.Shows sent) (registry : view.registry = s.view.registry)
    (follows : view.Follows s.root ⟨target, next⟩) :
    (({ s with view := view } : Session).send [⟨target, sent⟩]).Ready width tree := by
  have settled := sound.settled
  obtain ⟨node, there, -⟩ := Target.read?_eq_some.1 slot
  obtain ⟨changed, written⟩ :=
    Path.exists_modify? (fun node => node.insert target.field sent) there
  rw [← Target.write?_eq] at written
  have refilled := sturdy.refilled_write settled.refilled slot registered written sendable
  obtain ⟨code, compiled⟩ := sturdy.compiles refilled width
  have mirrors := Widget.mirrors_written slot registered written made shows
  have others {other : Widget} (apart : other.target ≠ target) (mirrors : other.Mirrors s.root) :
      other.Mirrors changed :=
    sturdy.mirrors_elsewhere settled.refilled slot registered written apart mirrors
  have pumped : (({ s with view := view } : Session).send [⟨target, sent⟩]).pump =
      ({ s with
          view := view
          editor := ⟨changed, code, none, [], s.editor.recompiles + 1⟩ }, .ok 1) := by
    have inside : target.write? sent s.editor.root = some changed := written
    simp [Session.send, Session.pump, Editor.pump, Editor.send, settled.drained, Editor.pumpEdits,
      Editor.apply, Editor.write, inside, Editor.recompile, settled.indent, compiled]
  exact ⟨_, 1, pumped, ⟨settled.indent, registry.trans settled.registry, refilled, compiled, rfl,
    rfl⟩, follows changed mirrors fun _ => others⟩

/-- After an action of a widget that mirrors the tree, the pump succeeds; and where the widget sends
nothing, the session is at rest even before. -/
theorem Sound.answered (sound : s.Sound width tree) {r : Response} (faithful : r.Faithful input value)
    (follows : view.Follows s.root ⟨target, r.input⟩) (registry : view.registry = s.view.registry) :
    let after := ({ s with view := view } : Session).send (r.sent.map fun v => ⟨target, v⟩)
    after.Ready width tree ∧ (r.sent = [] → after.Sound width tree) := by
  rcases faithful.shows with ⟨silent, shows⟩ | ⟨v, sent, sendable, shows⟩
  · have mirrors : (⟨target, r.input⟩ : Widget).Mirrors s.root :=
      ⟨kind, value, input, slot, registered, faithful.made, shows⟩
    have still := sound.withView registry (follows s.root mirrors fun _ _ same => same)
    rw [silent]
    exact ⟨still.ready, fun _ => still⟩
  · rw [sent]
    refine ⟨?_, by simp⟩
    exact sound.ready_send sturdy slot registered sendable faithful.made shows registry follows

end Send

end Steps

end Session

end Arborist

import Mathlib
import Arborist.Browser.Basic
import Arborist.Proofs.Session.Settled
import Arborist.Proofs.Widget.Sent
import Arborist.Shell.Basic

/-!
Runs of the two front ends. A shell takes lines and scripts, a browser takes key events; whatever they
are given, the session is at rest after each step. So no run breaks compilation, and no run makes a
widget show something else than what its slot holds.
-/

namespace Arborist

open Script (compile parseProgram)

variable {width : Nat} {tree : Fields}

def Event.Fresh : Event → Prop
  | .code _ stale _ _ => stale = none
  | _ => True

/-- After the command the session is at rest, and no edit failed on the way. -/
structure Reply.Sound (width : Nat) (tree : Fields) (r : Reply) : Prop where
  session : r.shell.session.Sound width tree
  fresh : ∀ event ∈ r.events, event.Fresh
  passed : ∀ error, r.answer ≠ .error (.edit error)

namespace Shell

/-- What a shell is given: a line, or a script of lines. -/
inductive Entry where
  | line (text : String)
  | script (text : String)
  deriving DecidableEq, Repr

def take (shell : Shell) : Entry → Shell × List Event
  | .line text => ((shell.executeLine text).shell, (shell.executeLine text).events)
  | .script text => ((shell.runScript text).shell, (shell.runScript text).events)

def after (shell : Shell) (entries : List Entry) : Shell :=
  entries.foldl (fun shell entry => (shell.take entry).1) shell

variable {shell : Shell}

theorem sound_reply (sound : shell.session.Sound width tree) (text : String) :
    (shell.reply text).Sound width tree :=
  ⟨sound, fun _ member => absurd member List.not_mem_nil, by simp [reply]⟩

theorem sound_refuse (sound : shell.session.Sound width tree) {error : ShellError}
    (other : ∀ fault, error ≠ .edit fault) : (shell.refuse error).Sound width tree := by
  refine ⟨sound, fun _ member => absurd member List.not_mem_nil, fun fault same => ?_⟩
  exact other fault (Except.error.inj same)

theorem sound_applyEdits (ready : shell.session.Ready width tree) (message : String) :
    (shell.applyEdits message).Sound width tree := by
  obtain ⟨next, applied, pumped, sound⟩ := ready
  have same : shell.applyEdits message =
      ⟨{ shell with session := next }, .ok message,
        [.code next.editor.code none applied shell.debug]⟩ := by
    simp [applyEdits, pumped, sound.settled.flawless]
  rw [same]
  refine ⟨sound, fun event member => ?_, by simp⟩
  rw [List.mem_singleton.1 member]
  rfl

theorem sound_onNode (sound : shell.session.Sound width tree) (path : Path)
    (render : Fields → String) : (shell.onNode path render).Sound width tree := by
  unfold onNode
  split
  · exact sound_refuse sound (by simp)
  · exact sound_reply sound _

section Steps

variable (sturdy : Sturdy tree)

include sturdy

theorem sound_toggle (sound : shell.session.Sound width tree) (path : Path) :
    (shell.toggle path).Sound width tree := by
  have after := sound.toggle path
  unfold toggle
  split
  · rename_i session e done
    rw [done] at after
    exact sound_refuse after (by simp)
  · rename_i session outcome done
    rw [done] at after
    cases outcome with
    | disallowed => exact sound_reply after _
    | expanded => exact sound_reply (after.rows sturdy) _
    | collapsed => exact sound_reply (after.rows sturdy) _

omit sturdy in
/-- A text that is refused has sent nothing, so the session is at rest; any other can be applied. -/
theorem sound_entered {input : Input} {text : String} {target : Target}
    (ready : shell.session.Ready width tree)
    (rest : (input.enter text).sent = [] → shell.session.Sound width tree) :
    (shell.entered target text (input.enter text).outcome).Sound width tree := by
  unfold entered
  split
  · rename_i error refused
    have silent := (Input.announces_enter input text).quiet (by simp [refused])
    exact sound_refuse (rest silent) (by simp)
  · exact sound_applyEdits ready _

theorem sound_enter_mounted (sound : shell.session.Sound width tree) {target : Target} {w : Widget}
    (found : shell.session.view.widget? target = some w) (text : String) :
    let (next, sent, outcome) := w.enter text
    ({ shell with session := shell.session.settle target next sent }.entered target text
      outcome).Sound width tree := by
  obtain ⟨rfl, kind, value, input, slot, registered, made, shows⟩ :=
    sound.coherent.of_widget? found
  have faithful := Input.faithful_enter made shows text
  have follows := sound.coherent.follows_setWidget ⟨w.target, (w.input.enter text).input⟩
  obtain ⟨ready, rest⟩ := sound.answered sturdy slot registered faithful follows rfl
  exact sound_entered ready rest

theorem sound_set (sound : shell.session.Sound width tree) (path : Path) (field text : String) :
    (shell.set path field text).Sound width tree := by
  unfold set
  split
  · exact sound_refuse sound (by simp)
  · rename_i node there
    split
    · exact sound_refuse sound (by simp)
    · rename_i current held
      dsimp only
      split
      · rename_i w found
        exact sound_enter_mounted sturdy sound found text
      · rename_i free
        split
        · rename_i w mounted
          have slot : Target.read? ⟨path, field⟩ shell.session.root = some (node.kind, current) :=
            Target.read?_eq_some.2 ⟨node, there, rfl, held⟩
          obtain ⟨bound, kind, value, input, slot, registered, made, shows⟩ :=
            sound.mirrors_of_mount sturdy slot mounted
          have faithful := Input.faithful_enter made shows text
          have follows : shell.session.view.Follows shell.session.root
              ⟨w.target, (w.input.enter text).input⟩ :=
            sound.coherent.follows_of_free (by rw [bound, free])
          obtain ⟨ready, rest⟩ := sound.answered sturdy slot registered faithful follows rfl
          exact sound_entered ready rest
        · exact sound_refuse sound (by simp)

theorem sound_run (sound : shell.session.Sound width tree) (command : Command) :
    (shell.run command).Sound width tree := by
  cases command with
  | help | code => exact sound_reply sound _
  | quit =>
    have same : ({ shell with running := false } : Shell).session.Sound width tree := sound
    exact sound_reply same _
  | debug =>
    have same : ({ shell with debug := !shell.debug } : Shell).session.Sound width tree := sound
    exact sound_reply same _
  | tree => exact sound_reply (sound.rows sturdy) _
  | toggle path => exact sound_toggle sturdy sound path
  | fields path | json path => exact sound_onNode sound path _
  | set path field text => exact sound_set sturdy sound path field text

theorem sound_executeLine (sound : shell.session.Sound width tree) (line : String) :
    (shell.executeLine line).Sound width tree := by
  unfold executeLine
  split
  · exact sound_refuse sound (by simp)
  · exact sound_run sturdy sound _

theorem sound_runLines (lines : List String) {done : ScriptRun}
    (sound : done.shell.session.Sound width tree) (fresh : ∀ event ∈ done.events, event.Fresh) :
    (runLines lines done).shell.session.Sound width tree ∧
      ∀ event ∈ (runLines lines done).events, event.Fresh := by
  induction lines generalizing done with
  | nil => exact ⟨sound, fresh⟩
  | cons line rest ih =>
    rw [runLines]
    split
    · have step := sound_executeLine sturdy sound line
      refine ih step.session fun event member => ?_
      rcases List.mem_append.1 member with before | echoed
      · exact fresh event before
      · -- A line is echoed between two events that report no code.
        rcases List.mem_append.1 echoed with inside | last
        · rcases List.mem_cons.1 inside with rfl | reported
          · trivial
          · exact step.fresh event reported
        · rw [List.mem_singleton.1 last]
          split <;> trivial
    · exact ⟨sound, fresh⟩

theorem sound_take (sound : shell.session.Sound width tree) (entry : Entry) :
    (shell.take entry).1.session.Sound width tree ∧ ∀ event ∈ (shell.take entry).2, event.Fresh := by
  cases entry with
  | line text =>
    have step := sound_executeLine sturdy sound text
    exact ⟨step.session, step.fresh⟩
  | script text =>
    exact sound_runLines sturdy (scriptLines text) sound fun _ member =>
      absurd member List.not_mem_nil

theorem sound_after (sound : shell.session.Sound width tree) (entries : List Entry) :
    (shell.after entries).session.Sound width tree := by
  induction entries generalizing shell with
  | nil => exact sound
  | cons entry rest ih => exact ih (sound_take sturdy sound entry).1

end Steps

theorem sound_of_parseProgram {source : String} {tree : Fields}
    (parsed : parseProgram source = .ok tree) (width : Nat) :
    ∃ session, Session.openSource width source = .ok session ∧
      ∀ debug entries, ((create session debug).after entries).session.Sound width tree := by
  have sturdy := sturdy_of_parseProgram parsed
  obtain ⟨session, opened, sound⟩ := Session.sound_openSource parsed width
  refine ⟨session, opened, fun debug entries => ?_⟩
  have start : (create session debug).session.Sound width tree := sound
  exact sound_after sturdy start entries

end Shell

namespace Browser

def along (b : Browser) (events : List KeyEvent) : Browser := events.foldl handle b

variable {b : Browser}

section Steps

variable (sturdy : Sturdy tree)

include sturdy

theorem sound_refresh (sound : b.session.Sound width tree) :
    b.refresh.session.Sound width tree := sound.rows sturdy

omit sturdy in
theorem sound_activate (sound : b.session.Sound width tree) :
    b.activate.session.Sound width tree := by
  unfold activate
  split
  · exact sound
  · split
    · rename_i path kind _ _ _
      have after := sound.toggle path
      split <;> rename_i done <;> rw [done] at after <;> exact after
    all_goals exact sound

omit sturdy in
theorem sound_browseKey (sound : b.session.Sound width tree) (key : Key) :
    (b.browseKey key).session.Sound width tree := by
  unfold browseKey
  split
  all_goals first
    | exact sound_activate sound
    | exact sound

omit sturdy in
theorem sound_helpKey (sound : b.session.Sound width tree) (key : Key) :
    (b.helpKey key).session.Sound width tree := by
  unfold helpKey
  split <;> exact sound

theorem ready_widgetKey (sound : b.session.Sound width tree) {target : Target} {w : Widget}
    (found : b.session.view.widget? target = some w) (key : Key) :
    (b.widgetKey target w key).session.Ready width tree := by
  obtain ⟨rfl, kind, value, input, slot, registered, made, shows⟩ :=
    sound.coherent.of_widget? found
  unfold widgetKey
  split
  · exact sound.ready
  · split
    · exact sound.ready
    · rename_i action _ next sent outcome acted
      obtain ⟨r, answers, responds⟩ := Option.map_eq_some_iff.1 acted
      simp only [Widget.respond, Prod.mk.injEq] at responds
      obtain ⟨rfl, rfl, -⟩ := responds
      have faithful := Input.faithful_act? made shows answers
      have follows := sound.coherent.follows_setWidget ⟨w.target, r.input⟩
      have ready := (sound.answered sturdy slot registered faithful follows rfl).1
      dsimp only
      split <;> exact ready

theorem ready_editKey (sound : b.session.Sound width tree) (key : Key) :
    (b.editKey key).session.Ready width tree := by
  unfold editKey
  split
  · exact sound.ready
  · split
    · exact sound.ready
    · split
      · exact sound.ready
      · rename_i w found
        exact ready_widgetKey sturdy sound found key

omit sturdy in
theorem sound_pump (ready : b.session.Ready width tree) : b.pump.session.Sound width tree := by
  obtain ⟨next, applied, pumped, sound⟩ := ready
  unfold Browser.pump
  rw [pumped]
  exact sound

theorem sound_press (sound : b.session.Sound width tree) (key : Key) :
    (b.press key).session.Sound width tree := by
  unfold press
  refine sound_refresh sturdy (sound_pump ?_)
  split
  · exact (sound_helpKey sound key).ready
  · exact (sound_browseKey sound key).ready
  · exact ready_editKey sturdy sound key

theorem sound_handle (sound : b.session.Sound width tree) (event : KeyEvent) :
    (b.handle event).session.Sound width tree := by
  unfold handle
  cases event.stroke with
  | pressed => exact sound_press sturdy sound event.key
  | held | released => exact sound

theorem sound_along (sound : b.session.Sound width tree) (events : List KeyEvent) :
    (b.along events).session.Sound width tree := by
  induction events generalizing b with
  | nil => exact sound
  | cons event rest ih => exact ih (sound_handle sturdy sound event)

end Steps

end Browser

/-- Every mounted widget is found by its target, and under a target stands a widget of that target,
with the input that is registered for the field of the node there, that shows what the field holds. -/
structure Session.Mirrored (s : Session) : Prop where
  found : ∀ entry ∈ s.view.widgets, s.view.widget? entry.1 = some entry.2
  shows : ∀ target w, s.view.widget? target = some w → w.target = target ∧
    ∃ (node : Fields) (value : Value) (input : InputKind), target.path.resolve s.root = some node ∧
      s.view.registry.resolve? node.kind target.field = some input.build ∧
      node.get? target.field = some value ∧ input.Makes w.input ∧ w.input.Shows value

theorem Session.Sound.mirrored {s : Session} (sound : s.Sound width tree) : s.Mirrored := by
  refine ⟨fun entry member => View.widget?_of_mem sound.coherent.apart member,
    fun target w found => ?_⟩
  obtain ⟨rfl, kind, value, input, slot, registered, made, shows⟩ :=
    sound.coherent.of_widget? found
  obtain ⟨node, there, rfl, held⟩ := Target.read?_eq_some.1 slot
  refine ⟨rfl, node, value, input, there, ?_, held, made, shows⟩
  rw [sound.settled.registry, Registry.resolve?_builtin, registered, Option.map_some]

/-- No run of a front end breaks compilation. An accepted text is opened, and after any lines and
scripts and after any key events the session is settled; no line answers with a failed edit, and no
code is reported as stale. -/
theorem settled_along_runs {source : String} {tree : Fields} (parsed : parseProgram source = .ok tree)
    (width : Nat) :
    ∃ session, Session.openSource width source = .ok session ∧
      (∀ debug entries,
        ((Shell.create session debug).after entries).session.Settled width tree ∧
        (∀ line error, (((Shell.create session debug).after entries).executeLine line).answer ≠
          .error (.edit error)) ∧
        ∀ entry, ∀ event ∈ (((Shell.create session debug).after entries).take entry).2,
          event.Fresh) ∧
      ∀ events, ((Browser.create session).along events).session.Settled width tree := by
  have sturdy := sturdy_of_parseProgram parsed
  obtain ⟨session, opened, sound⟩ := Session.sound_openSource parsed width
  refine ⟨session, opened, fun debug entries => ?_, fun events => ?_⟩
  · have start : (Shell.create session debug).session.Sound width tree := sound
    have after := Shell.sound_after sturdy start entries
    exact ⟨after.settled, fun line => (Shell.sound_executeLine sturdy after line).passed,
      fun entry => (Shell.sound_take sturdy after entry).2⟩
  · have start : (Browser.create session).session.Sound width tree := sound.rows sturdy
    exact (Browser.sound_along sturdy start events).settled

theorem settled_along_runs_generator :
    ∃ tree, parseProgram "async function* f(a) \x7b return 0xF - -a \x7d" = .ok tree ∧
      ∃ session, Session.openSource 0 "async function* f(a) \x7b return 0xF - -a \x7d" = .ok session ∧
        (∀ debug entries,
          ((Shell.create session debug).after entries).session.Settled 0 tree ∧
          (∀ line error, (((Shell.create session debug).after entries).executeLine line).answer ≠
            .error (.edit error)) ∧
          ∀ entry, ∀ event ∈ (((Shell.create session debug).after entries).take entry).2,
            event.Fresh) ∧
        ∀ events, ((Browser.create session).along events).session.Settled 0 tree := by
  obtain ⟨tree, parsed⟩ : ∃ tree,
      parseProgram "async function* f(a) \x7b return 0xF - -a \x7d" = .ok tree :=
    exists_of_isOk (by decide +kernel)
  exact ⟨tree, parsed, settled_along_runs parsed 0⟩

/-- Widgets and tree agree along every run of a front end, though no widget is ever made anew from
the tree. -/
theorem mirrored_along_runs {source : String} {tree : Fields} (parsed : parseProgram source = .ok tree)
    (width : Nat) :
    ∃ session, Session.openSource width source = .ok session ∧
      (∀ debug entries, ((Shell.create session debug).after entries).session.Mirrored) ∧
      ∀ events, ((Browser.create session).along events).session.Mirrored := by
  have sturdy := sturdy_of_parseProgram parsed
  obtain ⟨session, opened, sound⟩ := Session.sound_openSource parsed width
  refine ⟨session, opened, fun debug entries => ?_, fun events => ?_⟩
  · have start : (Shell.create session debug).session.Sound width tree := sound
    exact (Shell.sound_after sturdy start entries).mirrored
  · have start : (Browser.create session).session.Sound width tree := sound.rows sturdy
    exact (Browser.sound_along sturdy start events).mirrored

theorem mirrored_along_runs_declaration :
    ∃ tree, parseProgram "let a = 1, b = -a ** 2.5e-3" = .ok tree ∧
      ∃ session, Session.openSource 2 "let a = 1, b = -a ** 2.5e-3" = .ok session ∧
        (∀ debug entries, ((Shell.create session debug).after entries).session.Mirrored) ∧
        ∀ events, ((Browser.create session).along events).session.Mirrored := by
  obtain ⟨tree, parsed⟩ : ∃ tree, parseProgram "let a = 1, b = -a ** 2.5e-3" = .ok tree :=
    exists_of_isOk (by decide +kernel)
  exact ⟨tree, parsed, mirrored_along_runs parsed 2⟩

end Arborist

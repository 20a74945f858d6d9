import Mathlib
import Arborist.Proofs.Session.FrontEnds

/-!
Lines that fail. A command can be refused in many places, some of them behind a widget that has been
given the text; but a widget that refuses a text sends nothing, and a session at rest has no edit that
could fail. So a line that answers with an error has left the tree, its code and the queue as they
were, and what is open and mounted too.
-/

namespace Arborist

open Script (parseProgram)

/-- The reply leaves all but the contents of widgets as it was, and reports nothing. -/
structure Reply.Untouched (shell : Shell) (r : Reply) : Prop where
  editor : r.shell.session.editor = shell.session.editor
  expanded : r.shell.session.view.expanded = shell.session.view.expanded
  targets : r.shell.session.view.widgets.map Prod.fst = shell.session.view.widgets.map Prod.fst
  running : r.shell.running = shell.running
  debug : r.shell.debug = shell.debug
  silent : r.events = []

namespace Shell

variable {shell : Shell} {error : ShellError}

theorem untouched_refuse (shell : Shell) (error : ShellError) : (shell.refuse error).Untouched shell :=
  ⟨rfl, rfl, rfl, rfl, rfl, rfl⟩

theorem untouched_toggle {path : Path} (failed : (shell.toggle path).answer = .error error) :
    (shell.toggle path).Untouched shell := by
  unfold toggle at failed ⊢
  split at failed
  · rename_i session e done
    have refused : (shell.session.view.toggle shell.session.root path).2 = .error e :=
      congrArg Prod.snd done
    have same : session = shell.session := by
      calc session
          = { shell.session with view := (shell.session.view.toggle shell.session.root path).1 } :=
            congrArg Prod.fst done.symm
        _ = shell.session := by rw [View.toggle_fst_of_refused (.inl ⟨e, refused⟩)]
    rw [same]
    exact untouched_refuse shell _
  · rename_i session outcome done
    cases outcome <;> simp [reply] at failed

theorem untouched_onNode {path : Path} {render : Fields → String}
    (failed : (shell.onNode path render).answer = .error error) :
    (shell.onNode path render).Untouched shell := by
  unfold onNode at failed ⊢
  split at failed
  · exact untouched_refuse shell _
  · simp [reply] at failed

theorem edit_of_applyEdits {message : String}
    (failed : (shell.applyEdits message).answer = .error error) : ∃ fault, error = .edit fault := by
  unfold applyEdits at failed
  split at failed
  · simp only [refuse, Except.error.injEq] at failed
    exact ⟨_, failed.symm⟩
  · simp at failed

theorem untouched_entered {target : Target} {text : String} {outcome : Outcome} {after : Shell}
    (passed : ∀ fault, error ≠ .edit fault)
    (refused : ∀ fault, outcome = .refused fault → (after.refuse error).Untouched shell)
    (failed : (after.entered target text outcome).answer = .error error) :
    (after.entered target text outcome).Untouched shell := by
  unfold entered at failed ⊢
  split at failed
  · rename_i fault
    obtain rfl : ShellError.input fault = error := Except.error.inj failed
    exact refused fault rfl
  · obtain ⟨fault, same⟩ := edit_of_applyEdits failed
    exact absurd same (passed fault)

theorem sent_enter_of_refused {w : Widget} {text : String} {fault : InputError}
    (refused : (w.enter text).2.2 = .refused fault) : (w.enter text).2.1 = [] := by
  have failed : (w.input.enter text).outcome = .refused fault := refused
  have silent := (Input.announces_enter w.input text).quiet (by simp [failed])
  rw [Widget.enter, Widget.respond, silent, List.map_nil]

theorem untouched_set {path : Path} {field text : String} (passed : ∀ fault, error ≠ .edit fault)
    (failed : (shell.set path field text).answer = .error error) :
    (shell.set path field text).Untouched shell := by
  unfold set at failed ⊢
  split at failed
  · exact untouched_refuse shell _
  · split at failed
    · exact untouched_refuse shell _
    · dsimp only at failed ⊢
      split at failed
      · refine untouched_entered passed (fun fault refused => ?_) failed
        rw [sent_enter_of_refused refused]
        exact ⟨rfl, rfl, View.targets_setWidget .., rfl, rfl, rfl⟩
      · split at failed
        · refine untouched_entered passed (fun fault refused => ?_) failed
          rw [sent_enter_of_refused refused]
          exact ⟨rfl, rfl, rfl, rfl, rfl, rfl⟩
        · exact untouched_refuse shell _

theorem untouched_run {command : Command} (passed : ∀ fault, error ≠ .edit fault)
    (failed : (shell.run command).answer = .error error) : (shell.run command).Untouched shell := by
  cases command with
  | help | quit | debug | tree | code => simp [run, reply] at failed
  | toggle path => exact untouched_toggle failed
  | fields path | json path => exact untouched_onNode failed
  | set path field text => exact untouched_set passed failed

theorem untouched_executeLine {line : String} (passed : ∀ fault, error ≠ .edit fault)
    (failed : (shell.executeLine line).answer = .error error) :
    (shell.executeLine line).Untouched shell := by
  unfold executeLine at failed ⊢
  split at failed
  · exact untouched_refuse shell _
  · exact untouched_run passed failed

end Shell

/-- In every state that a shell reaches on an accepted text nothing waits to be applied, and a line
that answers with an error leaves everything as it was but for what a widget shows. -/
theorem untouched_along_runs {source : String} {tree : Fields} (parsed : parseProgram source = .ok tree)
    (width : Nat) :
    ∃ session, Session.openSource width source = .ok session ∧
      ∀ debug entries, ((Shell.create session debug).after entries).session.editor.pending = [] ∧
        ∀ line error,
          (((Shell.create session debug).after entries).executeLine line).answer = .error error →
          (((Shell.create session debug).after entries).executeLine line).Untouched
            ((Shell.create session debug).after entries) := by
  have sturdy := sturdy_of_parseProgram parsed
  obtain ⟨session, opened, runs⟩ := Shell.sound_of_parseProgram parsed width
  refine ⟨session, opened, fun debug entries => ?_⟩
  have after := runs debug entries
  refine ⟨after.settled.drained, fun line error failed => ?_⟩
  refine Shell.untouched_executeLine (fun fault same => ?_) failed
  rw [same] at failed
  exact (Shell.sound_executeLine sturdy after line).passed fault failed

/-- The input of a number has taken the text by the time it refuses it. -/
theorem untouched_along_runs_number :
    let source := "a = 1"
    let entries := [".toggle .", ".toggle body[0]", ".toggle body[0].expression",
      ".toggle body[0].expression.right"].map Shell.Entry.line
    let line := ".set body[0].expression.right value e"
    ∃ tree session error, parseProgram source = .ok tree ∧
      Session.openSource 2 source = .ok session ∧
      ((Shell.create session false).after entries).session.editor.pending = [] ∧
      (((Shell.create session false).after entries).executeLine line).answer = .error error ∧
      (((Shell.create session false).after entries).executeLine line).Untouched
        ((Shell.create session false).after entries) := by
  intro source entries line
  obtain ⟨tree, parsed⟩ : ∃ tree, parseProgram source = .ok tree :=
    exists_of_isOk (by decide +kernel)
  obtain ⟨session, opened, runs⟩ := untouched_along_runs parsed 2
  obtain ⟨empty, untouched⟩ := runs false entries
  have fails : (match Session.openSource 2 source with
      | .ok s => (((Shell.create s false).after entries).executeLine line).answer.isOk
      | .error _ => true) = false := by decide +kernel
  simp only [opened] at fails
  cases answer : (((Shell.create session false).after entries).executeLine line).answer with
  | ok text => simp [answer, Except.isOk, Except.toBool] at fails
  | error error =>
    have same := untouched line error answer
    exact ⟨tree, session, error, parsed, opened, empty, answer, same⟩

end Arborist

import Arborist.Editor
import Mathlib.Data.List.Induction

/-!
The queue of edits. Senders and pumps may alternate in any order and any pump may fail; what has been
taken from the queue is always a beginning of what was sent, and the queue holds the rest. A pump
takes edits up to the first that fails, with it. A write that leads to no node leaves the tree as it
was and compiles nothing, and a write that the compiler refuses is kept, so the tree depends only on
the edits that were taken.
-/

namespace Arborist

open Script (CompileError)

namespace Editor

/-- What is done to an editor from outside. Senders share one queue, so it makes no difference
which of them an edit comes from. -/
inductive Turn where
  | send (edit : Edit)
  | pump
  deriving Repr

def turn (compiler : Compiler) (editor : Editor) : Turn → Editor
  | .send edit => editor.send edit
  | .pump => (editor.pump compiler).1

def run (compiler : Compiler) (editor : Editor) (turns : List Turn) : Editor :=
  turns.foldl (turn compiler) editor

def Turn.sent? : Turn → Option Edit
  | .send edit => some edit
  | .pump => none

def sent (turns : List Turn) : List Edit := turns.filterMap Turn.sent?

def written (root : Fields) (edits : List Edit) : Fields :=
  edits.foldl (fun root edit => (edit.target.write? edit.value root).getD root) root

def Passes (compiler : Compiler) (root : Fields) (edit : Edit) : Prop :=
  ∃ changed code, edit.target.write? edit.value root = some changed ∧ compiler changed = .ok code

def PassAll (compiler : Compiler) : Fields → List Edit → Prop
  | _, [] => True
  | root, edit :: rest => Passes compiler root edit ∧ PassAll compiler (written root [edit]) rest

/-- How an edit fails on a tree, and how many times the compiler runs for it. -/
inductive Fails (compiler : Compiler) (root : Fields) (edit : Edit) : EditError → Nat → Prop
  | missing (absent : edit.target.write? edit.value root = none) :
      Fails compiler root edit (.nodeNotFound edit.target.path) 0
  | rejected {changed : Fields} {error : CompileError}
      (found : edit.target.write? edit.value root = some changed)
      (refused : compiler changed = .error error) :
      Fails compiler root edit (.compile error) 1

/-- What a pump may do: empty the queue and count it, or stop at the first edit that fails. The list
is what it takes from the queue. -/
inductive Pumped (compiler : Compiler) (editor : Editor) :
    List Edit → Editor → Except EditError Nat → Prop
  | emptied {next : Editor}
      (passed : PassAll compiler editor.root editor.pending)
      (root : next.root = written editor.root editor.pending)
      (queue : next.pending = [])
      (compiled : next.recompiles = editor.recompiles + editor.pending.length) :
      Pumped compiler editor editor.pending next (.ok editor.pending.length)
  | stopped {next : Editor} {earlier rest : List Edit} {last : Edit} {error : EditError} {runs : Nat}
      (split : editor.pending = earlier ++ last :: rest)
      (passed : PassAll compiler editor.root earlier)
      (failed : Fails compiler (written editor.root earlier) last error runs)
      (root : next.root = written editor.root (earlier ++ [last]))
      (queue : next.pending = rest)
      (compiled : next.recompiles = editor.recompiles + earlier.length + runs) :
      Pumped compiler editor (earlier ++ [last]) next (.error error)

/-- A run of turns with the edits that its pumps have taken so far, in the order of taking. -/
inductive Consumes (compiler : Compiler) (start : Editor) :
    List Turn → List Edit → Editor → Prop
  | start : Consumes compiler start [] [] start
  | send {turns : List Turn} {consumed : List Edit} {editor : Editor} (edit : Edit)
      (before : Consumes compiler start turns consumed editor) :
      Consumes compiler start (turns ++ [.send edit]) consumed (editor.send edit)
  | pump {turns : List Turn} {consumed taken : List Edit} {editor : Editor}
      (before : Consumes compiler start turns consumed editor)
      (pumped : Pumped compiler editor taken (editor.pump compiler).1 (editor.pump compiler).2) :
      Consumes compiler start (turns ++ [.pump]) (consumed ++ taken) (editor.pump compiler).1

@[simp] theorem written_nil (root : Fields) : written root [] = root := rfl

theorem written_cons (root : Fields) (edit : Edit) (rest : List Edit) :
    written root (edit :: rest) = written (written root [edit]) rest := rfl

theorem written_append (root : Fields) (edits more : List Edit) :
    written root (edits ++ more) = written (written root edits) more := by
  simp [written]

theorem written_of_some {root changed : Fields} {edit : Edit}
    (found : edit.target.write? edit.value root = some changed) : written root [edit] = changed := by
  simp [written, found]

theorem written_of_none {root : Fields} {edit : Edit}
    (absent : edit.target.write? edit.value root = none) : written root [edit] = root := by
  simp [written, absent]

@[simp] theorem sent_append (turns more : List Turn) :
    sent (turns ++ more) = sent turns ++ sent more := by
  simp [sent]

@[simp] theorem sent_send (edit : Edit) : sent [.send edit] = [edit] := rfl

@[simp] theorem sent_pump : sent [.pump] = [] := rfl

theorem sent_pumps (n : Nat) : sent (List.replicate n .pump) = [] := by
  simp [sent, Turn.sent?]

theorem run_append (compiler : Compiler) (editor : Editor) (turns more : List Turn) :
    editor.run compiler (turns ++ more) = (editor.run compiler turns).run compiler more := by
  simp [run]

/-- One edit: the tree takes the write in either case, the queue is left alone, and the compiler
runs only for a write that finds its node. -/
theorem apply_cases (compiler : Compiler) (editor : Editor) (edit : Edit) :
    (editor.apply compiler edit).1.root = written editor.root [edit] ∧
    (editor.apply compiler edit).1.pending = editor.pending ∧
    ((Passes compiler editor.root edit ∧ (editor.apply compiler edit).2 = .ok () ∧
        (editor.apply compiler edit).1.recompiles = editor.recompiles + 1) ∨
      ∃ error runs, Fails compiler editor.root edit error runs ∧
        (editor.apply compiler edit).2 = .error error ∧
        (editor.apply compiler edit).1.recompiles = editor.recompiles + runs) := by
  cases found : edit.target.write? edit.value editor.root with
  | none =>
    have same : editor.apply compiler edit = (editor, .error (.nodeNotFound edit.target.path)) := by
      simp [apply, write, found]
    rw [same]
    exact ⟨(written_of_none found).symm, rfl, .inr ⟨_, 0, .missing found, rfl, rfl⟩⟩
  | some changed =>
    rw [written_of_some found]
    cases compiled : compiler changed with
    | ok code =>
      have passes : Passes compiler editor.root edit := ⟨changed, code, found, compiled⟩
      simp [apply, write, found, recompile, compiled, passes]
    | error e =>
      have fails : Fails compiler editor.root edit (.compile e) 1 := .rejected found compiled
      refine ⟨?_, ?_, .inr ⟨_, 1, fails, ?_, ?_⟩⟩ <;>
        simp [apply, write, found, recompile, compiled]

theorem pumpEdits_cases (compiler : Compiler) (applied : Nat) (edits : List Edit)
    (editor : Editor) :
    (PassAll compiler editor.root edits ∧
      (pumpEdits compiler applied edits editor).1.root = written editor.root edits ∧
      (pumpEdits compiler applied edits editor).1.pending = [] ∧
      (pumpEdits compiler applied edits editor).1.recompiles = editor.recompiles + edits.length ∧
      (pumpEdits compiler applied edits editor).2 = .ok (applied + edits.length)) ∨
    ∃ earlier last rest error runs, edits = earlier ++ last :: rest ∧
      PassAll compiler editor.root earlier ∧
      Fails compiler (written editor.root earlier) last error runs ∧
      (pumpEdits compiler applied edits editor).1.root = written editor.root (earlier ++ [last]) ∧
      (pumpEdits compiler applied edits editor).1.pending = rest ∧
      (pumpEdits compiler applied edits editor).1.recompiles =
        editor.recompiles + earlier.length + runs ∧
      (pumpEdits compiler applied edits editor).2 = .error error := by
  induction edits generalizing applied editor with
  | nil => exact .inl ⟨trivial, rfl, rfl, rfl, rfl⟩
  | cons edit rest ih =>
    obtain ⟨root, queue, passed | failed⟩ :=
      apply_cases compiler { editor with pending := rest } edit
    · obtain ⟨passes, outcome, compiled⟩ := passed
      -- The pump goes on from the editor that the first edit leaves.
      generalize reached : (({ editor with pending := rest } : Editor).apply compiler edit) = result
        at root queue outcome compiled
      obtain ⟨next, _⟩ := result
      subst outcome
      have onward : pumpEdits compiler applied (edit :: rest) editor =
          pumpEdits compiler (applied + 1) rest next := by
        rw [pumpEdits, reached]
      simp only at root queue compiled
      rw [onward]
      obtain ⟨all, tree, empty, runs, count⟩ | ⟨earlier, last, tail, error, runs, split, all, fails,
        tree, left, total, stop⟩ := ih (applied + 1) next
      · refine .inl ⟨⟨passes, root ▸ all⟩, ?_, empty, ?_, ?_⟩
        · rw [tree, root, ← written_cons]
        · rw [runs, compiled, List.length_cons]
          omega
        · rw [count, List.length_cons]
          congr 1
          omega
      · refine .inr ⟨edit :: earlier, last, tail, error, runs, by rw [split]; rfl,
          ⟨passes, root ▸ all⟩, ?_, ?_, left, ?_, stop⟩
        · rw [written_cons, ← root]
          exact fails
        · rw [tree, root, List.cons_append, ← written_cons]
        · rw [total, compiled, List.length_cons]
          omega
    · obtain ⟨error, runs, fails, outcome, compiled⟩ := failed
      generalize reached : (({ editor with pending := rest } : Editor).apply compiler edit) = result
        at root queue outcome compiled
      obtain ⟨next, _⟩ := result
      subst outcome
      have stop : pumpEdits compiler applied (edit :: rest) editor = (next, .error error) := by
        rw [pumpEdits, reached]
      rw [stop]
      exact .inr ⟨[], edit, rest, error, runs, rfl, trivial, fails, root, queue, compiled, rfl⟩

theorem pumped_pump (compiler : Compiler) (editor : Editor) :
    ∃ taken, Pumped compiler editor taken (editor.pump compiler).1 (editor.pump compiler).2 := by
  obtain ⟨passed, root, queue, compiled, result⟩ | ⟨earlier, last, rest, error, runs, split, passed,
    failed, root, queue, compiled, result⟩ := pumpEdits_cases compiler 0 editor.pending editor
  · rw [Nat.zero_add] at result
    exact ⟨editor.pending, by
      rw [pump, result]
      exact .emptied passed root queue compiled⟩
  · exact ⟨earlier ++ [last], by
      rw [pump, result]
      exact .stopped split passed failed root queue compiled⟩

namespace Pumped

variable {compiler : Compiler} {editor next : Editor} {taken : List Edit}
  {result : Except EditError Nat}

theorem pending_eq (pumped : Pumped compiler editor taken next result) :
    editor.pending = taken ++ next.pending := by
  cases pumped with
  | emptied passed root queue compiled => simp [queue]
  | stopped split passed failed root queue compiled => simp [split, queue]

theorem root_eq (pumped : Pumped compiler editor taken next result) :
    next.root = written editor.root taken := by
  cases pumped with
  | emptied passed root queue compiled => exact root
  | stopped split passed failed root queue compiled => exact root

theorem length_pending_le (pumped : Pumped compiler editor taken next result) :
    next.pending.length ≤ editor.pending.length - 1 := by
  cases pumped with
  | emptied passed root queue compiled => simp [queue]
  | stopped split passed failed root queue compiled =>
    rw [split, queue, List.length_append, List.length_cons]
    omega

end Pumped

theorem exists_consumes (compiler : Compiler) (editor : Editor) (turns : List Turn) :
    ∃ consumed, Consumes compiler editor turns consumed (editor.run compiler turns) := by
  induction turns using List.reverseRecOn with
  | nil => exact ⟨[], .start⟩
  | append_singleton turns last ih =>
    obtain ⟨consumed, before⟩ := ih
    rw [run_append]
    cases last with
    | send edit => exact ⟨consumed, .send edit before⟩
    | pump =>
      obtain ⟨taken, pumped⟩ := pumped_pump compiler (editor.run compiler turns)
      exact ⟨consumed ++ taken, .pump before pumped⟩

namespace Consumes

variable {compiler : Compiler} {start editor : Editor} {turns : List Turn} {consumed : List Edit}

theorem sent_eq (consumes : Consumes compiler start turns consumed editor) :
    start.pending ++ sent turns = consumed ++ editor.pending := by
  induction consumes with
  | start => simp [sent]
  | send edit before ih => simp [Editor.send, ← List.append_assoc, ih]
  | pump before pumped ih => simp [ih, pumped.pending_eq]

theorem root_eq (consumes : Consumes compiler start turns consumed editor) :
    editor.root = written start.root consumed := by
  induction consumes with
  | start => rfl
  | send edit before ih => exact ih
  | pump before pumped ih => rw [pumped.root_eq, ih, ← written_append]

end Consumes

theorem root_run_of_pending_nil {compiler : Compiler} {editor : Editor} {turns : List Turn}
    (empty : (editor.run compiler turns).pending = []) :
    (editor.run compiler turns).root = written editor.root (editor.pending ++ sent turns) := by
  obtain ⟨consumed, consumes⟩ := exists_consumes compiler editor turns
  rw [consumes.root_eq, consumes.sent_eq, empty, List.append_nil]

theorem pending_run_pumps (compiler : Compiler) (editor : Editor) (n : Nat)
    (enough : editor.pending.length ≤ n) :
    (editor.run compiler (List.replicate n .pump)).pending = [] := by
  induction n generalizing editor with
  | zero => exact List.length_eq_zero_iff.1 (Nat.le_zero.1 enough)
  | succ n ih =>
    obtain ⟨taken, pumped⟩ := pumped_pump compiler editor
    have shorter : (editor.pump compiler).1.pending.length ≤ n := by
      have := pumped.length_pending_le
      omega
    exact ih _ shorter

/-- No edit is lost, taken twice or taken out of turn. In every run the edits taken so far are a
beginning of those sent, in that order, and the queue is the rest; `Consumes` says of every pump of
the run that it emptied the queue and counted it, or stopped at the first edit that failed. Pumps
repeated until the queue is empty leave the tree that the writes make in the order of sending, and
as many pumps as edits are waiting always get there. -/
theorem run_consumes_sent (compiler : Compiler) (editor : Editor) (turns : List Turn) :
    (∃ consumed, Consumes compiler editor turns consumed (editor.run compiler turns) ∧
      editor.pending ++ sent turns = consumed ++ (editor.run compiler turns).pending ∧
      (editor.run compiler turns).root = written editor.root consumed) ∧
    (∀ n, (editor.run compiler (turns ++ List.replicate n .pump)).pending = [] →
      (editor.run compiler (turns ++ List.replicate n .pump)).root =
        written editor.root (editor.pending ++ sent turns)) ∧
    ∀ n, (editor.run compiler turns).pending.length ≤ n →
      (editor.run compiler (turns ++ List.replicate n .pump)).pending = [] := by
  refine ⟨?_, fun n empty => ?_, fun n enough => ?_⟩
  · obtain ⟨consumed, consumes⟩ := exists_consumes compiler editor turns
    exact ⟨consumed, consumes, consumes.sent_eq, consumes.root_eq⟩
  · rw [root_run_of_pending_nil empty, sent_append, sent_pumps, List.append_nil]
  · rw [run_append]
    exact pending_run_pumps compiler _ n enough

/-- One edit passes, one leads to no node and stops the first pump, and one is refused by the
compiler in the second: the tree holds the first write and the refused one. -/
theorem run_consumes_sent_failing :
    let compiler : Compiler := fun root =>
      match root.get? "kind" with
      | some (.string word) => .ok word
      | _ => .error (.missingField "Program" "kind")
    let editor : Editor := ⟨[("type", .string "Program")], "", none, [], 1⟩
    let turns : List Turn :=
      [.send ⟨⟨[], "kind"⟩, .string "let"⟩, .send ⟨⟨[⟨"body", some 0⟩], "kind"⟩, .string "var"⟩, .pump,
        .send ⟨⟨[], "kind"⟩, .null⟩]
    (editor.run compiler turns).pending.length = 1 ∧
    (editor.run compiler (turns ++ List.replicate 1 .pump)).pending = [] ∧
    (editor.run compiler (turns ++ List.replicate 1 .pump)).root =
      [("type", .string "Program"), ("kind", .null)] := by
  intro compiler editor turns
  have waiting : (editor.run compiler turns).pending.length = 1 := rfl
  obtain ⟨-, tree, drained⟩ := run_consumes_sent compiler editor turns
  have empty := drained 1 (Nat.le_of_eq waiting)
  exact ⟨waiting, empty, tree 1 empty⟩

end Editor

end Arborist

import Arborist.Editor
import Mathlib.Data.List.Induction

/-!
What an editor shows of its past. Every call leaves deeds: writes, edits and compilations, each with
the tree as it was then. The code is that of the last tree that compiled, the error is that of the
last compilation if it failed, and the count is that of the compilations. A call that finds no node
leaves no deed, and so neither clears an error nor makes the code older than it was.
-/

namespace Arborist

open Script (CompileError)

namespace Editor

inductive Call where
  | write (edit : Edit)
  | apply (edit : Edit)
  | send (edit : Edit)
  | pump
  | recompile
  deriving Repr

/-- A call that fails leaves the editor that it hands back beside the failure. -/
def call (compiler : Compiler) (editor : Editor) : Call → Editor
  | .write edit => (editor.write edit).1
  | .apply edit => (editor.apply compiler edit).1
  | .send edit => editor.send edit
  | .pump => (editor.pump compiler).1
  | .recompile => (editor.recompile compiler).1

def calls (compiler : Compiler) (editor : Editor) (list : List Call) : Editor :=
  list.foldl (call compiler) editor

/-- Something that was done to the tree, with the tree that it left: a write alone, an edit with the
compilation behind it, or a compilation alone. -/
inductive Deed where
  | wrote (tree : Fields)
  | edited (edit : Edit) (tree : Fields)
  | recompiled (tree : Fields)
  deriving Repr

namespace Deed

def tree : Deed → Fields
  | .wrote tree | .edited _ tree | .recompiled tree => tree

def compiled? : Deed → Option Fields
  | .wrote _ => none
  | .edited _ tree | .recompiled tree => some tree

def isWrite : Deed → Bool
  | .wrote _ => true
  | _ => false

def isEdit : Deed → Bool
  | .edited .. => true
  | _ => false

end Deed

/-- The edits of a queue up to the first that finds no node, or to the first, with it, whose tree
does not compile. -/
def pumpDeeds (compiler : Compiler) : Fields → List Edit → List Deed
  | _, [] => []
  | root, edit :: rest =>
    match edit.target.write? edit.value root with
    | none => []
    | some changed =>
      .edited edit changed ::
        match compiler changed with
        | .ok _ => pumpDeeds compiler changed rest
        | .error _ => []

def deeds (compiler : Compiler) (editor : Editor) : Call → List Deed
  | .write edit => ((edit.target.write? edit.value editor.root).map .wrote).toList
  | .apply edit => ((edit.target.write? edit.value editor.root).map (.edited edit)).toList
  | .send _ => []
  | .pump => pumpDeeds compiler editor.root editor.pending
  | .recompile => [.recompiled editor.root]

def history (compiler : Compiler) (editor : Editor) : List Call → List Deed
  | [] => []
  | first :: rest =>
    editor.deeds compiler first ++ (editor.call compiler first).history compiler rest

def compiledTrees (past : List Deed) : List Fields := past.filterMap Deed.compiled?

/-- What an editor shows follows from the deeds of its past. -/
structure Explained (compiler : Compiler) (editor : Editor) (past : List Deed) : Prop where
  root : past.getLast?.map Deed.tree = some editor.root
  code : ∃ front tree back, compiledTrees past = front ++ tree :: back ∧
    compiler tree = .ok editor.code ∧ ∀ later ∈ back, ∃ e, compiler later = .error e
  error : ∀ e, editor.lastError = some e ↔
    ∃ front tree, compiledTrees past = front ++ [tree] ∧ compiler tree = .error e
  count : editor.recompiles = (compiledTrees past).length

@[simp] theorem compiledTrees_append (past more : List Deed) :
    compiledTrees (past ++ more) = compiledTrees past ++ compiledTrees more :=
  List.filterMap_append

theorem compiledTrees_snoc (past : List Deed) {deed : Deed} {tree : Fields}
    (compiled : deed.compiled? = some tree) :
    compiledTrees (past ++ [deed]) = compiledTrees past ++ [tree] := by
  simp [compiledTrees, compiled]

namespace Deed

theorem tree_of_compiled {deed : Deed} {tree : Fields} (compiled : deed.compiled? = some tree) :
    deed.tree = tree := by
  cases deed with
  | wrote => simp [compiled?] at compiled
  | edited edit other => exact Option.some.inj compiled
  | recompiled other => exact Option.some.inj compiled

end Deed

section Steps

variable {compiler : Compiler} {editor : Editor} {past : List Deed}

theorem explained_create {root : Fields} (created : create compiler root = .ok editor) :
    Explained compiler editor [.recompiled root] := by
  unfold create at created
  cases compiled : compiler root with
  | error e => simp [compiled, Except.map] at created
  | ok code =>
    simp only [compiled, Except.map, Except.ok.injEq] at created
    subst created
    refine ⟨rfl, ⟨[], root, [], rfl, compiled, by simp⟩, fun e => ?_, rfl⟩
    simp [compiledTrees, Deed.compiled?, List.singleton_eq_append_iff, compiled]

theorem Explained.withPending (explained : Explained compiler editor past) (queue : List Edit) :
    Explained compiler { editor with pending := queue } past :=
  ⟨explained.root, explained.code, explained.error, explained.count⟩

theorem Explained.wrote (explained : Explained compiler editor past) (tree : Fields) :
    Explained compiler { editor with root := tree } (past ++ [.wrote tree]) := by
  have same : compiledTrees (past ++ [.wrote tree]) = compiledTrees past := by
    simp [compiledTrees, Deed.compiled?]
  refine ⟨by simp [Deed.tree], ?_, ?_, ?_⟩ <;> rw [same]
  · exact explained.code
  · exact explained.error
  · exact explained.count

/-- A compilation, whatever its outcome: a failure leaves the code and adds one tree that does not
compile behind the last that did. -/
theorem Explained.recompile (explained : Explained compiler editor past) {deed : Deed} {tree : Fields}
    (compiled : deed.compiled? = some tree) :
    Explained compiler (({ editor with root := tree } : Editor).recompile compiler).1
      (past ++ [deed]) := by
  have trees := compiledTrees_snoc past compiled
  have left := Deed.tree_of_compiled compiled
  unfold Editor.recompile
  cases outcome : compiler tree with
  | ok code =>
    refine ⟨by simp [left], ⟨compiledTrees past, tree, [], trees, outcome, by simp⟩, fun e => ?_, ?_⟩
    · simp [trees, outcome]
    · simp [trees, explained.count]
  | error e =>
    obtain ⟨front, good, back, split, made, failing⟩ := explained.code
    refine ⟨by simp [left], ⟨front, good, back ++ [tree], ?_, made, ?_⟩, fun other => ?_, ?_⟩
    · rw [trees, split, List.append_assoc, List.cons_append]
    · intro later member
      rcases List.mem_append.1 member with before | last
      · exact failing later before
      · exact ⟨e, List.mem_singleton.1 last ▸ outcome⟩
    · simp [trees, outcome]
    · simp [trees, explained.count]

theorem apply_eq (compiler : Compiler) (editor : Editor) (edit : Edit) :
    editor.apply compiler edit =
      match edit.target.write? edit.value editor.root with
      | none => (editor, .error (.nodeNotFound edit.target.path))
      | some changed =>
        ((({ editor with root := changed } : Editor).recompile compiler).1,
          match compiler changed with
          | .ok _ => .ok ()
          | .error e => .error (.compile e)) := by
  unfold apply write
  cases edit.target.write? edit.value editor.root with
  | none => rfl
  | some changed =>
    simp only [Editor.recompile]
    cases compiler changed <;> rfl

theorem root_recompile (compiler : Compiler) (editor : Editor) :
    (editor.recompile compiler).1.root = editor.root := by
  unfold Editor.recompile
  cases compiler editor.root <;> rfl

theorem Explained.pumpEdits (explained : Explained compiler editor past) (applied : Nat)
    (edits : List Edit) :
    Explained compiler (pumpEdits compiler applied edits editor).1
      (past ++ pumpDeeds compiler editor.root edits) := by
  induction edits generalizing applied editor past with
  | nil =>
    rw [pumpDeeds, List.append_nil]
    exact explained.withPending []
  | cons edit rest ih =>
    have waiting := explained.withPending rest
    rw [Editor.pumpEdits, apply_eq, pumpDeeds]
    cases edit.target.write? edit.value editor.root with
    | none =>
      rw [List.append_nil]
      exact waiting
    | some changed =>
      have compiled : (Deed.edited edit changed).compiled? = some changed := rfl
      have next := waiting.recompile compiled
      cases outcome : compiler changed with
      | error e => simpa only [outcome] using next
      | ok code =>
        have onward := ih next (applied + 1)
        rw [root_recompile, List.append_assoc, List.singleton_append] at onward
        simpa only [outcome] using onward

theorem Explained.call (explained : Explained compiler editor past) (next : Call) :
    Explained compiler (editor.call compiler next) (past ++ editor.deeds compiler next) := by
  cases next with
  | write edit =>
    rw [Editor.call, deeds]
    unfold Editor.write
    cases edit.target.write? edit.value editor.root with
    | none => simpa using explained
    | some changed => exact explained.wrote changed
  | apply edit =>
    rw [Editor.call, apply_eq, deeds]
    cases edit.target.write? edit.value editor.root with
    | none => simpa using explained
    | some changed => exact explained.recompile rfl
  | send edit =>
    rw [deeds, List.append_nil]
    exact explained.withPending _
  | pump => exact explained.pumpEdits 0 editor.pending
  | recompile =>
    have compiled : (Deed.recompiled editor.root).compiled? = some editor.root := rfl
    exact explained.recompile compiled

end Steps

theorem Explained.calls {compiler : Compiler} {editor : Editor} {past : List Deed}
    (explained : Explained compiler editor past) (list : List Call) :
    Explained compiler (editor.calls compiler list) (past ++ editor.history compiler list) := by
  induction list generalizing editor past with
  | nil => simpa [Editor.calls, history] using explained
  | cons first rest ih =>
    rw [history, ← List.append_assoc]
    exact ih (explained.call first)

/-- Without an error, and with no write behind the last compilation, the code is that of the tree as
it is: the last deed is a compilation of that tree, which did not fail. -/
theorem Explained.current {compiler : Compiler} {editor : Editor} {past : List Deed}
    (explained : Explained compiler editor past) (clean : editor.lastError = none)
    (settled : ∀ deed ∈ past.getLast?, deed.isWrite = false) :
    compiler editor.root = .ok editor.code := by
  obtain ⟨deed, last, tree⟩ := Option.map_eq_some_iff.1 explained.root
  obtain ⟨before, rfl⟩ := List.getLast?_eq_some_iff.1 last
  have compiled : deed.compiled? = some editor.root := by
    cases deed with
    | wrote => exact absurd (settled _ last) (by simp [Deed.isWrite])
    | edited | recompiled => exact congrArg some tree
  have trees := compiledTrees_snoc before compiled
  obtain ⟨front, good, back, split, made, failing⟩ := explained.code
  rcases List.eq_nil_or_concat back with rfl | ⟨more, final, rfl⟩
  · obtain ⟨-, same⟩ := List.append_inj' (trees.symm.trans split) rfl
    rw [List.singleton_inj.1 same]
    exact made
  · -- A failure behind the last success would be the last compilation, and the error would show.
    obtain ⟨e, failed⟩ := failing final (by simp)
    have shown := (explained.error e).2 ⟨front ++ good :: more, final, by simp [split], failed⟩
    rw [clean] at shown
    cases shown

def Call.isRecompile : Call → Bool
  | .recompile => true
  | _ => false

theorem pumpDeeds_isEdit (compiler : Compiler) (root : Fields) (edits : List Edit) :
    ∀ deed ∈ pumpDeeds compiler root edits, deed.isEdit = true := by
  induction edits generalizing root with
  | nil => simp [pumpDeeds]
  | cons edit rest ih =>
    rw [pumpDeeds]
    cases edit.target.write? edit.value root with
    | none => simp
    | some changed =>
      refine List.forall_mem_cons.2 ⟨rfl, ?_⟩
      cases compiler changed with
      | ok code => exact ih changed
      | error e => simp

theorem length_compiledTrees_of_isEdit {past : List Deed}
    (edits : ∀ deed ∈ past, deed.isEdit = true) :
    (compiledTrees past).length = past.countP Deed.isEdit := by
  induction past with
  | nil => rfl
  | cons deed rest ih =>
    obtain ⟨first, others⟩ := List.forall_mem_cons.1 edits
    cases deed with
    | wrote | recompiled => simp [Deed.isEdit] at first
    | edited edit tree =>
      rw [List.countP_cons_of_pos first, ← ih others]
      rfl

theorem length_compiledTrees_deeds (compiler : Compiler) (editor : Editor) (next : Call) :
    (compiledTrees (editor.deeds compiler next)).length =
      [next].countP Call.isRecompile + (editor.deeds compiler next).countP Deed.isEdit := by
  cases next with
  | write edit | apply edit =>
    rw [deeds]
    cases edit.target.write? edit.value editor.root <;> rfl
  | send | recompile => rfl
  | pump =>
    rw [deeds, length_compiledTrees_of_isEdit (pumpDeeds_isEdit compiler _ _)]
    simp [Call.isRecompile]

theorem length_compiledTrees_history (compiler : Compiler) (editor : Editor) (list : List Call) :
    (compiledTrees (editor.history compiler list)).length =
      list.countP Call.isRecompile + (editor.history compiler list).countP Deed.isEdit := by
  induction list generalizing editor with
  | nil => rfl
  | cons first rest ih =>
    have one := length_compiledTrees_deeds compiler editor first
    have others := ih (editor.call compiler first)
    rw [← List.singleton_append, List.countP_append, List.singleton_append, history,
      compiledTrees_append, List.length_append, List.countP_append]
    omega

/-- After any calls, with any of them failing, on an editor that was made for a tree: the code is the
compiler's output for the tree as it was at the last compilation that succeeded; there is an error
exactly if the last compilation failed, and it is that failure; the compilations counted are the
first one, one for each call that asks for it and one for each edit that found its node; and when
there is no error and the last thing done was no write alone, the code is that of the tree as it is. -/
theorem shows_history {compiler : Compiler} {root : Fields} {start : Editor}
    (created : create compiler root = .ok start) (list : List Call) :
    let editor := start.calls compiler list
    let past := .recompiled root :: start.history compiler list
    (∃ front tree back, compiledTrees past = front ++ tree :: back ∧
      compiler tree = .ok editor.code ∧ ∀ later ∈ back, ∃ e, compiler later = .error e) ∧
    (∀ e, editor.lastError = some e ↔
      ∃ front tree, compiledTrees past = front ++ [tree] ∧ compiler tree = .error e) ∧
    editor.recompiles = 1 + list.countP Call.isRecompile +
      (start.history compiler list).countP Deed.isEdit ∧
    past.getLast?.map Deed.tree = some editor.root ∧
    (editor.lastError = none → (∀ deed ∈ past.getLast?, deed.isWrite = false) →
      compiler editor.root = .ok editor.code) := by
  intro editor past
  have explained : Explained compiler editor past := (explained_create created).calls list
  refine ⟨explained.code, explained.error, ?_, explained.root, explained.current⟩
  have counted : (compiledTrees past).length =
      1 + (compiledTrees (start.history compiler list)).length := by
    simp [past, compiledTrees, Deed.compiled?, Nat.add_comm]
  rw [explained.count, counted, length_compiledTrees_history, Nat.add_assoc]

/-- A write alone, an edit that leads to no node, one that the compiler refuses, and one from the
queue that mends the tree: of the three edits the one without a node is not compiled, and in the end
the code is that of the tree again. -/
theorem shows_history_mended :
    let compiler : Compiler := fun root =>
      match root.get? "kind" with
      | some (.string word) => .ok word
      | _ => .error (.missingField "Program" "kind")
    let root : Fields := [("type", .string "Program"), ("kind", .string "var")]
    let start : Editor := ⟨root, "var", none, [], 1⟩
    let list : List Call :=
      [.write ⟨⟨[], "kind"⟩, .string "let"⟩, .apply ⟨⟨[⟨"body", some 0⟩], "kind"⟩, .string "var"⟩,
        .apply ⟨⟨[], "kind"⟩, .null⟩, .send ⟨⟨[], "kind"⟩, .string "const"⟩, .pump]
    create compiler root = .ok start ∧ (start.calls compiler list).recompiles = 3 ∧
      compiler (start.calls compiler list).root = .ok (start.calls compiler list).code := by
  intro compiler root start list
  have created : create compiler root = .ok start := rfl
  obtain ⟨-, -, count, -, current⟩ := shows_history created list
  have settled : ∀ deed ∈ (Deed.recompiled root :: start.history compiler list).getLast?,
      deed.isWrite = false := by
    rintro deed ⟨⟩
    rfl
  exact ⟨created, count, current rfl settled⟩

end Editor

end Arborist

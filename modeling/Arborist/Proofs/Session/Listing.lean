import Mathlib
import Arborist.Proofs.Script.Addressed
import Arborist.Proofs.Session.FrontEnds
import Arborist.Proofs.Shell.Typed

/-!
Listings whose paths can be used. The rows of the tree and the fields of a node show nodes by their
kind and path. A path that is shown is read back by each command that takes one, and it leads to a
node of the kind that stands beside it; and what the rows of the tree show can be toggled.
-/

namespace Arborist

open Script (parseProgram)

/-- A line of a listing: a node by its kind and path, or anything else. -/
inductive Listed where
  | node (lead kind mark : String) (path : Path)
  | other (text : String)
  deriving DecidableEq, Repr

def Listed.text : Listed → String
  | .node lead kind mark path => lead ++ kind ++ mark ++ "@" ++ path.text
  | .other text => text

def Row.listed (row : Row) : Listed :=
  match row.kind with
  | .node path kind expandable expanded =>
    .node (Text.blanks (2 * row.depth)) kind
      ((if expandable then if expanded then " -" else " +" else "") ++ "  ") path
  | _ => .other (Text.blanks (2 * row.depth) ++ row.label)

def Value.listed (path : Path) (name : String) (i : Nat) (item : Value) : Listed :=
  match item.asNode? with
  | some node => .node "    " node.kind " " (path.element name i)
  | none => .other ("    " ++ item.display)

def FieldView.listed (registry : Registry) (kind : String) (path : Path) : FieldView → List Listed
  | .primitive name value =>
    (Shell.fieldTexts registry kind path (.primitive name value)).map .other
  | .child name node => [.node ("  " ++ name ++ " -> ") node.kind " " (path.child name)]
  | .sequence name items =>
    .other ("  " ++ name ++ " (" ++ Decimal.digitText items.length ++ " items)") ::
      items.mapIdx (Value.listed path name)

def Fields.listed (registry : Registry) (path : Path) (node : Fields) : List Listed :=
  .node "" node.kind " " path :: node.views.flatMap (FieldView.listed registry node.kind path)

namespace Shell

theorem rowText_eq (row : Row) : rowText row = row.listed.text := by
  obtain ⟨depth, kind⟩ := row
  cases kind with
  | node path kind expandable expanded =>
    cases expandable <;> cases expanded <;>
      simp [rowText, Row.label, Row.listed, Listed.text, String.append_assoc]
  | label | field | opaqueItem => rfl

theorem itemText_eq (path : Path) (name : String) (i : Nat) (item : Value) :
    itemText path name i item = (item.listed path name i).text := by
  unfold itemText Value.listed
  cases item.asNode? with
  | some node => simp [Listed.text, String.append_assoc]
  | none => rfl

theorem fieldTexts_eq (registry : Registry) (kind : String) (path : Path) (view : FieldView) :
    fieldTexts registry kind path view = (view.listed registry kind path).map Listed.text := by
  cases view with
  | primitive name value =>
    rw [FieldView.listed, List.map_map]
    exact (List.map_id _).symm
  | child name node => simp [fieldTexts, FieldView.listed, Listed.text, String.append_assoc]
  | sequence name items =>
    have each : items.mapIdx (itemText path name) =
        (items.mapIdx (Value.listed path name)).map Listed.text := by
      rw [List.mapIdx_eq_zipIdx_map, List.mapIdx_eq_zipIdx_map, List.map_map]
      exact List.map_congr_left fun _ _ => itemText_eq ..
    rw [fieldTexts, each, FieldView.listed, List.map_cons, Listed.text]

theorem fieldsText_eq (registry : Registry) (path : Path) (node : Fields) :
    fieldsText registry path node =
      Text.join "\n" ((node.listed registry path).map Listed.text) := by
  have fields : node.views.flatMap (fieldTexts registry node.kind path) =
      (node.views.flatMap (FieldView.listed registry node.kind path)).map Listed.text := by
    rw [List.map_flatMap]
    congr 1
    funext view
    exact fieldTexts_eq registry node.kind path view
  rw [fieldsText, fields, Fields.listed, List.map_cons]
  simp [Listed.text, String.append_assoc]

end Shell

/-- Each command that takes a path reads it back, and it leads to a node of the kind. -/
structure Path.Usable (root : Fields) (kind : String) (path : Path) : Prop where
  toggle : Command.ofLine (".toggle " ++ path.text) = .ok (.toggle path)
  fields : Command.ofLine (".fields " ++ path.text) = .ok (.fields path)
  json : Command.ofLine (".json " ++ path.text) = .ok (.json path)
  leads : ∃ node, path.resolve root = some node ∧ node.kind = kind

def Listed.Usable (root : Fields) : Listed → Prop
  | .node _ kind _ path => path.Usable root kind
  | .other _ => True

def Listed.Toggles (shell : Shell) : Listed → Prop
  | .node _ _ _ path => ∃ text, (shell.executeLine (".toggle " ++ path.text)).answer = .ok text
  | .other _ => True

/-- Each path that leads to a node can be written, and no node that is led to has a key twice. -/
structure Fields.Navigable (root : Fields) : Prop where
  nodup : ∀ {path : Path} {node : Fields}, path.resolve root = some node → node.keys.Nodup
  plain : ∀ {path : Path} {node : Fields}, path.resolve root = some node → path.Plain

section Listings

variable {root node : Fields} {path : Path} (navigable : root.Navigable)

include navigable

theorem Fields.Navigable.usable (there : path.resolve root = some node) :
    path.Usable root node.kind := by
  have plain := navigable.plain there
  exact ⟨Command.ofLine_spaced .toggle plain, Command.ofLine_spaced .fields plain,
    Command.ofLine_spaced .json plain, node, there, rfl⟩

theorem usable_item {name : String} {items : List Value} (there : path.resolve root = some node)
    (held : node.get? name = some (.list items)) {i : Nat} {item : Value}
    (place : items[i]? = some item) : (item.listed path name i).Usable root := by
  unfold Value.listed
  split
  · rename_i inner isNode
    obtain ⟨rfl, inside⟩ := Value.eq_object_of_asNode? isNode
    exact navigable.usable (Path.resolve_element there held place inside)
  · trivial

theorem usable_field {registry : Registry} {view : FieldView}
    (there : path.resolve root = some node) (member : view ∈ node.views) :
    ∀ listed ∈ view.listed registry node.kind path, listed.Usable root := by
  obtain ⟨⟨name, value⟩, among, shown⟩ := List.mem_filterMap.1 member
  have held := Fields.get?_of_mem (navigable.nodup there) among
  simp only [FieldView.ofField?] at shown
  split at shown
  · obtain rfl := Option.some.inj shown
    intro listed inside
    obtain ⟨text, -, rfl⟩ := List.mem_map.1 inside
    trivial
  · split at shown
    · rename_i inner isNode
      obtain rfl := Option.some.inj shown
      obtain ⟨rfl, inside⟩ := Value.eq_object_of_asNode? isNode
      exact List.forall_mem_singleton.2 (navigable.usable (Path.resolve_child there held inside))
    · split at shown
      · split at shown
        · obtain rfl := Option.some.inj shown
          refine List.forall_mem_cons.2 ⟨trivial, fun listed inside => ?_⟩
          obtain ⟨i, fits, rfl⟩ := List.mem_mapIdx.1 inside
          exact usable_item navigable there held (List.getElem?_eq_getElem fits)
        · simp at shown
      · simp at shown

theorem usable_fields (registry : Registry) (there : path.resolve root = some node) :
    ∀ listed ∈ node.listed registry path, listed.Usable root := by
  refine List.forall_mem_cons.2 ⟨navigable.usable there, fun listed member => ?_⟩
  obtain ⟨view, among, inside⟩ := List.mem_flatMap.1 member
  exact usable_field navigable there among listed inside

omit navigable in
theorem reached_of_row {view : View} {row : Row} (member : row ∈ (view.rows root).1)
    {lead kind mark : String} (listed : row.listed = .node lead kind mark path) :
    ∃ node, Reached view.isExpanded root path node ∧ node.kind = kind := by
  rw [View.rows_eq] at member
  obtain ⟨before, spot, behind, whole, rfl⟩ := View.exists_see_of_mem member
  have inside : spot ∈ Spot.all view.isExpanded root := by
    rw [whole]
    exact List.mem_append_right _ List.mem_cons_self
  cases spot with
  | node depth path inner =>
    simp only [View.draw, View.nodeRow, Row.listed, Listed.node.injEq] at listed
    obtain ⟨-, kind, -, rfl⟩ := listed
    exact ⟨inner, Spot.placed_all _ inside, kind⟩
  | label | item => simp [View.draw, Row.listed] at listed
  | field depth kind target value =>
    rw [View.draw] at listed
    cases found : (view.visit before).2.found? kind target value <;> rw [found] at listed <;>
      cases listed

theorem usable_row {view : View} {row : Row} (member : row ∈ (view.rows root).1) :
    row.listed.Usable root := by
  cases listed : row.listed with
  | node lead kind mark path =>
    obtain ⟨node, reached, rfl⟩ := reached_of_row member listed
    exact navigable.usable (reached.resolve navigable.nodup)
  | other => trivial

end Listings

theorem View.exists_toggle {view : View} {root node : Fields} {path : Path}
    (there : path.resolve root = some node) (visible : view.isVisible path = true) :
    ∃ next outcome, view.toggle root path = (next, .ok outcome) := by
  simp only [toggle, there, visible]
  cases node.hasViews <;> cases view.isExpanded path <;> exact ⟨_, _, rfl⟩

namespace Shell

variable {shell : Shell} {node : Fields} {path : Path}

theorem exists_toggle (there : path.resolve shell.session.root = some node)
    (visible : shell.session.view.isVisible path = true) :
    ∃ text, (shell.toggle path).answer = .ok text := by
  obtain ⟨next, outcome, done⟩ := View.exists_toggle there visible
  simp only [toggle, Session.toggle, done]
  cases outcome <;> exact ⟨_, rfl⟩

theorem toggles_row (navigable : shell.session.root.Navigable) {row : Row}
    (member : row ∈ shell.session.rows.1) : row.listed.Toggles shell.tree.2 := by
  cases listed : row.listed with
  | node lead kind mark path =>
    obtain ⟨node, reached, -⟩ := reached_of_row member listed
    have there := reached.resolve navigable.nodup
    have same : shell.tree.2.session.view.isExpanded = shell.session.view.isExpanded := by
      change (shell.session.view.rows shell.session.root).2.isExpanded = _
      rw [View.rows_eq, View.isExpanded_visit]
    rw [← same] at reached
    have decoded : Command.ofLine (".toggle " ++ path.text) = .ok (.toggle path) :=
      Command.ofLine_spaced .toggle (navigable.plain there)
    rw [Listed.Toggles, executeLine, decoded]
    exact exists_toggle there reached.isVisible
  | other => trivial

theorem executeLine_tree (shell : Shell) {line : String} (read : Command.ofLine line = .ok .tree) :
    (shell.executeLine line).shell = shell.tree.2 ∧ (shell.executeLine line).answer =
      .ok (Text.join "\n" ((shell.session.rows.1.map Row.listed).map Listed.text)) := by
  have texts : (shell.session.rows.1.map Row.listed).map Listed.text =
      shell.session.rows.1.map rowText := by
    rw [List.map_map]
    exact List.map_congr_left fun row _ => (rowText_eq row).symm
  rw [texts, executeLine, read]
  exact ⟨rfl, rfl⟩

theorem executeLine_fields {line : String} (read : Command.ofLine line = .ok (.fields path))
    {text : String} (answer : (shell.executeLine line).answer = .ok text) :
    ∃ node, path.resolve shell.session.root = some node ∧
      text = Text.join "\n" ((node.listed shell.session.view.registry path).map Listed.text) := by
  simp only [executeLine, read, run, onNode] at answer
  split at answer
  · simp [refuse] at answer
  · rename_i node there
    simp only [reply, Except.ok.injEq] at answer
    exact ⟨node, there, by rw [← answer, fieldsText_eq]⟩

end Shell

theorem Session.Sound.navigable {width : Nat} {source : String} {tree : Fields} {s : Session}
    (parsed : parseProgram source = .ok tree) (counted : source.length ≤ wordSize)
    (sound : s.Sound width tree) : s.root.Navigable := by
  have sturdy := sturdy_of_parseProgram parsed
  have flat := Value.registered_refilled.flat
  have isNode := (sound.settled.refilled.kind_eq flat).2.trans sturdy.isNode
  have addressed := Script.addressed_of_varies Value.registered_refilled
    (Script.addressed_of_parseProgram parsed) sound.settled.refilled
  exact ⟨sound.nodup sturdy, Path.plain_of_resolve counted (addressed.1 isNode) addressed.2⟩

/-- What a shell lists can be used, in every state that it reaches on an accepted text. Each path in
the rows of the tree or among the fields of a node is read back and leads to a node of the kind that
is listed with it, and a node in the rows of the tree can be toggled. A place in a list is read back
if a word counts it, and no list has more items than the text has characters. So the bound is one of
memory: a text has at most as many bytes as a word counts. -/
theorem usable_along_runs {source : String} {tree : Fields}
    (parsed : parseProgram source = .ok tree) (counted : source.length ≤ wordSize) (width : Nat) :
    ∃ session, Session.openSource width source = .ok session ∧
      ∀ debug entries,
        let shell := (Shell.create session debug).after entries
        (∀ line, Command.ofLine line = .ok .tree →
          let reply := shell.executeLine line
          let rows := shell.session.rows.1.map Row.listed
          reply.answer = .ok (Text.join "\n" (rows.map Listed.text)) ∧
            ∀ listed ∈ rows, listed.Usable reply.shell.session.root ∧ listed.Toggles reply.shell) ∧
        ∀ line path text, Command.ofLine line = .ok (.fields path) →
          (shell.executeLine line).answer = .ok text →
          ∃ node, path.resolve shell.session.root = some node ∧
            let fields := node.listed shell.session.view.registry path
            text = Text.join "\n" (fields.map Listed.text) ∧
              ∀ listed ∈ fields, listed.Usable shell.session.root := by
  obtain ⟨session, opened, runs⟩ := Shell.sound_of_parseProgram parsed width
  refine ⟨session, opened, fun debug entries => ?_⟩
  intro shell
  have navigable : shell.session.root.Navigable := (runs debug entries).navigable parsed counted
  constructor
  · intro line read
    obtain ⟨next, answer⟩ := shell.executeLine_tree read
    refine ⟨answer, fun listed member => ?_⟩
    obtain ⟨row, among, rfl⟩ := List.mem_map.1 member
    rw [next]
    exact ⟨usable_row navigable among, Shell.toggles_row navigable among⟩
  · intro line path text read answer
    obtain ⟨node, there, same⟩ := Shell.executeLine_fields read answer
    exact ⟨node, there, same, usable_fields navigable _ there⟩

/-- The number is listed in the rows of the tree and among the fields of the call around it. -/
theorem usable_along_runs_call :
    let source := "f(a, 1)"
    let entries := [".toggle .", ".toggle body[0]", ".toggle body[0].expression"].map
      Shell.Entry.line
    let call : Path := [⟨"body", some 0⟩, ⟨"expression", none⟩]
    let number := call.element "arguments" 1
    ∃ tree session, parseProgram source = .ok tree ∧ source.length ≤ wordSize ∧
      Session.openSource 2 source = .ok session ∧
      let shell := (Shell.create session false).after entries
      let reply := shell.executeLine ".tree"
      Listed.node (Text.blanks 12) "NumericLiteral" " +  " number ∈
        shell.session.rows.1.map Row.listed ∧
      number.Usable reply.shell.session.root "NumericLiteral" ∧
      (∃ text, (reply.shell.executeLine (".toggle " ++ number.text)).answer = .ok text) ∧
      ∃ text node, (shell.executeLine ".fields body[0].expression").answer = .ok text ∧
        call.resolve shell.session.root = some node ∧
        text = Text.join "\n"
          ((node.listed shell.session.view.registry call).map Listed.text) ∧
        ∀ listed ∈ node.listed shell.session.view.registry call,
          listed.Usable shell.session.root := by
  intro source entries call number
  obtain ⟨tree, parsed⟩ : ∃ tree, parseProgram source = .ok tree :=
    exists_of_isOk (by decide +kernel)
  have counted : source.length ≤ wordSize := by decide +kernel
  obtain ⟨session, opened, runs⟩ := usable_along_runs parsed counted 2
  obtain ⟨rows, fields⟩ := runs false entries
  have ends : (Session.openSource 2 source).toOption.map (fun s =>
      let shell := (Shell.create s false).after entries
      (decide (Listed.node (Text.blanks 12) "NumericLiteral" " +  " number ∈
        shell.session.rows.1.map Row.listed),
        (shell.executeLine ".fields body[0].expression").answer.isOk)) = some (true, true) := by
    decide +kernel
  rw [opened] at ends
  obtain ⟨shown, answers⟩ := Prod.mk.inj (Option.some.inj ends)
  have among := of_decide_eq_true shown
  obtain ⟨usable, toggles⟩ := (rows ".tree" (by decide +kernel)).2 _ among
  obtain ⟨text, answer⟩ := exists_of_isOk answers
  obtain ⟨node, there, same, each⟩ :=
    fields ".fields body[0].expression" call text (by decide +kernel) answer
  exact ⟨tree, session, parsed, counted, opened, among, usable, toggles, text, node, answer, there,
    same, each⟩

end Arborist

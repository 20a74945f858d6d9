import Mathlib
import Arborist.Proofs.Node.Slots
import Arborist.Proofs.Script.Parts

/-!
What stands around a statement in the code. Each statement that holds another one writes it between
two texts that it makes without looking at it; only the lines at which the inner one began and ended
are looked at, for the blank lines around it. So whatever statement is put in the place of another,
at whatever depth, with the same lines, the code around it stays as it is.
-/

namespace Arborist.Script

open Decode (statement linesOf)

def statementCode (width depth : Nat) (node : Fields) : Except CompileError String :=
  (statement node).map (Stmt.text width depth)

theorem statementCode_eq_ok {width depth : Nat} {node : Fields} {code : String} :
    statementCode width depth node = .ok code ↔
      ∃ tree, statement node = .ok tree ∧ tree.text width depth = code :=
  Except.map_eq_ok

/-- The steps from a statement of some kind to a statement inside it, and how much deeper that one
stands. -/
inductive Enters : String → Step → Nat → Prop where
  | consequent : Enters "IfStatement" ⟨"consequent", none⟩ 0
  | alternate : Enters "IfStatement" ⟨"alternate", none⟩ 0
  | block (i : Nat) : Enters "BlockStatement" ⟨"body", some i⟩ 1
  | function : Enters "FunctionDeclaration" ⟨"body", none⟩ 0

/-- The path leads from a statement at some depth to the one that it is or has inside it, which
stands at the depth given last. -/
inductive Holds : Fields → Nat → Path → Fields → Nat → Prop where
  | here (node : Fields) (depth : Nat) : Holds node depth [] node depth
  | inside {node inner held : Fields} {depth deeper d : Nat} {step : Step} {path : Path}
      (enters : Enters node.kind step deeper)
      (leads : (step.value? node).bind Value.asNode? = some inner)
      (below : Holds inner (depth + deeper) path held d) : Holds node depth (step :: path) held d

def ProgramHolds (root : Fields) (path : Path) (held : Fields) (d : Nat) : Prop :=
  ∃ i first rest, path = ⟨"body", some i⟩ :: rest ∧
    ((⟨"body", some i⟩ : Step).value? root).bind Value.asNode? = some first ∧ Holds first 0 rest held d

/-- What `outer` writes of a node is what `inner` writes of the node that is held, between two texts.
They stay when another node is put in the place of that one, if it has its lines. -/
def Frames (outer inner : Fields → Except CompileError String) (node held : Fields)
    (put : Fields → Fields) : Prop :=
  ∀ code, outer node = .ok code → ∃ front part back, inner held = .ok part ∧
    code = front ++ part ++ back ∧ ∀ other : Fields, other.get? "loc" = held.get? "loc" →
      (∀ code', outer (put other) = .ok code' →
        ∃ part', inner other = .ok part' ∧ code' = front ++ part' ++ back) ∧
      (∀ part', other.kind = held.kind → inner other = .ok part' →
        outer (put other) = .ok (front ++ part' ++ back))

section Frames

variable {outer middle inner : Fields → Except CompileError String} {node between held : Fields}
  {put place : Fields → Fields}

theorem frames_self : Frames outer outer node node id := by
  intro code run
  refine ⟨"", code, "", run, by simp, ?_⟩
  intro other _
  constructor
  · intro code' run'
    exact ⟨code', run', by simp⟩
  · intro part' _ run'
    simpa using run'

theorem Frames.trans (frames : Frames outer middle node between put)
    (inside : Frames middle inner between held place)
    (lines : ∀ other : Fields, other.get? "loc" = held.get? "loc" →
      (place other).get? "loc" = between.get? "loc")
    (kinds : ∀ other : Fields, other.kind = held.kind → (place other).kind = between.kind) :
    Frames outer inner node held (put ∘ place) := by
  intro code run
  obtain ⟨front, part, back, runPart, rfl, rest⟩ := frames code run
  obtain ⟨front', part', back', runPart', rfl, rest'⟩ := inside part runPart
  refine ⟨front ++ front', part', back' ++ back, runPart', by simp [String.append_assoc], ?_⟩
  intro other same
  obtain ⟨read, wrote⟩ := rest (place other) (lines other same)
  obtain ⟨read', wrote'⟩ := rest' other same
  constructor
  · intro code' run'
    obtain ⟨next, runNext, rfl⟩ := read code' run'
    obtain ⟨last, runLast, rfl⟩ := read' next runNext
    exact ⟨last, runLast, by simp [String.append_assoc]⟩
  · intro last kind runLast
    have runNext := wrote' last kind runLast
    have done := wrote _ (kinds other kind) runNext
    simpa [String.append_assoc] using done

end Frames

section Text

variable (width depth : Nat)

theorem Stmt.listText_split (previous : Option Lines) (before behind : List (Stmt Lines))
    (note : Lines) : ∃ front back, ∀ s : Stmt Lines, s.note = note →
      listText width depth previous (before ++ s :: behind) = front ++ s.text width depth ++ back := by
  induction before generalizing previous with
  | nil =>
    cases previous with
    | none =>
      refine ⟨margin width depth, listText width depth (some note) behind, ?_⟩
      rintro s rfl
      simp [listText]
    | some lines =>
      refine ⟨(if lines.apart note then "\n\n" else "\n") ++ margin width depth,
        listText width depth (some note) behind, ?_⟩
      rintro s rfl
      simp [listText]
  | cons first rest ih =>
    obtain ⟨front, back, texts⟩ := ih (some first.note)
    refine ⟨listText width depth previous [first] ++ front, back, ?_⟩
    intro s same
    simp [listText, texts s same, String.append_assoc]

theorem Stmt.braced_split (before behind : List (Stmt Lines)) (note : Lines) :
    ∃ front back, ∀ s : Stmt Lines, s.note = note →
      braced width depth (before ++ s :: behind).isEmpty
        (listText width (depth + 1) none (before ++ s :: behind)) =
          front ++ s.text width (depth + 1) ++ back := by
  obtain ⟨front, back, texts⟩ := listText_split width (depth + 1) none before behind note
  refine ⟨"\x7b\n" ++ front, back ++ ("\n" ++ margin width depth ++ "\x7d"), ?_⟩
  intro s same
  have filled : (before ++ s :: behind).isEmpty = false := by simp
  rw [braced, filled, texts s same]
  simp [String.append_assoc]

end Text

section Steps

variable {width depth deeper : Nat} {node inner : Fields} {step : Step}

theorem frames_consequent (kind : node.kind = "IfStatement")
    (held : node.get? "consequent" = some (.object inner)) :
    Frames (statementCode width depth) (statementCode width depth) node inner
      fun other => node.insert "consequent" (.object other) := by
  intro code run
  obtain ⟨tree, read, rfl⟩ := statementCode_eq_ok.1 run
  obtain ⟨test, first, last, readTest, ⟨inner', held', -, readInner⟩, readLast, rfl⟩ :=
    (Decode.branch_iff kind).1 read
  obtain rfl : inner = inner' := by simpa [held] using held'
  refine ⟨_, _, _, statementCode_eq_ok.2 ⟨first, readInner, rfl⟩, Stmt.text.eq_7 .., ?_⟩
  intro other _
  have kind' : (node.insert "consequent" (.object other)).kind = "IfStatement" :=
    (Fields.kind_insert_of_ne node _ (by decide)).trans kind
  have sameTest := Fields.get?_insert_of_ne node (.object other) (by decide : "test" ≠ "consequent")
  have sameLast := Fields.get?_insert_of_ne node (.object other) (by decide : "alternate" ≠ "consequent")
  constructor
  · intro code' run'
    obtain ⟨tree', read', rfl⟩ := statementCode_eq_ok.1 run'
    obtain ⟨test', first', last', readTest', ⟨next, held', -, readNext⟩, readLast', rfl⟩ :=
      (Decode.branch_iff kind').1 read'
    rw [Decode.readsChild_congr sameTest] at readTest'
    rw [Decode.readsOptional_congr sameLast] at readLast'
    rw [readTest.eq readTest', readLast.eq readLast']
    rw [Fields.get?_insert_self] at held'
    cases held'
    exact ⟨_, statementCode_eq_ok.2 ⟨first', readNext, rfl⟩, Stmt.text.eq_7 ..⟩
  · intro part' _ run'
    obtain ⟨first', readNext, rfl⟩ := statementCode_eq_ok.1 run'
    refine statementCode_eq_ok.2 ⟨.branch _ test first' last, (Decode.branch_iff kind').2
      ⟨test, first', last, ?_, ?_, ?_, rfl⟩, Stmt.text.eq_7 ..⟩
    · rw [Decode.readsChild_congr sameTest]
      exact readTest
    · exact ⟨other, Fields.get?_insert_self .., Decode.isNode_of_statement readNext, readNext⟩
    · rw [Decode.readsOptional_congr sameLast]
      exact readLast

theorem frames_alternate (kind : node.kind = "IfStatement")
    (held : node.get? "alternate" = some (.object inner)) :
    Frames (statementCode width depth) (statementCode width depth) node inner
      fun other => node.insert "alternate" (.object other) := by
  have written : ∀ {note test first last}, (Stmt.branch note test first (some last)).text width depth =
      "if " ++ parenthesized (test.textAt Level.sequence) ++ " " ++ first.text width depth ++ " else " ++
        last.text width depth ++ "" := by
    intro note test first last
    simp [Stmt.text, Stmt.elseText, String.append_assoc]
  intro code run
  obtain ⟨tree, read, rfl⟩ := statementCode_eq_ok.1 run
  obtain ⟨test, first, last, readTest, readFirst, readLast, rfl⟩ := (Decode.branch_iff kind).1 read
  cases last with
  | none => rcases readLast with missing | null <;> simp_all
  | some last =>
    obtain ⟨inner', held', -, readInner⟩ := readLast
    obtain rfl : inner = inner' := by simpa [held] using held'
    refine ⟨_, _, _, statementCode_eq_ok.2 ⟨last, readInner, rfl⟩, written, ?_⟩
    intro other _
    have kind' : (node.insert "alternate" (.object other)).kind = "IfStatement" :=
      (Fields.kind_insert_of_ne node _ (by decide)).trans kind
    have sameTest := Fields.get?_insert_of_ne node (.object other) (by decide : "test" ≠ "alternate")
    have sameFirst :=
      Fields.get?_insert_of_ne node (.object other) (by decide : "consequent" ≠ "alternate")
    constructor
    · intro code' run'
      obtain ⟨tree', read', rfl⟩ := statementCode_eq_ok.1 run'
      obtain ⟨test', first', last', readTest', readFirst', readLast', rfl⟩ :=
        (Decode.branch_iff kind').1 read'
      rw [Decode.readsChild_congr sameTest] at readTest'
      rw [Decode.readsChild_congr sameFirst] at readFirst'
      rw [readTest.eq readTest', readFirst.eq readFirst']
      cases last' with
      | none => simp [Decode.ReadsOptional] at readLast'
      | some last' =>
        obtain ⟨next, held', -, readNext⟩ := readLast'
        rw [Fields.get?_insert_self] at held'
        cases held'
        exact ⟨_, statementCode_eq_ok.2 ⟨last', readNext, rfl⟩, written⟩
    · intro part' _ run'
      obtain ⟨last', readNext, rfl⟩ := statementCode_eq_ok.1 run'
      refine statementCode_eq_ok.2 ⟨.branch _ test first (some last'), (Decode.branch_iff kind').2
        ⟨test, first, some last', ?_, ?_, ?_, rfl⟩, written⟩
      · rw [Decode.readsChild_congr sameTest]
        exact readTest
      · rw [Decode.readsChild_congr sameFirst]
        exact readFirst
      · exact ⟨other, Fields.get?_insert_self .., Decode.isNode_of_statement readNext, readNext⟩

theorem frames_function (kind : node.kind = "FunctionDeclaration")
    (held : node.get? "body" = some (.object inner)) :
    Frames (statementCode width depth) (statementCode width depth) node inner
      fun other => node.insert "body" (.object other) := by
  have written : ∀ {note head place body}, (Stmt.function note head place body).text width depth =
      head.text ++ " " ++ (Stmt.block place body).text width depth ++ "" := by
    intro note head place body
    rw [String.append_empty]
    rfl
  intro code run
  obtain ⟨tree, read, rfl⟩ := statementCode_eq_ok.1 run
  obtain ⟨head, inner', body, runHead, held', -, block, readInner, rfl⟩ :=
    (Decode.function_iff kind).1 read
  obtain rfl : inner = inner' := by simpa [held] using held'
  refine ⟨_, _, _, statementCode_eq_ok.2 ⟨_, readInner, rfl⟩, written, ?_⟩
  intro other _
  have kind' : (node.insert "body" (.object other)).kind = "FunctionDeclaration" :=
    (Fields.kind_insert_of_ne node _ (by decide)).trans kind
  have sameHead : ∀ head', Decode.functionHead (node.insert "body" (.object other)) = .ok head' ↔
      Decode.functionHead node = .ok head' := fun head' =>
    Decode.functionHead_congr (kind'.trans kind.symm) fun field apart =>
      Fields.get?_insert_of_ne node _ apart
  constructor
  · intro code' run'
    obtain ⟨tree', read', rfl⟩ := statementCode_eq_ok.1 run'
    obtain ⟨head', next, body', runHead', held', -, -, readNext, rfl⟩ :=
      (Decode.function_iff kind').1 read'
    rw [sameHead, runHead] at runHead'
    cases runHead'
    rw [Fields.get?_insert_self] at held'
    cases held'
    exact ⟨_, statementCode_eq_ok.2 ⟨_, readNext, rfl⟩, written⟩
  · intro part' same run'
    have block' : other.kind = "BlockStatement" := same.trans block
    obtain ⟨tree', readNext, rfl⟩ := statementCode_eq_ok.1 run'
    obtain ⟨body', -, rfl⟩ := (Decode.block_iff block').1 readNext
    exact statementCode_eq_ok.2 ⟨_, (Decode.function_iff kind').2 ⟨head, other, body',
      (sameHead head).2 runHead, Fields.get?_insert_self .., Decode.isNode_of_statement readNext,
      block', readNext, rfl⟩, written⟩

theorem frames_list {outer : Fields → Except CompileError String} {kind : String}
    (text : List (Stmt Lines) → String) {d i : Nat}
    (outer_iff : ∀ {program code}, Fields.kind program = kind → (outer program = .ok code ↔
      ∃ body, Decode.ReadsChildren statement program "body" body ∧ text body = code))
    (split : ∀ before behind note, ∃ front back, ∀ s : Stmt Lines, s.note = note →
      text (before ++ s :: behind) = front ++ s.text width d ++ back)
    (same : node.kind = kind)
    (leads : ((⟨"body", some i⟩ : Step).value? node).bind Value.asNode? = some inner) :
    Frames outer (statementCode width d) node inner
      fun other => (⟨"body", some i⟩ : Step).replace node (.object other) := by
  obtain ⟨items, held, place⟩ : ∃ items, node.get? "body" = some (.list items) ∧
      items[i]? = some (.object inner) := by
    rcases Step.get?_of_leads leads with ⟨index, -⟩ | ⟨j, items, index, found⟩
    · cases index
    · cases index
      exact ⟨items, found⟩
  have replaced : ∀ other, (⟨"body", some i⟩ : Step).replace node (.object other) =
      node.insert "body" (.list (items.set i (.object other))) := by
    intro other
    simp only [Step.replace, held]
  intro code run
  obtain ⟨body, reads, rfl⟩ := (outer_iff same).1 run
  obtain ⟨before, s, behind, rfl, readInner, set⟩ := reads.set held place
  obtain ⟨front, back, texts⟩ := split before behind (linesOf inner)
  refine ⟨front, _, back, statementCode_eq_ok.2 ⟨s, readInner, rfl⟩,
    texts s (Decode.note_of_statement readInner), ?_⟩
  intro other lines
  have note : ∀ {t}, statement other = .ok t → t.note = linesOf inner := fun readNext =>
    (Decode.note_of_statement readNext).trans (Decode.linesOf_congr lines)
  have same' : ((⟨"body", some i⟩ : Step).replace node (.object other)).kind = kind :=
    (Step.kind_replace leads other).trans same
  have reads_iff := set other
  rw [← replaced other] at reads_iff
  constructor
  · intro code' run'
    obtain ⟨body', reads', rfl⟩ := (outer_iff same').1 run'
    obtain ⟨-, s', readNext, rfl⟩ := (reads_iff body').1 reads'
    exact ⟨_, statementCode_eq_ok.2 ⟨s', readNext, rfl⟩, texts s' (note readNext)⟩
  · intro part' _ run'
    obtain ⟨s', readNext, rfl⟩ := statementCode_eq_ok.1 run'
    have reads' := (reads_iff _).2 ⟨Decode.isNode_of_statement readNext, s', readNext, rfl⟩
    exact (outer_iff same').2 ⟨_, reads', texts s' (note readNext)⟩

theorem frames_block (kind : node.kind = "BlockStatement") {i : Nat}
    (leads : ((⟨"body", some i⟩ : Step).value? node).bind Value.asNode? = some inner) :
    Frames (statementCode width depth) (statementCode width (depth + 1)) node inner
      fun other => (⟨"body", some i⟩ : Step).replace node (.object other) := by
  refine frames_list (fun body => braced width depth body.isEmpty
    (Stmt.listText width (depth + 1) none body)) ?_ (Stmt.braced_split width depth) kind leads
  intro program code same
  rw [statementCode_eq_ok]
  constructor
  · rintro ⟨tree, read, rfl⟩
    obtain ⟨body, reads, rfl⟩ := (Decode.block_iff same).1 read
    exact ⟨body, reads, rfl⟩
  · rintro ⟨body, reads, rfl⟩
    exact ⟨_, (Decode.block_iff same).2 ⟨body, reads, rfl⟩, rfl⟩

theorem frames_program (kind : node.kind = "Program") {i : Nat}
    (leads : ((⟨"body", some i⟩ : Step).value? node).bind Value.asNode? = some inner) :
    Frames (compile width) (statementCode width 0) node inner
      fun other => (⟨"body", some i⟩ : Step).replace node (.object other) := by
  refine frames_list (programText width) ?_ (Stmt.listText_split width 0 none) kind leads
  intro program code same
  unfold compile Decode.root Decode.body
  simp only [same]
  rw [Except.map_eq_ok]
  simp only [Decode.readsChildren_iff, Except.bind_eq_ok]

theorem frames_step (enters : Enters node.kind step deeper)
    (leads : (step.value? node).bind Value.asNode? = some inner) :
    Frames (statementCode width depth) (statementCode width (depth + deeper)) node inner
      fun other => step.replace node (.object other) := by
  generalize kind : node.kind = name at enters
  rcases Step.get?_of_leads leads with ⟨index, held⟩ | ⟨j, items, index, -⟩
  · cases enters with
    | consequent => exact frames_consequent kind held
    | alternate => exact frames_alternate kind held
    | block i => cases index
    | function => exact frames_function kind held
  · cases enters with
    | block i => exact frames_block kind leads
    | _ => cases index

end Steps

section Runs

variable {width depth d : Nat} {node held : Fields} {path : Path}

theorem Holds.frames (holds : Holds node depth path held d) : ∃ put : Fields → Fields,
    (∀ other, path.modify? (fun _ => other) node = some (put other)) ∧
    (∀ other : Fields, other.get? "loc" = held.get? "loc" → (put other).get? "loc" = node.get? "loc") ∧
    (∀ other : Fields, other.kind = held.kind → (put other).kind = node.kind) ∧
    Frames (statementCode width depth) (statementCode width d) node held put := by
  induction holds with
  | here node depth => exact ⟨id, fun _ => rfl, fun _ => id, fun _ => id, frames_self⟩
  | @inside node inner held depth deeper d step path enters leads below ih =>
    obtain ⟨put, done, lines, kinds, frames⟩ := ih
    refine ⟨(fun other => step.replace node (.object other)) ∘ put, ?_, ?_, ?_,
      (frames_step enters leads).trans frames lines kinds⟩
    · intro other
      simp only [Path.modify?, leads, done, Option.map_some, Function.comp_apply]
    · intro other _
      have apart : "loc" ≠ step.field := by
        generalize node.kind = name at enters
        cases enters <;> simp
      exact Step.get?_replace_of_ne leads _ apart
    · intro other _
      exact Step.kind_replace leads _

theorem ProgramHolds.frames {root : Fields} (kind : root.kind = "Program")
    (holds : ProgramHolds root path held d) : ∃ put : Fields → Fields,
    (∀ other, path.modify? (fun _ => other) root = some (put other)) ∧
    Frames (compile width) (statementCode width d) root held put := by
  obtain ⟨i, first, rest, rfl, leads, below⟩ := holds
  obtain ⟨put, done, lines, kinds, frames⟩ := below.frames
  refine ⟨_, ?_, (frames_program kind leads).trans frames lines kinds⟩
  intro other
  simp only [Path.modify?, leads, done, Option.map_some, Function.comp_apply]

theorem Holds.resolve (holds : Holds node depth path held d) : path.resolve node = some held := by
  induction holds with
  | here => rfl
  | inside enters leads below ih => simp only [Path.resolve, leads, ih]

theorem ProgramHolds.resolve {root : Fields} (holds : ProgramHolds root path held d) :
    path.resolve root = some held := by
  obtain ⟨i, first, rest, rfl, leads, below⟩ := holds
  simp only [Path.resolve, leads, below.resolve]

end Runs

section Words

variable {width depth : Nat} {node : Fields} {code : String}

theorem code_declaration (kind : node.kind = "VariableDeclaration")
    (run : statementCode width depth node = .ok code) :
    ∃ (word : DeclarationKind) (rest : String), node.get? "kind" = some (.string word.text) ∧
      code = word.text ++ rest ∧ ∀ next : DeclarationKind,
        statementCode width depth (node.insert "kind" (.string next.text)) = .ok (next.text ++ rest) := by
  obtain ⟨tree, read, rfl⟩ := statementCode_eq_ok.1 run
  obtain ⟨word, list, held, reads, filled, rfl⟩ := (Decode.declaration_iff kind).1 read
  refine ⟨word, " " ++ commaSeparated (list.map Declarator.text) ++ ";", held, ?_, ?_⟩
  · simp only [Stmt.text, String.append_assoc]
  · intro next
    have kind' : (node.insert "kind" (.string next.text)).kind = "VariableDeclaration" :=
      (Fields.kind_insert_of_ne node _ (by decide)).trans kind
    have same := Fields.get?_insert_of_ne node (.string next.text) (by decide : "declarations" ≠ "kind")
    rw [← Decode.readsChildren_congr same] at reads
    refine statementCode_eq_ok.2 ⟨_, (Decode.declaration_iff kind').2 ⟨next, list,
      Fields.get?_insert_self .., reads, filled, rfl⟩, ?_⟩
    simp only [Stmt.text, String.append_assoc]

def asyncMark (flag : Bool) : String := if flag then "async " else ""

def starMark (flag : Bool) : String := if flag then "*" else ""

theorem flagField_of_bool {field : String} {flag : Bool} (held : node.get? field = some (.bool flag)) :
    Decode.flagField node field = .ok flag := by
  unfold Decode.flagField
  rw [held]

theorem code_function (kind : node.kind = "FunctionDeclaration")
    (run : statementCode width depth node = .ok code) :
    ∃ (isAsync isGenerator : Bool) (rest : String), Decode.flagField node "async" = .ok isAsync ∧
      Decode.flagField node "generator" = .ok isGenerator ∧
      code = asyncMark isAsync ++ "function" ++ starMark isGenerator ++ rest ∧
      (∀ flag, statementCode width depth (node.insert "async" (.bool flag)) =
        .ok (asyncMark flag ++ "function" ++ starMark isGenerator ++ rest)) ∧
      ∀ flag, statementCode width depth (node.insert "generator" (.bool flag)) =
        .ok (asyncMark isAsync ++ "function" ++ starMark flag ++ rest) := by
  obtain ⟨tree, read, rfl⟩ := statementCode_eq_ok.1 run
  obtain ⟨head, inner, body, runHead, held, -, block, readInner, rfl⟩ :=
    (Decode.function_iff kind).1 read
  obtain ⟨async, generator, name, parameters⟩ := Decode.functionHead_iff.1 runHead
  obtain ⟨rest, flagged⟩ : ∃ rest, ∀ {other : Fields} {isAsync isGenerator}, other.kind = node.kind →
      (∀ field ∉ ["async", "generator"], other.get? field = node.get? field) →
      Decode.flagField other "async" = .ok isAsync →
      Decode.flagField other "generator" = .ok isGenerator →
      statementCode width depth other =
        .ok (asyncMark isAsync ++ "function" ++ starMark isGenerator ++ rest) := by
    refine ⟨" " ++ head.name.textAt Level.primary ++
      parenthesized (commaSeparated (Expr.writeList head.parameters)) ++ " " ++
      (Stmt.block (linesOf inner) body).text width depth, ?_⟩
    intro other isAsync isGenerator sameKind same async' generator'
    rw [← Decode.readsChild_congr (same "id" (by decide))] at name
    rw [← Decode.readsChildren_congr (same "params" (by decide))] at parameters
    have head' : Decode.functionHead other = .ok { head with isAsync, isGenerator } :=
      Decode.functionHead_iff.2 ⟨async', generator', name, parameters⟩
    have held' : other.get? "body" = some (.object inner) := (same "body" (by decide)).trans held
    refine statementCode_eq_ok.2 ⟨_, (Decode.function_iff (sameKind.trans kind)).2 ⟨_, inner, body,
      head', held', Decode.isNode_of_statement readInner, block, readInner, rfl⟩, ?_⟩
    simp only [Stmt.text, FunctionHead.text, asyncMark, starMark, String.append_assoc]
  refine ⟨head.isAsync, head.isGenerator, rest, async, generator, ?_, ?_, ?_⟩
  · have written := flagged rfl (fun _ _ => rfl) async generator
    rw [run] at written
    exact Except.ok.inj written
  · intro flag
    have sameGenerator := Fields.get?_insert_of_ne node (.bool flag) (by decide : "generator" ≠ "async")
    have sameKind := Fields.kind_insert_of_ne node (.bool flag) (by decide : "async" ≠ "type")
    apply flagged sameKind
    · intro field other
      exact Fields.get?_insert_of_ne node _ fun same => other (by simp [same])
    · exact flagField_of_bool (Fields.get?_insert_self ..)
    · rw [Decode.flagField_congr sameGenerator sameKind, generator]
  · intro flag
    have sameAsync := Fields.get?_insert_of_ne node (.bool flag) (by decide : "async" ≠ "generator")
    have sameKind := Fields.kind_insert_of_ne node (.bool flag) (by decide : "generator" ≠ "type")
    apply flagged sameKind
    · intro field other
      exact Fields.get?_insert_of_ne node _ fun same => other (by simp [same])
    · rw [Decode.flagField_congr sameAsync sameKind, async]
    · exact flagField_of_bool (Fields.get?_insert_self ..)

end Words

/-- For a program that has code, a statement of it at whatever depth has code of its own, which stands
between two texts that stay whatever statement with the same lines is put in its place, if the program
has code then. Another keyword for a declaration changes the keyword only; the words for the flags of a
function come and go with the flags, and nothing else changes. -/
theorem compile_around_statement {width d : Nat} {root held : Fields} {path : Path} {before : String}
    (kind : root.kind = "Program") (compiled : compile width root = .ok before)
    (holds : ProgramHolds root path held d) :
    ∃ front part back, statementCode width d held = .ok part ∧ before = front ++ part ++ back ∧
      (∀ (other changed : Fields) (after : String), other.get? "loc" = held.get? "loc" →
        path.modify? (fun _ => other) root = some changed → compile width changed = .ok after →
        ∃ part', statementCode width d other = .ok part' ∧ after = front ++ part' ++ back) ∧
      (held.kind = "VariableDeclaration" → ∃ (word : DeclarationKind) (rest : String),
        held.get? "kind" = some (.string word.text) ∧ part = word.text ++ rest ∧
        ∀ next : DeclarationKind, ∃ changed,
          (⟨path, "kind"⟩ : Target).write? (.string next.text) root = some changed ∧
          compile width changed = .ok (front ++ (next.text ++ rest) ++ back)) ∧
      (held.kind = "FunctionDeclaration" → ∃ (isAsync isGenerator : Bool) (rest : String),
        Decode.flagField held "async" = .ok isAsync ∧
        Decode.flagField held "generator" = .ok isGenerator ∧
        part = asyncMark isAsync ++ "function" ++ starMark isGenerator ++ rest ∧
        (∀ flag, ∃ changed, (⟨path, "async"⟩ : Target).write? (.bool flag) root = some changed ∧
          compile width changed =
            .ok (front ++ (asyncMark flag ++ "function" ++ starMark isGenerator ++ rest) ++ back)) ∧
        ∀ flag, ∃ changed, (⟨path, "generator"⟩ : Target).write? (.bool flag) root = some changed ∧
          compile width changed =
            .ok (front ++ (asyncMark isAsync ++ "function" ++ starMark flag ++ rest) ++ back)) := by
  obtain ⟨put, done, frames⟩ := holds.frames kind
  obtain ⟨front, part, back, run, rfl, around⟩ := frames before compiled
  have written : ∀ {field : String} {value : Value} {part'}, field ≠ "loc" → field ≠ "type" →
      statementCode width d (held.insert field value) = .ok part' →
      ∃ changed, (⟨path, field⟩ : Target).write? value root = some changed ∧
        compile width changed = .ok (front ++ part' ++ back) := by
    intro field value part' apart typed run'
    refine ⟨put (held.insert field value), ?_, ?_⟩
    · rw [Target.write?_eq, Path.modify?_eq_bind, holds.resolve, Option.bind_some, done]
    · have lines := Fields.get?_insert_of_ne held value (Ne.symm apart)
      exact (around _ lines).2 part' (Fields.kind_insert_of_ne held value typed) run'
  refine ⟨front, part, back, run, rfl, ?_, ?_, ?_⟩
  · intro other changed after lines put' compiled'
    rw [done, Option.some.injEq] at put'
    subst put'
    exact (around other lines).1 after compiled'
  · intro declares
    obtain ⟨word, rest, spelled, same, others⟩ := code_declaration declares run
    exact ⟨word, rest, spelled, same, fun next => written (by decide) (by decide) (others next)⟩
  · intro function
    obtain ⟨isAsync, isGenerator, rest, async, generator, same, asyncs, generators⟩ :=
      code_function function run
    exact ⟨isAsync, isGenerator, rest, async, generator, same,
      fun flag => written (by decide) (by decide) (asyncs flag),
      fun flag => written (by decide) (by decide) (generators flag)⟩

theorem compile_around_statement_inner :
    let name : String → Value := fun text =>
      .object [("type", .string "Identifier"), ("name", .string text)]
    let declared : Fields := [("type", .string "VariableDeclaration"), ("kind", .string "let"),
      ("declarations", .list [.object [("type", .string "VariableDeclarator"), ("id", name "a")]])]
    let block : Fields := [("type", .string "BlockStatement"), ("body", .list [.object declared])]
    let function : Fields := [("type", .string "FunctionDeclaration"), ("id", name "f"),
      ("params", .list []), ("body", .object block)]
    let root : Fields := [("type", .string "Program"), ("body", .list [.object function])]
    let path : Path := [⟨"body", some 0⟩, ⟨"body", none⟩, ⟨"body", some 0⟩]
    ∃ front rest back, "function f() \x7b\n  let a;\n\x7d" = front ++ ("let" ++ rest) ++ back ∧
      ∃ changed, (⟨path, "kind"⟩ : Target).write? (.string "const") root = some changed ∧
        compile 2 changed = .ok (front ++ ("const" ++ rest) ++ back) := by
  intro name declared block function root path
  have compiled : compile 2 root = .ok "function f() \x7b\n  let a;\n\x7d" := by decide +kernel
  have inBlock : Holds block 0 [⟨"body", some 0⟩] declared 1 := .inside (.block 0) rfl (.here ..)
  have inFunction : Holds function 0 [⟨"body", none⟩, ⟨"body", some 0⟩] declared 1 :=
    .inside .function rfl inBlock
  have holds : ProgramHolds root path declared 1 := ⟨0, function, _, rfl, rfl, inFunction⟩
  obtain ⟨front, part, back, -, same, -, declares, -⟩ :=
    compile_around_statement (by decide +kernel) compiled holds
  obtain ⟨word, rest, held, rfl, others⟩ := declares (by decide +kernel)
  obtain rfl : word = .asLet := by
    have spelled : declared.get? "kind" = some (.string "let") := rfl
    rw [spelled] at held
    cases word with
    | asLet => rfl
    | asVar => simp [DeclarationKind.text] at held
    | asConst => simp [DeclarationKind.text] at held
  exact ⟨front, rest, back, same, others .asConst⟩

end Arborist.Script

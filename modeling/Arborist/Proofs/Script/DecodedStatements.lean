import Mathlib
import Arborist.Proofs.Script.Decoded
import Arborist.Proofs.Script.Neighbours
import Arborist.Proofs.Script.PrintedStatements

/-!
Encoded statements and programs are read back, whatever was written over their registered fields,
with the lines at which they stood.
-/

namespace Arborist.Script

open Value (Allowance Varies VariesItems VariesFields)

variable {allows : Allowance} {lines : LineIndex}

section Option

theorem readOption_of_varies (registered : allows.Registered) {entry : Option (Expr Place)}
    {value : Value} (varies : Varies allows (Expr.encodeOption lines entry) value)
    {kind key : String} {fields node : Fields} (framed : Framed kind fields node)
    (own : key ∉ frameKeys) (held : fields.get? key = some value) :
    ∃ inner tree, Decode.optionalChild node key = .ok inner ∧
      (inner = none ∧ tree = none ∨
        ∃ child next, inner = some child ∧ tree = some next ∧ Decode.expression child.1 = .ok next) ∧
      Expr.EditedOption allows entry tree ∧
      value.trim false = Expr.outlineOption false tree := by
  cases entry with
  | none =>
    obtain rfl : value = .null := varies
    exact ⟨none, none, Decode.optionalChild_eq_none (framed.field own held), .inl ⟨rfl, rfl⟩, rfl, rfl⟩
  | some e =>
    obtain ⟨child, tree, read⟩ := Expr.decodes registered lines e varies
    rw [read.shape] at held
    obtain ⟨less, run⟩ := Decode.optionalChild_eq_some (framed.field own held) read.isNode
    exact ⟨some ⟨child, less⟩, some tree, run, .inr ⟨⟨child, less⟩, tree, rfl, rfl, read.read⟩,
      ⟨tree, rfl, read.edited⟩, read.trimmed⟩

end Option

section Parts

variable (registered : allows.Registered)

include registered

theorem readDeclarator_of_varies {d : Declarator Place} {value : Value}
    (varies : Varies allows (d.encode lines) value) :
    ∃ node tree, ReadAs Decode.declarator (Declarator.Edited allows) (Declarator.outline false) d
      value node tree := by
  obtain ⟨node, others, rfl, framed, a, _, rfl, sameTarget, b, _, rfl, sameValue, rfl⟩ :=
    framed_of_plainNode registered varies
  obtain ⟨inner, target, readTarget⟩ :=
    Expr.decodes registered lines d.target (registered.varies rfl sameTarget)
  obtain ⟨less, runTarget⟩ := readTarget.child framed (by decide : "id" ∉ frameKeys) rfl
  obtain ⟨entry, next, runValue, shape, edited, trimmed⟩ := readOption_of_varies registered
    (registered.varies rfl sameValue) framed (by decide : "init" ∉ frameKeys) rfl
  refine ⟨node, ⟨Decode.linesOf node, target, next⟩, rfl, framed.isNode, ?_,
    ⟨readTarget.edited, edited⟩, ?_⟩
  · unfold Decode.declarator
    rcases shape with ⟨rfl, rfl⟩ | ⟨child, tree, rfl, rfl, run⟩
    · simp only [framed.kind_eq, if_true, runTarget, readTarget.read, runValue, Decode.ok_bind]
      rfl
    · simp only [framed.kind_eq, if_true, runTarget, readTarget.read, runValue, run, Decode.ok_bind]
      rfl
  · rw [framed.trim (by simp [frameKeys])]
    simp only [mapNodesFields_trim_cons, readTarget.trimmed, trimmed]
    rfl

theorem kept_flag {field : String} {flag : Bool} {other : Value}
    (toggled : Registry.builtinInput? "FunctionDeclaration" field = some .toggle)
    (same : (Value.bool flag).Varies allows other ∨
      allows "FunctionDeclaration" field (.bool flag) other) :
    ∃ next, other = .bool next ∧ Kept allows "FunctionDeclaration" field (.bool flag) (.bool next) := by
  rcases same with same | written
  · exact ⟨flag, same, .inl rfl⟩
  · obtain ⟨input, found, takes⟩ := registered.input written
    rw [toggled] at found
    cases found
    obtain ⟨next, rfl⟩ := takes
    exact ⟨next, rfl, .inr written⟩

theorem kept_kind {kind : DeclarationKind} {other : Value}
    (same : (textValue kind.text).Varies allows other ∨
      allows "VariableDeclaration" "kind" (.string kind.text) other) :
    ∃ next : DeclarationKind, other = .string next.text ∧
      Kept allows "VariableDeclaration" "kind" (.string kind.text) (.string next.text) := by
  rcases same with same | written
  · exact ⟨kind, same, .inl rfl⟩
  · obtain ⟨input, found, takes⟩ := registered.input written
    cases found
    obtain ⟨text, offered, rfl⟩ := takes
    obtain ⟨next, rfl⟩ := exists_declarationKind offered
    exact ⟨next, rfl, .inr written⟩

end Parts

structure Stmt.EditedAt (allows : Allowance) (lines : LineIndex) (s : Stmt Place)
    (tree : Stmt Lines) : Prop where
  edited : s.Edited allows tree
  noted : s.Noted (Place.lines lines) tree

theorem editedList_of_at {body : List (Stmt Place)} {trees : List (Stmt Lines)}
    (read : List.Forall₂ (Stmt.EditedAt allows lines) body trees) :
    Stmt.EditedList allows body trees ∧ List.Forall₂ (Stmt.Noted (Place.lines lines)) body trees :=
  ⟨Stmt.editedList_iff.mpr (read.imp fun _ _ => Stmt.EditedAt.edited),
    read.imp fun _ _ => Stmt.EditedAt.noted⟩

abbrev ReadStmt (allows : Allowance) (lines : LineIndex) :
    Stmt Place → Value → Fields → Stmt Lines → Prop :=
  ReadAs Decode.statement (Stmt.EditedAt allows lines) (Stmt.outline false)

def Stmt.Decodes (allows : Allowance) (lines : LineIndex) (s : Stmt Place) : Prop :=
  ∀ {value}, Varies allows (s.encode lines) value →
    ∃ node tree, ReadStmt allows lines s value node tree

section Statements

variable (registered : allows.Registered) {place : Place} {body : List (Stmt Place)}

theorem readStmts_of_varies (members : ∀ s ∈ body, s.Decodes allows lines) {values : List Value}
    (varies : VariesItems allows (Stmt.encodeList lines body) values) :
    ∃ nodes trees, ReadAll Decode.statement (Stmt.EditedAt allows lines) (Stmt.outline false) body
      values nodes trees := by
  rw [Stmt.encodeList_eq_map] at varies
  exact readAll_of_varies members varies

include registered

theorem decodes_declaration {kind : DeclarationKind} {list : List (Declarator Place)}
    (some : list ≠ []) : (Stmt.declaration place kind list).Decodes allows lines := by
  intro value varies
  obtain ⟨node, others, rfl, framed, a, _, rfl, sameList, b, _, rfl, sameKind, rfl⟩ :=
    framed_of_plainNode registered varies
  have note := linesOf_of_plainNode registered varies
  obtain ⟨values, rfl, items⟩ := registered.varies rfl sameList
  obtain ⟨next, rfl, kept⟩ := kept_kind registered sameKind
  obtain ⟨nodes, trees, reads⟩ := readAll_of_varies
    (fun d _ => readDeclarator_of_varies registered) items
  obtain ⟨inners, run, length, runs⟩ :=
    reads.children framed (by decide : "declarations" ∉ frameKeys) rfl
  have filled : inners.isEmpty = false := by
    rw [List.isEmpty_eq_false_iff_exists_mem, ← List.length_pos_iff_exists_mem, length]
    exact List.length_pos_iff.mpr some
  refine ⟨node, .declaration (Decode.linesOf node) next trees, rfl, framed.isNode, ?_,
    ⟨⟨_, next, trees, rfl, kept, reads.edited⟩, note, rfl⟩, ?_⟩
  · rw [Decode.statement]
    simp only [framed.kind_eq, Decode.declaration, Decode.stringField, run, runs, filled,
      framed.field (by decide : "kind" ∉ frameKeys) rfl, Decode.ok_bind,
      DeclarationKind.ofText?_text, Bool.false_eq_true, if_false]
    rfl
  · rw [framed.trim (by simp [frameKeys])]
    simp only [mapNodesFields_trim_cons, reads.trim_list, Stmt.outline]
    rfl

theorem readBlock_of_varies (members : ∀ s ∈ body, s.Decodes allows lines) {value : Value}
    (varies : Varies allows (blockNode lines place (Stmt.encodeList lines body)) value) :
    ∃ (node : Fields) (trees : List (Stmt Lines)) (inners : List (Decode.Inner node)),
      value = .object node ∧ node.isNode = true ∧
      node.kind = "BlockStatement" ∧ Decode.blockChildren node = .ok inners ∧
      inners.mapM (fun inner => Decode.statement inner.1) = .ok trees ∧
      Stmt.EditedList allows body trees ∧
      value.trim false = blockOutline (Stmt.outlineList false trees) ∧
      Decode.linesOf node = place.lines lines ∧
      Stmt.pairsList none trees =
        (Stmt.pairsList none body).map (Prod.map (Place.lines lines) (Place.lines lines)) := by
  obtain ⟨node, others, rfl, framed, a, _, rfl, sameBody, b, _, rfl, sameRest, rfl⟩ :=
    framed_of_plainNode registered varies
  have note := linesOf_of_plainNode registered varies
  obtain ⟨values, rfl, items⟩ := registered.varies rfl sameBody
  obtain ⟨_, rfl, rfl⟩ := registered.varies rfl sameRest
  obtain ⟨nodes, trees, reads⟩ := readStmts_of_varies members items
  obtain ⟨inners, run, -, runs⟩ := reads.children framed (by decide : "body" ∉ frameKeys) rfl
  obtain ⟨edited, noted⟩ := editedList_of_at reads.edited
  refine ⟨node, trees, inners, rfl, framed.isNode, framed.kind_eq, ?_, runs, edited, ?_, note,
    Stmt.pairsList_noted noted none⟩
  · rw [Decode.blockChildren, if_pos framed.kind_eq, run]
  · rw [framed.trim (by simp [frameKeys])]
    simp only [mapNodesFields_trim_cons, reads.trim_list, blockOutline, Stmt.outlineList_eq_map]
    rfl

theorem decodes_block (members : ∀ s ∈ body, s.Decodes allows lines) :
    (Stmt.block place body).Decodes allows lines := by
  intro value varies
  obtain ⟨node, trees, inners, rfl, isNode, kind, run, runs, edited, trimmed, note, pairs⟩ :=
    readBlock_of_varies registered members varies
  refine ⟨node, .block (Decode.linesOf node) trees, rfl, isNode, ?_,
    ⟨⟨_, trees, rfl, edited⟩, note, pairs⟩, trimmed⟩
  rw [Decode.statement]
  simp only [kind, run, runs, Decode.ok_bind]
  rfl

theorem decodes_function {head : FunctionHead Place} {block : Place}
    (members : ∀ s ∈ body, s.Decodes allows lines) :
    (Stmt.function place head block body).Decodes allows lines := by
  intro value varies
  obtain ⟨node, others, rfl, framed, a, _, rfl, sameName, b, _, rfl, sameGenerator, d, _, rfl,
    sameAsync, f, _, rfl, sameList, g, _, rfl, sameBody, rfl⟩ := framed_of_plainNode registered varies
  have note := linesOf_of_plainNode registered varies
  obtain ⟨isGenerator, rfl, keptGenerator⟩ := kept_flag registered rfl sameGenerator
  obtain ⟨isAsync, rfl, keptAsync⟩ := kept_flag registered rfl sameAsync
  obtain ⟨values, rfl, items⟩ := registered.varies rfl sameList
  obtain ⟨nameNode, name, readName⟩ :=
    Expr.decodes registered lines head.name (registered.varies rfl sameName)
  obtain ⟨nodes, parameters, reads⟩ :=
    readList_of_varies (fun e _ => Expr.decodes registered lines e) items
  obtain ⟨inner, trees, inners, rfl, isNode, kind, run, runs, edited, trimmed, -, pairs⟩ :=
    readBlock_of_varies registered members (registered.varies rfl sameBody)
  obtain ⟨lessName, runName⟩ := readName.child framed (by decide : "id" ∉ frameKeys) rfl
  obtain ⟨lessBlock, runBlock⟩ := framed.child (by decide : "body" ∉ frameKeys) rfl isNode
  obtain ⟨list, runList, -, runsList⟩ := reads.children framed (by decide : "params" ∉ frameKeys) rfl
  refine ⟨node, .function (Decode.linesOf node) ⟨isAsync, isGenerator, name, parameters⟩
    (Decode.linesOf inner) trees, rfl, framed.isNode, ?_, ⟨⟨_, _, _, trees, rfl, ⟨keptAsync,
      keptGenerator, readName.edited, Expr.editedList_iff.mpr reads.edited⟩, edited⟩, note, pairs⟩, ?_⟩
  · rw [Decode.statement]
    simp only [framed.kind_eq, Decode.functionHead, Decode.flagField,
      framed.field (by decide : "async" ∉ frameKeys) rfl,
      framed.field (by decide : "generator" ∉ frameKeys) rfl, runName, readName.read, runList,
      runsList, runBlock, run, runs, Decode.ok_bind]
    rfl
  · rw [framed.trim (by simp [frameKeys])]
    simp only [mapNodesFields_trim_cons, readName.trimmed, reads.trim_list, trimmed, Stmt.outline,
      Expr.outlineList_eq_map]
    rfl

theorem decodes_ret {argument : Option (Expr Place)} :
    (Stmt.ret place argument).Decodes allows lines := by
  intro value varies
  obtain ⟨node, others, rfl, framed, a, _, rfl, same, rfl⟩ := framed_of_plainNode registered varies
  obtain ⟨entry, next, run, shape, edited, trimmed⟩ := readOption_of_varies registered
    (registered.varies rfl same) framed (by decide : "argument" ∉ frameKeys) rfl
  have note := linesOf_of_plainNode registered varies
  refine ⟨node, .ret (Decode.linesOf node) next, rfl, framed.isNode, ?_,
    ⟨⟨_, next, rfl, edited⟩, note, rfl⟩, ?_⟩
  · rw [Decode.statement]
    rcases shape with ⟨rfl, rfl⟩ | ⟨child, tree, rfl, rfl, read⟩
    · simp only [framed.kind_eq, run, Decode.ok_bind]
      rfl
    · simp only [framed.kind_eq, run, read, Decode.ok_bind]
      rfl
  · rw [framed.trim (by simp [frameKeys])]
    simp only [mapNodesFields_trim_cons, trimmed]
    rfl

theorem decodes_expression {e : Expr Place} : (Stmt.expression place e).Decodes allows lines := by
  intro value varies
  obtain ⟨node, others, rfl, framed, a, _, rfl, same, rfl⟩ := framed_of_plainNode registered varies
  obtain ⟨inner, tree, read⟩ := Expr.decodes registered lines e (registered.varies rfl same)
  obtain ⟨less, run⟩ := read.child framed (by decide : "expression" ∉ frameKeys) rfl
  have note := linesOf_of_plainNode registered varies
  refine ⟨node, .expression (Decode.linesOf node) tree, rfl, framed.isNode, ?_,
    ⟨⟨_, tree, rfl, read.edited⟩, note, rfl⟩, ?_⟩
  · rw [Decode.statement]
    simp only [framed.kind_eq, run, read.read, Decode.ok_bind]
    rfl
  · rw [framed.trim (by simp [frameKeys])]
    simp only [mapNodesFields_trim_cons, read.trimmed]
    rfl

theorem decodes_branch {test : Expr Place} {consequent : Stmt Place} {alternate : Option (Stmt Place)}
    (positive : consequent.Decodes allows lines)
    (negative : ∀ s ∈ alternate, s.Decodes allows lines) :
    (Stmt.branch place test consequent alternate).Decodes allows lines := by
  intro value varies
  obtain ⟨node, others, rfl, framed, a, _, rfl, sameTest, b, _, rfl, sameFirst, d, _, rfl,
    sameSecond, rfl⟩ := framed_of_plainNode registered varies
  have note := linesOf_of_plainNode registered varies
  obtain ⟨testNode, testTree, readTest⟩ :=
    Expr.decodes registered lines test (registered.varies rfl sameTest)
  obtain ⟨firstNode, first, readFirst⟩ := positive (registered.varies rfl sameFirst)
  obtain ⟨lessTest, runTest⟩ := readTest.child framed (by decide : "test" ∉ frameKeys) rfl
  obtain ⟨lessFirst, runFirst⟩ := readFirst.child framed (by decide : "consequent" ∉ frameKeys) rfl
  have same := registered.varies rfl sameSecond
  cases alternate with
  | none =>
    obtain rfl : d = .null := same
    have runSecond := Decode.optionalChild_eq_none
      (framed.field (by decide : "alternate" ∉ frameKeys) rfl)
    refine ⟨node, .branch (Decode.linesOf node) testTree first none, rfl, framed.isNode, ?_,
      ⟨⟨_, testTree, first, none, rfl, readTest.edited, readFirst.edited.edited, rfl⟩, note, ?_⟩, ?_⟩
    · rw [Decode.statement]
      simp only [framed.kind_eq, runTest, readTest.read, runFirst, readFirst.read, runSecond,
        Decode.ok_bind]
      rfl
    · simp only [Stmt.pairs, Stmt.pairsElse, List.append_nil, readFirst.edited.noted.pairs]
    · rw [framed.trim (by simp [frameKeys])]
      simp only [mapNodesFields_trim_cons, readTest.trimmed, readFirst.trimmed]
      rfl
  | some other =>
    obtain ⟨secondNode, second, readSecond⟩ := negative other rfl same
    obtain ⟨lessSecond, runSecond⟩ := Decode.optionalChild_eq_some
      (framed.field (by decide : "alternate" ∉ frameKeys) (congrArg some readSecond.shape))
      readSecond.isNode
    refine ⟨node, .branch (Decode.linesOf node) testTree first (some second), rfl, framed.isNode, ?_,
      ⟨⟨_, testTree, first, some second, rfl, readTest.edited, readFirst.edited.edited, second, rfl,
        readSecond.edited.edited⟩, note, ?_⟩, ?_⟩
    · rw [Decode.statement]
      simp only [framed.kind_eq, runTest, readTest.read, runFirst, readFirst.read, runSecond,
        readSecond.read, Decode.ok_bind]
      rfl
    · simp only [Stmt.pairs, Stmt.pairsElse, List.map_append, readFirst.edited.noted.pairs,
        readSecond.edited.noted.pairs]
    · rw [framed.trim (by simp [frameKeys])]
      simp only [mapNodesFields_trim_cons, readTest.trimmed, readFirst.trimmed, readSecond.trimmed]
      rfl

theorem decodes_empty : (Stmt.empty place).Decodes allows lines := by
  intro value varies
  obtain ⟨node, others, rfl, framed, rfl⟩ := framed_of_plainNode registered varies
  have note := linesOf_of_plainNode registered varies
  refine ⟨node, .empty (Decode.linesOf node), rfl, framed.isNode, ?_, ⟨⟨_, rfl⟩, note, rfl⟩,
    framed.trim (by simp [frameKeys])⟩
  rw [Decode.statement]
  simp only [framed.kind_eq]
  rfl

theorem PrintableStmtWith.decodes {numbers : Number → Option String → Prop} {s : Stmt Place}
    (printable : PrintableStmtWith numbers s) : s.Decodes allows lines := by
  induction printable with
  | declaration some => exact decodes_declaration registered some
  | function _ _ _ ih => exact decodes_function registered ih
  | block _ ih => exact decodes_block registered ih
  | ret => exact decodes_ret registered
  | expression => exact decodes_expression registered
  | branch _ _ ih => exact decodes_branch registered ih (by simp)
  | choice _ _ _ _ positive negative =>
    refine decodes_branch registered positive fun s member => ?_
    obtain rfl : _ = s := Option.mem_some_iff.mp member
    exact negative
  | empty => exact decodes_empty registered

/-- However an encoded program varies in registered fields, edited statements are read from it, with
the lines of the original. -/
theorem decode_programAt {numbers : Number → Option String → Prop}
    (printable : ∀ s ∈ body, PrintableStmtWith numbers s) {length : Nat} {root : Fields}
    (varies : Varies allows (.object (programFields lines length body)) (.object root)) :
    ∃ trees, Decode.root root = .ok trees ∧
      List.Forall₂ (Stmt.EditedAt allows lines) body trees ∧
      (Value.object root).trim false = programOutline false trees := by
  have same : Value.object (programFields lines length body) =
      plainNode lines "Program" ⟨⟨0, length⟩, none⟩ [("sourceType", textValue "script"),
        ("interpreter", .null), ("body", .list (Stmt.encodeList lines body)),
        ("directives", .list [])] := rfl
  rw [same] at varies
  obtain ⟨node, others, shape, framed, a, _, rfl, sameType, b, _, rfl, sameInterpreter, d, _, rfl,
    sameBody, f, _, rfl, sameRest, rfl⟩ := framed_of_plainNode registered varies
  cases shape
  obtain rfl : a = .string "script" := registered.varies rfl sameType
  obtain rfl : b = .null := registered.varies rfl sameInterpreter
  obtain ⟨values, rfl, items⟩ := registered.varies rfl sameBody
  obtain ⟨_, rfl, rfl⟩ := registered.varies rfl sameRest
  obtain ⟨nodes, trees, reads⟩ := readStmts_of_varies
    (fun s member => (printable s member).decodes registered) items
  obtain ⟨inners, run, -, runs⟩ := reads.children framed (by decide : "body" ∉ frameKeys) rfl
  refine ⟨trees, ?_, reads.edited, ?_⟩
  · unfold Decode.root
    simp only [framed.kind_eq, Decode.body, run, runs, Decode.ok_bind]
  · rw [framed.trim (by simp [frameKeys])]
    simp only [mapNodesFields_trim_cons, reads.trim_list, programOutline, Stmt.outlineList_eq_map]
    rfl

theorem decode_program {numbers : Number → Option String → Prop}
    (printable : ∀ s ∈ body, PrintableStmtWith numbers s) {length : Nat} {root : Fields}
    (varies : Varies allows (.object (programFields lines length body)) (.object root)) :
    ∃ trees, Decode.root root = .ok trees ∧ List.Forall₂ (Stmt.Edited allows) body trees ∧
      (Value.object root).trim false = programOutline false trees := by
  obtain ⟨trees, decoded, read, outline⟩ := decode_programAt registered printable varies
  exact ⟨trees, decoded, read.imp fun _ _ => Stmt.EditedAt.edited, outline⟩

end Statements

end Arborist.Script

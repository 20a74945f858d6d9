import Mathlib
import Arborist.Proofs.Script.Shape

/-!
Branches that take an `else` behind them. The consequent of a branch with an alternate is never one
of these in a tree that was read from a text, so a tree where one is has no text of its own.
-/

namespace Arborist

/-- A statement that would take an `else` printed behind it: a branch without an alternate, or one
that ends in such a branch. -/
inductive Value.Dangles : Value → Prop where
  | bare {node : Fields} (kind : node.kind = "IfStatement")
      (none : node.valueOr "alternate" .null = .null) : Value.Dangles (.object node)
  | chain {node : Fields} (kind : node.kind = "IfStatement")
      (last : Value.Dangles (node.valueOr "alternate" .null)) : Value.Dangles (.object node)

/-- A branch with an alternate has a consequent that does not take the `else` before it. -/
def Fields.Closed (node : Fields) : Prop :=
  node.kind = "IfStatement" → node.valueOr "alternate" .null ≠ .null →
    ¬ (node.valueOr "consequent" .null).Dangles

namespace Value

theorem AgreesItems.exists_of_mem {items others : List Value} (agrees : AgreesItems items others) :
    ∀ item ∈ items, ∃ other ∈ others, item.Agrees other := by
  induction items generalizing others with
  | nil => simp
  | cons item rest ih =>
    obtain ⟨other, more, rfl, one, behind⟩ := agrees
    refine List.forall_mem_cons.mpr ⟨⟨other, List.mem_cons_self, one⟩, fun later member => ?_⟩
    obtain ⟨found, among, same⟩ := ih behind later member
    exact ⟨found, List.mem_cons_of_mem other among, same⟩

theorem Agrees.eq_null_iff {value other : Value} (agrees : value.Agrees other) :
    other = .null ↔ value = .null := by
  cases value with
  | number n => obtain ⟨m, rfl, -⟩ := agrees; simp
  | list items => obtain ⟨others, rfl, -⟩ := agrees; simp
  | object fields => obtain ⟨others, rfl, -⟩ := agrees; simp
  | string | null | bool =>
    rw [Agrees.eq_def] at agrees
    rw [agrees]

theorem AgreesFields.valueOr {fields others : Fields} (agrees : AgreesFields fields others)
    (key : String) : (fields.valueOr key .null).Agrees (others.valueOr key .null) := by
  rcases agrees.get? key with ⟨missing, missing'⟩ | ⟨value, other, found, found', same⟩
  · rw [Fields.valueOr, Fields.valueOr, missing, missing']
    rfl
  · rw [Fields.valueOr_null found, Fields.valueOr_null found']
    exact same

theorem Dangles.of_agrees {value : Value} (dangles : value.Dangles) {other : Value}
    (agrees : value.Agrees other) : other.Dangles := by
  induction dangles generalizing other with
  | bare kind none =>
    obtain ⟨others, rfl, inside⟩ := agrees
    exact .bare (inside.kind_eq.1.trans kind) ((inside.valueOr "alternate").eq_null_iff.mpr none)
  | chain kind _ ih =>
    obtain ⟨others, rfl, inside⟩ := agrees
    exact .chain (inside.kind_eq.1.trans kind) (ih (inside.valueOr "alternate"))

theorem Dangles.normal {value : Value} (dangles : value.Dangles) : value.normal.Dangles := by
  -- a branch is changed in its parts only
  have parts {node : Fields} (kind : node.kind = "IfStatement") :
      (Value.object node).normal = .object (mapNodesFields Fields.normal node) := by
    have same := (kind_mapNodesFields Fields.normal node).trans kind
    simp [Value.normal, mapNodes, Fields.normal, same]
  induction dangles with
  | @bare node kind none =>
    rw [parts kind]
    refine .bare ((kind_mapNodesFields _ node).trans kind) ?_
    rw [valueOr_mapNodesFields rfl, none]
    rfl
  | @chain node kind _ ih =>
    rw [parts kind]
    refine .chain ((kind_mapNodesFields _ node).trans kind) ?_
    rw [valueOr_mapNodesFields rfl]
    exact ih

theorem normal_eq_null_iff {value : Value} : value.normal = .null ↔ value = .null := by
  cases value <;> simp [normal, mapNodes]

end Value

theorem Fields.Closed.of_agrees {node others : Fields} (closed : others.Closed)
    (agrees : Value.AgreesFields (Value.mapNodesFields Fields.normal node) others) :
    node.Closed := by
  have inside (key : String) :
      (node.valueOr key .null).normal.Agrees (others.valueOr key .null) := by
    have same := agrees.valueOr key
    rwa [Value.valueOr_mapNodesFields rfl] at same
  intro kind some dangles
  refine closed ?_ ?_ (dangles.normal.of_agrees (inside "consequent"))
  · rw [agrees.kind_eq.1, Value.kind_mapNodesFields, kind]
  · rw [ne_eq, (inside "alternate").eq_null_iff, Value.normal_eq_null_iff]
    exact some

namespace Script

variable {ι : Type}

section Branch

variable {test consequent alternate : Value}

theorem alternate_branch :
    Fields.valueOr [("type", .string "IfStatement"), ("test", test), ("consequent", consequent),
      ("alternate", alternate)] "alternate" .null = alternate := Fields.valueOr_null rfl

theorem dangles_branch_iff :
    (outlineNode "IfStatement"
        [("test", test), ("consequent", consequent), ("alternate", alternate)]).Dangles ↔
      alternate = .null ∨ alternate.Dangles := by
  constructor
  · intro dangles
    cases dangles with
    | bare _ none => exact .inl (alternate_branch.symm.trans none)
    | chain _ last =>
      rw [alternate_branch] at last
      exact .inr last
  · rintro (none | last)
    · exact .bare rfl (alternate_branch.trans none)
    · exact .chain rfl (alternate_branch.symm ▸ last)

theorem closed_branch_iff :
    (outlineNode "IfStatement"
        [("test", test), ("consequent", consequent), ("alternate", alternate)]).EachNode
        Fields.Closed ↔
      (alternate ≠ .null → ¬ consequent.Dangles) ∧ test.EachNode Fields.Closed ∧
        consequent.EachNode Fields.Closed ∧ alternate.EachNode Fields.Closed := by
  have own : Fields.Closed [("type", .string "IfStatement"), ("test", test),
      ("consequent", consequent), ("alternate", alternate)] ↔
      (alternate ≠ .null → ¬ consequent.Dangles) := by
    rw [Fields.Closed, alternate_branch, Fields.valueOr_null rfl]
    exact forall_prop_of_true rfl
  rw [← own]
  exact ⟨fun ⟨first, _, condition, positive, negative, _⟩ =>
      ⟨first rfl, condition, positive, negative⟩,
    fun ⟨first, condition, positive, negative⟩ =>
      ⟨fun _ => first, trivial, condition, positive, negative, trivial⟩⟩

end Branch

theorem not_dangles_node {kind : String} (other : kind ≠ "IfStatement") (fields : Fields) :
    ¬ (outlineNode kind fields).Dangles := by
  intro dangles
  cases dangles with
  | bare same | chain same => exact other same

theorem closed_node {kind : String} (other : kind ≠ "IfStatement") {fields : Fields}
    (inside : Value.EachField Fields.Closed fields) :
    (outlineNode kind fields).EachNode Fields.Closed :=
  ⟨fun _ same => absurd same other, trivial, inside⟩

theorem closed_elements {elements : List (Option (Expr ι))}
    (members : ∀ e, some e ∈ elements → (e.outline false).EachNode Fields.Closed) :
    (Value.list (Expr.outlineElements false elements)).EachNode Fields.Closed := by
  induction elements with
  | nil => trivial
  | cons entry rest ih =>
    have others := ih fun e member => members e (List.mem_cons_of_mem entry member)
    cases entry with
    | none => exact ⟨trivial, others⟩
    | some e => exact ⟨members e List.mem_cons_self, others⟩

theorem closed_expr (e : Expr ι) : (e.outline false).EachNode Fields.Closed := by
  induction e using Expr.induct with
  | name | number | string | boolean => exact closed_node (by decide) ⟨trivial, trivial⟩
  | null => exact closed_node (by decide) trivial
  | array n elements ih => exact closed_node (by decide) ⟨closed_elements ih, trivial⟩
  | binary n operator left right first second =>
    refine closed_node ?_ ⟨first, trivial, second, trivial⟩
    cases operator.isLogical <;> decide
  | unary n operator argument ih => exact closed_node (by decide) ⟨trivial, trivial, ih, trivial⟩
  | update n operator before argument ih =>
    exact closed_node (by decide) ⟨trivial, trivial, ih, trivial⟩
  | assignment n operator target value first second =>
    exact closed_node (by decide) ⟨trivial, first, second, trivial⟩
  | conditional n test consequent alternate condition first second =>
    exact closed_node (by decide) ⟨condition, first, second, trivial⟩
  | sequence n parts ih =>
    rw [Expr.outline, Expr.outlineList_eq_map]
    exact closed_node (by decide) ⟨Value.eachNode_list ih, trivial⟩
  | call n callee arguments first ih =>
    rw [Expr.outline, Expr.outlineList_eq_map]
    exact closed_node (by decide) ⟨first, Value.eachNode_list ih, trivial⟩
  | member n object property computed first second =>
    exact closed_node (by decide) ⟨first, trivial, second, trivial⟩

theorem closed_exprOption (entry : Option (Expr ι)) :
    (Expr.outlineOption false entry).EachNode Fields.Closed := by
  cases entry with
  | none => trivial
  | some e => exact closed_expr e

theorem closed_declaration (n : ι) (kind : DeclarationKind) (list : List (Declarator ι)) :
    ((Stmt.declaration n kind list).outline false).EachNode Fields.Closed := by
  have each (d : Declarator ι) : (d.outline false).EachNode Fields.Closed :=
    closed_node (by decide) ⟨closed_expr d.target, closed_exprOption d.value, trivial⟩
  exact closed_node (by decide) ⟨Value.eachNode_list fun d _ => each d, trivial, trivial⟩

theorem closed_block {body : List (Stmt ι)}
    (members : ∀ s ∈ body, (s.outline false).EachNode Fields.Closed) :
    (blockOutline (Stmt.outlineList false body)).EachNode Fields.Closed := by
  rw [Stmt.outlineList_eq_map]
  exact closed_node (by decide) ⟨Value.eachNode_list members, trivial, trivial⟩

theorem closed_function {n m : ι} {head : FunctionHead ι} {body : List (Stmt ι)}
    (members : ∀ s ∈ body, (s.outline false).EachNode Fields.Closed) :
    ((Stmt.function n head m body).outline false).EachNode Fields.Closed := by
  rw [Stmt.outline, Expr.outlineList_eq_map]
  exact closed_node (by decide) ⟨closed_expr head.name, trivial, trivial,
    Value.eachNode_list fun e _ => closed_expr e, closed_block members, trivial⟩

theorem closed_program {body : List (Stmt ι)}
    (members : ∀ s ∈ body, (s.outline false).EachNode Fields.Closed) :
    (programOutline false body).EachNode Fields.Closed := by
  rw [programOutline, Stmt.outlineList_eq_map]
  exact closed_node (by decide) ⟨trivial, trivial, Value.eachNode_list members, trivial, trivial⟩

theorem outline_ne_null (s : Stmt ι) : s.outline false ≠ .null := by
  cases s <;> simp [Stmt.outline, outlineNode, blockOutline]

theorem dangles_outline_iff (s : Stmt ι) : (s.outline false).Dangles ↔ s.dangles = true := by
  induction s using Stmt.induct with
  | branch n test consequent alternate _ ih =>
    rw [Stmt.outline, dangles_branch_iff, Stmt.dangles]
    cases alternate with
    | none => exact ⟨fun _ => rfl, fun _ => .inl rfl⟩
    | some last =>
      rw [Stmt.danglesElse, Stmt.outlineOption, ← ih last rfl]
      exact or_iff_right (outline_ne_null last)
  | _ =>
    refine iff_of_false (not_dangles_node (by decide) _) ?_
    simp [Stmt.dangles]

theorem PrintableStmtWith.closed {numbers : Number → Option String → Prop} {s : Stmt ι}
    (printable : PrintableStmtWith numbers s) : (s.outline false).EachNode Fields.Closed := by
  induction printable with
  | declaration => exact closed_declaration _ _ _
  | function _ _ _ ih => exact closed_function ih
  | block _ ih => exact closed_block ih
  | ret => exact closed_node (by decide) ⟨closed_exprOption _, trivial⟩
  | expression => exact closed_node (by decide) ⟨closed_expr _, trivial⟩
  | branch _ _ ih =>
    exact closed_branch_iff.mpr ⟨fun some => absurd rfl some, closed_expr _, ih, trivial⟩
  | @choice n test consequent alternate _ _ closed _ positive negative =>
    refine closed_branch_iff.mpr ⟨fun _ dangles => ?_, closed_expr test, positive, negative⟩
    rw [dangles_outline_iff, closed] at dangles
    simp at dangles
  | empty => exact closed_node (by decide) trivial

theorem closed_of_parseProgram {text : String} {tree : Fields}
    (parsed : parseProgram text = .ok tree) :
    ((Value.object tree).trim false).EachNode Fields.Closed := by
  obtain ⟨inner, last, body, accepted, rfl⟩ := exists_of_parseProgram parsed
  have proper : ∀ t ∈ inner, Proper (fun _ _ => True) t.kind := fun t member =>
    ⟨accepted.spelled t member, fun _ _ _ => trivial⟩
  have stable : ∀ s ∈ body, Stmt.Stable (fun _ _ => True) s := accepted.forms.stable proper
  rw [trim_program]
  exact closed_program fun s member => (stable s member).printable.closed

section Agreement

/-- Where the normal form of the value agrees with a value in which no `else` is taken by a
statement before it, none is in the value itself. -/
def ShowsClosed (value : Value) : Prop :=
  ∀ other : Value, value.normal.Agrees other → other.EachNode Fields.Closed →
    value.EachNode Fields.Closed

theorem showsClosed_of_closed {value : Value} (closed : value.EachNode Fields.Closed) :
    ShowsClosed value := fun _ _ _ => closed

theorem showsClosed_list {α : Type} {list : List α} {outline : α → Value}
    (members : ∀ a ∈ list, ShowsClosed (outline a)) : ShowsClosed (.list (list.map outline)) := by
  intro other agrees closed
  obtain ⟨others, rfl, inside⟩ := agrees
  rw [Value.mapNodesItems_eq_map, List.map_map] at inside
  refine Value.eachNode_list fun a member => ?_
  obtain ⟨found, among, same⟩ := inside.exists_of_mem _ (List.mem_map_of_mem member)
  exact members a member found same (Value.eachItem_iff.mp closed found among)

theorem closed_fields {fields others : Fields} (parts : ∀ field ∈ fields, ShowsClosed field.2)
    (agrees : Value.AgreesFields (Value.mapNodesFields Fields.normal fields) others)
    (closed : Value.EachField Fields.Closed others) : Value.EachField Fields.Closed fields := by
  induction fields generalizing others with
  | nil => trivial
  | cons field rest ih =>
    obtain ⟨first, behind⟩ := List.forall_mem_cons.mp parts
    obtain ⟨other, more, rfl, one, agrees⟩ := agrees
    exact ⟨first other one closed.1, ih behind agrees closed.2⟩

theorem showsClosed_node {kind : String} {fields : Fields} (notNumber : kind ≠ "NumericLiteral")
    (notBinary : kind ≠ "BinaryExpression") (parts : ∀ field ∈ fields, ShowsClosed field.2) :
    ShowsClosed (outlineNode kind fields) := by
  intro other agrees closed
  rw [normal_outlineNode_of_ne notNumber notBinary] at agrees
  obtain ⟨others, rfl, inside⟩ := agrees
  refine ⟨fun _ => (closed.1 ?_).of_agrees inside, ?_⟩
  · rw [inside.kind_eq.2]
    rfl
  · exact closed_fields (List.forall_mem_cons.mpr ⟨showsClosed_of_closed trivial, parts⟩) inside
      closed.2

theorem showsClosed_block {body : List (Stmt ι)}
    (members : ∀ s ∈ body, ShowsClosed (s.outline false)) :
    ShowsClosed (blockOutline (Stmt.outlineList false body)) := by
  rw [Stmt.outlineList_eq_map]
  refine showsClosed_node (by decide) (by decide) ?_
  simp only [List.forall_mem_cons, List.not_mem_nil, false_implies, implies_true, and_true]
  exact ⟨showsClosed_list members, showsClosed_of_closed trivial⟩

theorem showsClosed_stmt (s : Stmt ι) : ShowsClosed (s.outline false) := by
  induction s using Stmt.induct with
  | declaration n kind list => exact showsClosed_of_closed (closed_declaration n kind list)
  | function n head block body ih =>
    refine showsClosed_node (by decide) (by decide) ?_
    simp only [List.forall_mem_cons, List.not_mem_nil, false_implies, implies_true, and_true,
      Expr.outlineList_eq_map]
    exact ⟨showsClosed_of_closed (closed_expr head.name), showsClosed_of_closed trivial,
      showsClosed_of_closed trivial, showsClosed_of_closed (Value.eachNode_list fun e _ => closed_expr e),
      showsClosed_block ih⟩
  | block n body ih => exact showsClosed_block ih
  | ret n argument =>
    exact showsClosed_of_closed (closed_node (by decide) ⟨closed_exprOption argument, trivial⟩)
  | expression n e => exact showsClosed_of_closed (closed_node (by decide) ⟨closed_expr e, trivial⟩)
  | branch n test consequent alternate ih ihOther =>
    have other : ShowsClosed (Stmt.outlineOption false alternate) := by
      cases alternate with
      | none => exact showsClosed_of_closed trivial
      | some last => exact ihOther last rfl
    refine showsClosed_node (by decide) (by decide) ?_
    simp only [List.forall_mem_cons, List.not_mem_nil, false_implies, implies_true, and_true]
    exact ⟨showsClosed_of_closed (closed_expr test), ih, other⟩
  | empty n => exact showsClosed_of_closed (closed_node (by decide) trivial)

theorem showsClosed_program (body : List (Stmt ι)) : ShowsClosed (programOutline false body) := by
  rw [programOutline, Stmt.outlineList_eq_map]
  refine showsClosed_node (by decide) (by decide) ?_
  simp only [List.forall_mem_cons, List.not_mem_nil, false_implies, implies_true, and_true]
  exact ⟨showsClosed_of_closed trivial, showsClosed_of_closed trivial,
    showsClosed_list fun s _ => showsClosed_stmt s, showsClosed_of_closed trivial⟩

end Agreement

end Script

end Arborist

import Mathlib
import Arborist.Proofs.Number.Numeral
import Arborist.Proofs.Script.Frame
import Arborist.Proofs.Script.Outline

/-!
Fields with an input. Every node of an encoded program has the fields that are registered for its
kind, and they hold what their inputs are seeded with; so a write into a registered field replaces a
value, and the tree stays a variation of the program.
-/

namespace Arborist

namespace InputKind

/-- The values that a field with the input may hold. A choice may hold a text off its list. -/
def Holds : InputKind → Value → Prop
  | .choice _, value | .text, value => ∃ text, value = .string text
  | .number, value => ∃ n, value = .number n
  | .toggle, value => ∃ b, value = .bool b

theorem Takes.holds {input : InputKind} {value : Value} (takes : input.Takes value) :
    input.Holds value := by
  cases input with
  | choice options =>
    obtain ⟨option, -, rfl⟩ := takes
    exact ⟨option, rfl⟩
  | text | number | toggle => exact takes

end InputKind

namespace Registry

def table : List (String × String × InputKind) :=
  [("VariableDeclaration", "kind", .choice InputKind.declarationKinds),
    ("BinaryExpression", "operator", .choice InputKind.operators), ("Identifier", "name", .text),
    ("NumericLiteral", "value", .number), ("FunctionDeclaration", "generator", .toggle),
    ("FunctionDeclaration", "async", .toggle)]

theorem builtinInputs_eq :
    builtinInputs = table.map fun row => (key row.1 row.2.1, row.2.2) := rfl

theorem key_inj {kind field kind' field' : String} (undotted : '.' ∉ kind.toList)
    (undotted' : '.' ∉ kind'.toList) (same : key kind field = key kind' field') :
    kind = kind' ∧ field = field' := by
  have chars := congrArg String.toList same
  simp only [key, String.toList_append] at chars
  have point : ".".toList = ['.'] := rfl
  rw [point, List.append_assoc, List.append_assoc, List.singleton_append, List.singleton_append]
    at chars
  have before {text : String} (plain : '.' ∉ text.toList) :
      text.toList.all (fun c => c != '.') = true := by
    refine List.all_eq_true.2 fun c member => bne_iff_ne.2 ?_
    rintro rfl
    exact plain member
  -- The first dot parts both keys at the same place.
  have stop (rest : List Char) : ∀ c ∈ ('.' :: rest).head?, (c != '.') = false := by simp
  obtain ⟨front, back⟩ := takeWhile_append_stop (before undotted) (stop field.toList)
  obtain ⟨front', back'⟩ := takeWhile_append_stop (before undotted') (stop field'.toList)
  rw [← chars] at front' back'
  refine ⟨String.toList_inj.1 (front.symm.trans front'), String.toList_inj.1 ?_⟩
  exact (List.cons.inj (back.symm.trans back')).2

theorem mem_of_builtinInput? {kind field : String} {input : InputKind}
    (found : builtinInput? kind field = some input) : (key kind field, input) ∈ builtinInputs := by
  rw [builtinInput?, List.lookup_eq_some_iff] at found
  obtain ⟨front, back, split, -⟩ := found
  rw [split]
  exact List.mem_append_right _ List.mem_cons_self

/-- Every built-in key has a single dot, which stands between its two parts. -/
theorem undotted_of_builtinInput? {kind field : String} {input : InputKind}
    (found : builtinInput? kind field = some input) : '.' ∉ kind.toList := by
  have single : ∀ entry ∈ builtinInputs, entry.1.toList.count '.' = 1 := by decide
  have count := single _ (mem_of_builtinInput? found)
  simp only [key, String.toList_append, List.count_append] at count
  have point : ".".toList.count '.' = 1 := rfl
  rw [← List.count_eq_zero]
  omega

theorem mem_table_of_builtinInput? {kind field : String} {input : InputKind}
    (undotted : '.' ∉ kind.toList) (found : builtinInput? kind field = some input) :
    (kind, field, input) ∈ table := by
  have member := mem_of_builtinInput? found
  rw [builtinInputs_eq, List.mem_map] at member
  obtain ⟨⟨other, name, what⟩, row, same⟩ := member
  simp only [Prod.mk.injEq] at same
  have plain : '.' ∉ other.toList := by
    have all : ∀ row ∈ table, '.' ∉ row.1.toList := by decide
    exact all _ row
  obtain ⟨rfl, rfl⟩ := key_inj plain undotted same.1
  exact same.2 ▸ row

end Registry

/-- The node has every field that is registered for its kind, and no key twice. -/
structure Fields.Complete (node : Fields) : Prop where
  nodup : node.keys.Nodup
  registered : ∀ field input, Registry.builtinInput? node.kind field = some input →
    ∃ value, node.get? field = some value ∧ input.Holds value

namespace Script

open Value (Allowance EachNode EachField VariesFields)
open Registry (table)

theorem extraFields_keys (entries : Fields) : ∀ entry ∈ extraFields entries, entry.1 = "extra" := by
  unfold extraFields
  split <;> simp

theorem framed_plain (lines : LineIndex) (kind : String) (place : Place) (fields : Fields) :
    Framed kind fields
      (nodeFields lines kind place.span (fields ++ extraFields (parenFields place.paren))) :=
  ⟨_, _, _, [], _, rfl, by simp, extraFields_keys _⟩

theorem framed_literal (lines : LineIndex) (kind : String) (place : Place) (value : Value)
    (raw : Option String) :
    Framed kind [("value", value)] (nodeFields lines kind place.span
      (extraFields (rawFields value raw ++ parenFields place.paren) ++ [("value", value)])) :=
  ⟨_, _, _, _, [], rfl, extraFields_keys _, by simp⟩

theorem extraFields_cases (entries : Fields) :
    extraFields entries = [] ∨ extraFields entries = [("extra", .object entries)] := by
  unfold extraFields
  split <;> simp

theorem nodup_plain {fields : Fields} (nodup : (frameKeys ++ fields.keys).Nodup) (lines : LineIndex)
    (kind : String) (place : Place) :
    (nodeFields lines kind place.span (fields ++ extraFields (parenFields place.paren))).keys.Nodup := by
  rcases extraFields_cases (parenFields place.paren) with none | some
  · rw [none]
    refine nodup.sublist ?_
    simp [nodeFields, Fields.keys, frameKeys]
  · rw [some]
    refine (List.Perm.nodup_iff ?_).1 nodup
    simp only [nodeFields, Fields.keys, frameKeys, List.map_append, List.map_cons, List.map_nil,
      List.cons_append, List.nil_append]
    exact ((((@List.perm_append_comm _ ["extra"] _).cons _).cons _).cons _).cons _

theorem nodup_literal (lines : LineIndex) (kind : String) (place : Place) (value : Value)
    (raw : Option String) :
    (nodeFields lines kind place.span
      (extraFields (rawFields value raw ++ parenFields place.paren) ++
        [("value", value)])).keys.Nodup := by
  rcases extraFields_cases (rawFields value raw ++ parenFields place.paren) with none | some
  · simp [none, nodeFields, Fields.keys]
  · simp [some, nodeFields, Fields.keys]

theorem complete_of_framed {kind : String} {fields node : Fields} (framed : Framed kind fields node)
    (nodup : node.keys.Nodup) (undotted : '.' ∉ kind.toList)
    (rows : ∀ row ∈ table, row.1 = kind →
      ∃ value, fields.get? row.2.1 = some value ∧ row.2.2.Holds value) : node.Complete := by
  refine ⟨nodup, fun field input found => ?_⟩
  rw [framed.kind_eq] at found
  have row := Registry.mem_table_of_builtinInput? undotted found
  have own : field ∉ frameKeys := by
    have all : ∀ row ∈ table, row.2.1 ∉ frameKeys := by decide
    exact all _ row
  rw [framed.get?_eq own]
  exact rows _ row rfl

section Encode

variable {lines : LineIndex} {place : Place}

theorem complete_plainNode {kind : String} {fields : Fields} (undotted : '.' ∉ kind.toList)
    (rows : ∀ row ∈ table, row.1 = kind →
      ∃ value, fields.get? row.2.1 = some value ∧ row.2.2.Holds value)
    (inside : EachField Fields.Complete fields)
    (nodup : (frameKeys ++ fields.keys).Nodup := by simp [frameKeys, Fields.keys]) :
    (plainNode lines kind place fields).EachNode Fields.Complete :=
  eachNode_plainNode
    (complete_of_framed (framed_plain ..) (nodup_plain nodup lines kind place) undotted rows) inside

theorem complete_free {kind : String} {fields : Fields} (undotted : '.' ∉ kind.toList)
    (free : ∀ row ∈ table, row.1 ≠ kind) (inside : EachField Fields.Complete fields)
    (nodup : (frameKeys ++ fields.keys).Nodup := by simp [frameKeys, Fields.keys]) :
    (plainNode lines kind place fields).EachNode Fields.Complete :=
  complete_plainNode undotted (fun row member same => absurd same (free row member)) inside nodup

theorem Expr.complete_elements {list : List (Option (Expr Place))}
    (members : ∀ e, some e ∈ list → (e.encode lines).EachNode Fields.Complete) :
    (Value.list (Expr.encodeElements lines list)).EachNode Fields.Complete := by
  induction list with
  | nil => trivial
  | cons entry rest ih =>
    have behind := ih fun e member => members e (List.mem_cons_of_mem _ member)
    cases entry with
    | none => exact ⟨trivial, behind⟩
    | some e => exact ⟨members e List.mem_cons_self, behind⟩

theorem Expr.complete_encode (e : Expr Place) : (e.encode lines).EachNode Fields.Complete := by
  induction e using Expr.induct with
  | name place text =>
    exact complete_plainNode (by decide) (by simp [table, Fields.get?_cons, InputKind.Holds, textValue])
      ⟨trivial, trivial⟩
  | number place value raw =>
    refine eachNode_literalNode (complete_of_framed (framed_literal ..) (nodup_literal ..)
      (by decide) ?_) trivial
    simp [table, Fields.get?_cons, InputKind.Holds]
  | string place value raw =>
    refine eachNode_literalNode (complete_of_framed (framed_literal ..) (nodup_literal ..)
      (by decide) ?_) trivial
    simp [table]
  | boolean place value => exact complete_free (by decide) (by decide) ⟨trivial, trivial⟩
  | null place => exact complete_free (by decide) (by decide) trivial
  | array place elements ih =>
    exact complete_free (by decide) (by decide) ⟨Expr.complete_elements ih, trivial⟩
  | binary place operator left right first second =>
    rw [Expr.encode]
    cases operator.isLogical with
    | true => exact complete_free (by decide) (by decide) ⟨first, trivial, second, trivial⟩
    | false =>
      exact complete_plainNode (by decide)
        (by simp [table, Fields.get?_cons, InputKind.Holds, textValue])
        ⟨first, trivial, second, trivial⟩
  | unary place operator argument ih =>
    exact complete_free (by decide) (by decide) ⟨trivial, trivial, ih, trivial⟩
  | update place operator before argument ih =>
    exact complete_free (by decide) (by decide) ⟨trivial, trivial, ih, trivial⟩
  | assignment place operator target value first second =>
    exact complete_free (by decide) (by decide) ⟨trivial, first, second, trivial⟩
  | conditional place test consequent alternate first second third =>
    exact complete_free (by decide) (by decide) ⟨first, second, third, trivial⟩
  | sequence place parts ih =>
    rw [Expr.encode, Expr.encodeList_eq_map]
    exact complete_free (by decide) (by decide) ⟨Value.eachNode_list ih, trivial⟩
  | call place callee arguments first ih =>
    rw [Expr.encode, Expr.encodeList_eq_map]
    exact complete_free (by decide) (by decide) ⟨first, Value.eachNode_list ih, trivial⟩
  | member place object property computed first second =>
    exact complete_free (by decide) (by decide) ⟨first, trivial, second, trivial⟩

theorem Expr.complete_encodeOption (entry : Option (Expr Place)) :
    (Expr.encodeOption lines entry).EachNode Fields.Complete := by
  cases entry with
  | none => trivial
  | some e => exact e.complete_encode

theorem Declarator.complete_encode (d : Declarator Place) :
    (d.encode lines).EachNode Fields.Complete :=
  complete_free (by decide) (by decide)
    ⟨d.target.complete_encode, Expr.complete_encodeOption d.value, trivial⟩

theorem complete_blockNode {list : List (Stmt Place)}
    (members : ∀ s ∈ list, (s.encode lines).EachNode Fields.Complete) :
    (blockNode lines place (Stmt.encodeList lines list)).EachNode Fields.Complete := by
  rw [Stmt.encodeList_eq_map]
  exact complete_free (by decide) (by decide) ⟨Value.eachNode_list members, trivial, trivial⟩

theorem Stmt.complete_encode (s : Stmt Place) : (s.encode lines).EachNode Fields.Complete := by
  induction s using Stmt.induct with
  | declaration place kind declarators =>
    exact complete_plainNode (by decide)
      (by simp [table, Fields.get?_cons, InputKind.Holds, textValue])
      ⟨Value.eachNode_list fun d _ => d.complete_encode, trivial, trivial⟩
  | function place head block body ih =>
    rw [Stmt.encode, Expr.encodeList_eq_map]
    exact complete_plainNode (by decide) (by simp [table, Fields.get?_cons, InputKind.Holds])
      ⟨head.name.complete_encode, trivial, trivial,
        Value.eachNode_list fun e _ => e.complete_encode, complete_blockNode ih, trivial⟩
  | block place body ih => exact complete_blockNode ih
  | ret place argument =>
    exact complete_free (by decide) (by decide) ⟨Expr.complete_encodeOption argument, trivial⟩
  | expression place e =>
    exact complete_free (by decide) (by decide) ⟨e.complete_encode, trivial⟩
  | branch place test consequent alternate first second =>
    refine complete_free (by decide) (by decide) ⟨test.complete_encode, first, ?_, trivial⟩
    cases alternate with
    | none => trivial
    | some s => exact second s rfl
  | empty place => exact complete_free (by decide) (by decide) trivial

theorem complete_program (lines : LineIndex) (length : Nat) (body : List (Stmt Place)) :
    (Value.object (programFields lines length body)).EachNode Fields.Complete := by
  rw [programFields, Stmt.encodeList_eq_map]
  have node : (plainNode lines "Program" ⟨⟨0, length⟩, none⟩
      [("sourceType", textValue "script"), ("interpreter", .null),
        ("body", .list (body.map (Stmt.encode lines))), ("directives", .list [])]).EachNode
      Fields.Complete :=
    complete_free (by decide) (by decide)
      ⟨trivial, trivial, Value.eachNode_list fun s _ => s.complete_encode, trivial, trivial⟩
  exact node

end Encode

theorem eachNode_of_takes {input : InputKind} {value : Value} (takes : input.Takes value)
    (holds : Fields → Prop) : value.EachNode holds := by
  cases input with
  | choice options =>
    obtain ⟨option, -, rfl⟩ := takes
    trivial
  | text | number | toggle =>
    obtain ⟨_, rfl⟩ := takes
    trivial

theorem eachNode_of_varies {allows : Allowance} (registered : allows.Registered)
    {holds : Fields → Prop}
    (kept : ∀ {inner other : Fields}, holds inner → VariesFields allows inner.kind inner other →
      holds other)
    {value other : Value} (varies : value.Varies allows other) (each : value.EachNode holds) :
    other.EachNode holds := by
  induction value using Value.induct generalizing other with
  | null | bool | number | string =>
    rw [Value.Varies.eq_def] at varies
    subst varies
    exact each
  | list items ih =>
    obtain ⟨others, rfl, inside⟩ := varies
    rw [EachNode] at each ⊢
    induction items generalizing others with
    | nil =>
      rw [Value.VariesItems] at inside
      subst inside
      trivial
    | cons item rest more =>
      obtain ⟨next, behind, rfl, one, tail⟩ := inside
      exact ⟨ih item List.mem_cons_self one each.1,
        more (fun item member => ih item (List.mem_cons_of_mem _ member)) each.2 behind tail⟩
  | object fields ih =>
    obtain ⟨others, rfl, inside⟩ := varies
    have isNode := (VariesFields.kind_eq registered.flat inside).2
    refine ⟨fun node => kept (each.1 (isNode ▸ node)) inside, ?_⟩
    have fieldsEach := each.2
    clear each isNode
    generalize Fields.kind fields = kind at inside
    induction fields generalizing others with
    | nil =>
      rw [Value.VariesFields] at inside
      subst inside
      trivial
    | cons entry rest more =>
      obtain ⟨key, value⟩ := entry
      obtain ⟨next, behind, rfl, one, tail⟩ := inside
      refine ⟨?_, more (fun entry member => ih entry (List.mem_cons_of_mem _ member)) behind
        fieldsEach.2 tail⟩
      rcases one with same | written
      · exact ih (key, value) List.mem_cons_self same fieldsEach.1
      · obtain ⟨input, -, takes⟩ := registered.input written
        exact eachNode_of_takes takes holds

theorem complete_of_variesFields {allows : Allowance} (registered : allows.Registered)
    {inner other : Fields} (complete : inner.Complete)
    (varies : VariesFields allows inner.kind inner other) : other.Complete := by
  refine ⟨?_, fun field input found => ?_⟩
  · rw [Fields.keys, keys_of_varies varies]
    exact complete.nodup
  · rw [(VariesFields.kind_eq registered.flat varies).1] at found
    obtain ⟨value, held, holds⟩ := complete.registered field input found
    obtain ⟨next, heldNext, same | written⟩ := varies.get?_some held
    · refine ⟨next, heldNext, ?_⟩
      have unchanged : next = value := by
        cases input <;> obtain ⟨_, rfl⟩ := holds <;> exact same
      exact unchanged ▸ holds
    · obtain ⟨again, foundAgain, takes⟩ := registered.input written
      rw [found, Option.some.injEq] at foundAgain
      exact ⟨next, heldNext, foundAgain ▸ takes.holds⟩

theorem complete_of_varies {allows : Allowance} (registered : allows.Registered)
    {root tree : Fields} (complete : (Value.object root).EachNode Fields.Complete)
    (varies : VariesFields allows root.kind root tree) :
    (Value.object tree).EachNode Fields.Complete := by
  have whole : (Value.object root).Varies allows (.object tree) := ⟨tree, rfl, varies⟩
  exact eachNode_of_varies registered (complete_of_variesFields registered) whole complete

theorem variesFields_write {allows : Allowance} (flat : allows.Flat) {root tree changed node : Fields}
    (complete : (Value.object root).EachNode Fields.Complete) (isNode : root.isNode = true)
    (varies : VariesFields allows root.kind root tree) {target : Target} {value : Value}
    {input : InputKind} (there : target.path.resolve tree = some node)
    (registered : Registry.builtinInput? node.kind target.field = some input)
    (allowed : ∀ {original}, input.Holds original → allows node.kind target.field original value)
    (done : target.write? value tree = some changed) :
    VariesFields allows root.kind root changed := by
  rw [Target.write?_eq] at done
  refine VariesFields.modify flat (complete.1 isNode) complete.2 varies done ?_
  intro inner found same whole only
  rw [there, Option.some.injEq] at same
  subst same
  have kind := (VariesFields.kind_eq flat only).1
  rw [kind] at registered allowed
  obtain ⟨original, held, holds⟩ := whole.registered _ _ registered
  exact only.insert held (.inr (allowed holds))

end Script

end Arborist

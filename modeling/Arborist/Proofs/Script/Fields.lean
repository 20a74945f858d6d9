import Mathlib
import Arborist.Proofs.Script.Frame

/-!
Reading the fields of a node. Each reader is opened once, for a field that holds what it asks for.
-/

namespace Arborist

section Except

variable {α β γ ε : Type}

theorem exists_mapM_eq_ok {f : α → Except ε β} (related : α → β → Prop) {list : List α}
    (each : ∀ a ∈ list, ∃ b, f a = .ok b ∧ related a b) :
    ∃ results, list.mapM f = .ok results ∧ List.Forall₂ related list results := by
  induction list with
  | nil => exact ⟨[], rfl, .nil⟩
  | cons a rest ih =>
    obtain ⟨first, others⟩ := List.forall_mem_cons.mp each
    obtain ⟨b, run, one⟩ := first
    obtain ⟨results, runs, all⟩ := ih others
    refine ⟨b :: results, ?_, .cons one all⟩
    rw [List.mapM_cons, run, runs]
    rfl

theorem map_eq_of_forall₂ {f : α → γ} {g : β → γ} {list : List α} {others : List β}
    (all : List.Forall₂ (fun a b => f a = g b) list others) : list.map f = others.map g := by
  induction all with
  | nil => rfl
  | cons one _ ih => rw [List.map_cons, List.map_cons, one, ih]

theorem exists_of_forall₂ {related : α → β → Prop} {list : List α} {others : List β}
    (all : List.Forall₂ related list others) : ∀ b ∈ others, ∃ a ∈ list, related a b := by
  induction all with
  | nil => simp
  | @cons a b rest more one _ ih =>
    refine List.forall_mem_cons.mpr ⟨⟨a, List.mem_cons_self, one⟩, fun c member => ?_⟩
    obtain ⟨d, among, other⟩ := ih c member
    exact ⟨d, List.mem_cons_of_mem a among, other⟩

theorem mapM_val {p : α → Prop} (f : α → Except ε β) (list : List { a // p a }) :
    list.mapM (fun member => f member.1) = (list.map Subtype.val).mapM f := by
  rw [List.mapM_map]
  rfl

end Except

namespace Script

@[simp] theorem BinaryOperator.ofText?_text (operator : BinaryOperator) :
    BinaryOperator.ofText? operator.text = some operator := by
  cases operator <;> rfl

@[simp] theorem UnaryOperator.ofText?_text (operator : UnaryOperator) :
    UnaryOperator.ofText? operator.text = some operator := by
  cases operator <;> rfl

@[simp] theorem UpdateOperator.ofText?_text (operator : UpdateOperator) :
    UpdateOperator.ofText? operator.text = some operator := by
  cases operator <;> rfl

@[simp] theorem AssignmentOperator.ofText?_text (operator : AssignmentOperator) :
    AssignmentOperator.ofText? operator.text = some operator := by
  cases operator <;> rfl

@[simp] theorem DeclarationKind.ofText?_text (kind : DeclarationKind) :
    DeclarationKind.ofText? kind.text = some kind := by
  cases kind <;> rfl

theorem exists_operator {text : String} (offered : text ∈ InputKind.operators) :
    ∃ operator : BinaryOperator, operator.text = text ∧ operator.isLogical = false := by
  have all : ∀ text ∈ InputKind.operators,
      ∃ operator ∈ BinaryOperator.all, operator.text = text ∧ operator.isLogical = false := by
    decide
  obtain ⟨operator, -, found⟩ := all text offered
  exact ⟨operator, found⟩

theorem exists_declarationKind {text : String} (offered : text ∈ InputKind.declarationKinds) :
    ∃ kind : DeclarationKind, kind.text = text := by
  have all : ∀ text ∈ InputKind.declarationKinds, ∃ kind ∈ DeclarationKind.all, kind.text = text := by
    decide
  obtain ⟨kind, -, found⟩ := all text offered
  exact ⟨kind, found⟩

end Script

namespace Script.Decode

theorem ok_bind {α β ε : Type} (a : α) (f : α → Except ε β) : (Except.ok a >>= f) = f a := rfl

variable {node inner : Fields} {field : String}

theorem child_eq_ok (found : node.get? field = some (.object inner)) (isNode : inner.isNode = true) :
    ∃ less, child node field = .ok ⟨inner, less⟩ := by
  have asNode : (Value.object inner).asNode? = some inner := by simp [Value.asNode?, isNode]
  refine ⟨Nat.lt_trans (sizeOf_asNode? asNode) (sizeOf_get? found), ?_⟩
  unfold child
  split
  · simp_all
  · simp_all
  · rename_i value _ held
    obtain rfl : value = .object inner := Option.some.inj (held.symm.trans found)
    split
    · simp_all
    · rename_i other node
      obtain rfl : other = inner := Option.some.inj (node.symm.trans asNode)
      rfl

theorem optionalChild_eq_none (found : node.get? field = some .null) :
    optionalChild node field = .ok none := by
  simp [optionalChild, found]

theorem optionalChild_eq_some (found : node.get? field = some (.object inner))
    (isNode : inner.isNode = true) : ∃ less, optionalChild node field = .ok (some ⟨inner, less⟩) := by
  obtain ⟨less, run⟩ := child_eq_ok found isNode
  refine ⟨less, ?_⟩
  simp only [optionalChild, found, run]
  rfl

theorem children_eq_ok {inners : List Fields}
    (found : node.get? field = some (.list (inners.map .object)))
    (nodes : ∀ inner ∈ inners, Fields.isNode inner = true) :
    ∃ list, children node field = .ok list ∧ list.map Subtype.val = inners := by
  unfold children
  split
  · simp_all
  · rename_i value held
    obtain rfl : value = .list (inners.map .object) := Option.some.inj (held.symm.trans found)
    split
    · rename_i none
      simp [Value.asList?] at none
    · rename_i items asList
      obtain rfl : inners.map .object = items := Option.some.inj asList
      refine Exists.imp (fun list => And.imp_right fun all => ?_) (exists_mapM_eq_ok
        (fun (item : { item // item ∈ inners.map Value.object }) (inner : Inner node) =>
          item.1 = .object inner.1) ?_)
      · have same : (inners.map Value.object).attach.map Subtype.val =
            list.map fun inner => Value.object inner.1 := map_eq_of_forall₂ all
        have same : inners.map Value.object = (list.map Subtype.val).map Value.object := by
          rw [List.attach_map_subtype_val] at same
          rw [same, List.map_map]
          rfl
        exact (List.map_injective_iff.mpr (fun _ _ eq => Value.object.inj eq) same).symm
      · rintro ⟨item, mem⟩ -
        obtain ⟨inner, among, rfl⟩ := List.mem_map.mp mem
        have asNode : (Value.object inner).asNode? = some inner := by
          simp [Value.asNode?, nodes inner among]
        refine ⟨⟨inner, ?_⟩, ?_, rfl⟩
        · exact Nat.lt_trans (sizeOf_asNode? asNode) (Nat.lt_trans (List.sizeOf_lt_of_mem mem)
            (Nat.lt_trans (sizeOf_asList? asList) (sizeOf_get? held)))
        · dsimp only
          split
          · rename_i none
            simp [asNode] at none
          · rename_i other node
            obtain rfl : other = inner := Option.some.inj (node.symm.trans asNode)
            rfl

theorem operatorField_eq_ok {α : Type} {ofText? : String → Option α} {text : String} {operator : α}
    (found : node.get? "operator" = some (.string text)) (known : ofText? text = some operator) :
    operatorField node ofText? = .ok operator := by
  simp only [operatorField, stringField, found, ok_bind, known]
  rfl

theorem binaryOperator?_text (operator : BinaryOperator) :
    binaryOperator? operator.isLogical operator.text = some operator := by
  simp [binaryOperator?]

theorem itemsField_eq_ok {items : List Value} (found : node.get? field = some (.list items)) :
    ∃ list, itemsField node field = .ok list ∧ list.map Subtype.val = items := by
  unfold itemsField
  split
  · simp_all
  · rename_i value held
    obtain rfl : value = .list items := Option.some.inj (held.symm.trans found)
    split
    · rename_i none
      simp [Value.asList?] at none
    · rename_i others asList
      obtain rfl : items = others := Option.some.inj asList
      refine ⟨_, rfl, ?_⟩
      rw [List.map_map]
      exact List.attach_map_subtype_val items

theorem innerOf_eq_some {item : { item : Value // sizeOf item < sizeOf node }}
    (shape : item.1 = .object inner) (isNode : inner.isNode = true) :
    ∃ less, innerOf item = some ⟨inner, less⟩ := by
  have asNode : item.1.asNode? = some inner := by simp [shape, Value.asNode?, isNode]
  refine ⟨Nat.lt_trans (sizeOf_asNode? asNode) item.2, ?_⟩
  unfold innerOf
  split
  · rename_i none
    simp [none] at asNode
  · rename_i other node
    obtain rfl : other = inner := Option.some.inj (node.symm.trans asNode)
    rfl

end Script.Decode

end Arborist

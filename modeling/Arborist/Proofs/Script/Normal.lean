import Mathlib
import Arborist.Proofs.Number.Display
import Arborist.Proofs.Script.EditedPrinting
import Arborist.Proofs.Script.Outline

/-!
The normal form of an edited tree. The grammar has no negative literal and no comma among the binary
operators: the one is an operator before its absolute value and the other a sequence. In this form an
edited tree agrees with what its text is read as, numbers compared by their values.
-/

namespace Arborist

namespace Number

def isNegative (n : Number) : Bool := n.less (.zero false)

def abs : Number → Number
  | .nan => .nan
  | .infinity _ => .infinity false
  | .finite _ mantissa exponent canonical => .finite false mantissa exponent canonical

@[simp] theorem isNegative_finite (negative : Bool) {m : Nat} {e : Int} (canonical : Canonical m e) :
    (finite negative m e canonical).isNegative = (negative && m != 0) := by
  have power := twoTo_pos (e + 1074).toNat
  rw [isNegative, less_of_units rfl rfl]
  cases negative with
  | false =>
    have nonneg : (0 : Int) ≤ m * twoTo (e + 1074).toNat := by positivity
    simpa using nonneg
  | true =>
    rw [Bool.eq_iff_iff]
    simp [Nat.pos_iff_ne_zero, power.ne']

@[simp] theorem isNegative_infinity (negative : Bool) :
    (infinity negative).isNegative = negative := by
  simp [isNegative, less, zero]

theorem isNegative_pack (mantissa : Nat) (exponent : Int) :
    (pack false mantissa exponent).isNegative = false := by
  unfold pack
  split <;> simp

theorem isNegative_ofRatio (num den : Nat) : (ofRatio false num den).isNegative = false := by
  unfold ofRatio
  dsimp only
  split <;> exact isNegative_pack _ _

theorem isNegative_eq_of_agrees {a b : Number} (same : a.agrees b = true) :
    a.isNegative = b.isNegative := by
  cases a with
  | nan => simp [agrees, units?] at same
  | infinity s =>
    cases b with
    | infinity t => simpa [agrees] using same
    | nan | finite => simp [agrees, units?] at same
  | finite s m e c =>
    cases b with
    | nan | infinity => simp [agrees, units?] at same
    | finite t n f d =>
      simp only [agrees, units?, beq_iff_eq] at same
      rw [isNegative, isNegative, less_of_units rfl rfl, less_of_units rfl rfl, same]

theorem agrees_symm {a b : Number} (same : a.agrees b = true) : b.agrees a = true := by
  cases a <;> cases b <;> simp_all [agrees, units?]

end Number

theorem Decimal.isNegative_toNumber (d : Decimal) : (d.toNumber false).isNegative = false := by
  unfold toNumber
  dsimp only
  split
  · rfl
  · split
    · rfl
    · split
      · rfl
      · split <;> exact Number.isNegative_ofRatio _ _

theorem Token.isNegative_of_scanNumber {cs : List Char} {value : Number} {length : Nat}
    (scanned : scanNumber cs = some (value, length)) : value.isNegative = false := by
  unfold scanNumber at scanned
  dsimp only at scanned
  split at scanned
  · split at scanned
    · simp only [Option.some.injEq, Prod.mk.injEq] at scanned
      rw [← scanned.1]
      exact Decimal.isNegative_toNumber _
    · simp at scanned
  · simp only [Option.some.injEq, Prod.mk.injEq] at scanned
    rw [← scanned.1, hexNumber]
    split
    · exact Number.isNegative_ofRatio _ _
    · rfl

/-- The parts that a value adds to a sequence: those of a sequence, else itself. -/
def Value.parts (value : Value) : List Value :=
  match value.asNode? with
  | none => [value]
  | some node =>
    match node.kind == "SequenceExpression", node.get? "expressions" with
    | true, some (.list items) => items
    | _, _ => [value]

def Fields.normal (node : Fields) : Fields :=
  if node.kind = "NumericLiteral" then
    match node.get? "value" with
    | some (.number n) =>
      if n.isNegative then
        [("type", .string "UnaryExpression"), ("operator", .string "-"), ("prefix", .bool true),
          ("argument", .object [("type", .string "NumericLiteral"), ("value", .number n.abs)])]
      else node
    | _ => node
  else if node.kind = "BinaryExpression" then
    match node.get? "operator", node.get? "left", node.get? "right" with
    | some (.string operator), some left, some right =>
      if operator = "," then
        [("type", .string "SequenceExpression"), ("expressions", .list (left.parts ++ [right]))]
      else node
    | _, _, _ => node
  else node

namespace Value

def normal (value : Value) : Value := value.mapNodes Fields.normal

mutual

/-- Equality of values with numbers compared by their values. -/
def Agrees : Value → Value → Prop
  | .number n, other => ∃ m, other = .number m ∧ n.agrees m = true
  | .list items, other => ∃ others, other = .list others ∧ AgreesItems items others
  | .object fields, other => ∃ others, other = .object others ∧ AgreesFields fields others
  | value, other => other = value

def AgreesItems : List Value → List Value → Prop
  | [], others => others = []
  | item :: rest, others =>
    ∃ other more, others = other :: more ∧ item.Agrees other ∧ AgreesItems rest more

def AgreesFields : List (String × Value) → List (String × Value) → Prop
  | [], others => others = []
  | (key, value) :: rest, others =>
    ∃ other more, others = (key, other) :: more ∧ value.Agrees other ∧ AgreesFields rest more

end

theorem AgreesItems.cons {item other : Value} {rest more : List Value} (one : item.Agrees other)
    (behind : AgreesItems rest more) : AgreesItems (item :: rest) (other :: more) :=
  ⟨other, more, rfl, one, behind⟩

theorem AgreesFields.cons {key : String} {value other : Value} {rest more : Fields}
    (one : value.Agrees other) (behind : AgreesFields rest more) :
    AgreesFields ((key, value) :: rest) ((key, other) :: more) :=
  ⟨other, more, rfl, one, behind⟩

theorem AgreesItems.append {items others rest more : List Value} (front : AgreesItems items others)
    (behind : AgreesItems rest more) : AgreesItems (items ++ rest) (others ++ more) := by
  induction items generalizing others with
  | nil =>
    rw [AgreesItems] at front
    subst front
    exact behind
  | cons item tail ih =>
    obtain ⟨other, list, rfl, one, inside⟩ := front
    exact .cons one (ih inside)

theorem agreesItems_map {α : Type} {list : List α} {f g : α → Value}
    (members : ∀ a ∈ list, (f a).Agrees (g a)) : AgreesItems (list.map f) (list.map g) := by
  induction list with
  | nil => rfl
  | cons a rest ih =>
    obtain ⟨first, behind⟩ := List.forall_mem_cons.mp members
    exact .cons first (ih behind)

theorem AgreesFields.get? {fields others : Fields} (agrees : AgreesFields fields others)
    (key : String) :
    (fields.get? key = none ∧ others.get? key = none) ∨
      ∃ value other, fields.get? key = some value ∧ others.get? key = some other ∧
        value.Agrees other := by
  induction fields generalizing others with
  | nil =>
    rw [AgreesFields] at agrees
    subst agrees
    exact .inl ⟨rfl, rfl⟩
  | cons entry rest ih =>
    obtain ⟨name, value⟩ := entry
    obtain ⟨other, more, rfl, one, behind⟩ := agrees
    rw [Fields.get?_cons, Fields.get?_cons]
    by_cases here : name = key
    · exact .inr ⟨value, other, if_pos here, if_pos here, one⟩
    · rw [if_neg here, if_neg here]
      exact ih behind

theorem AgreesFields.kind_eq {fields others : Fields} (agrees : AgreesFields fields others) :
    others.kind = fields.kind ∧ others.isNode = fields.isNode := by
  rcases agrees.get? "type" with ⟨none, none'⟩ | ⟨value, other, some, some', same⟩
  · simp [Fields.kind, Fields.isNode, Fields.contains, none, none']
  · have string : ∀ text, value = .string text ↔ other = .string text := by
      intro text
      cases value with
      | string s => rw [Agrees.eq_def] at same; subst same; rfl
      | number n => obtain ⟨m, rfl, -⟩ := same; simp
      | list items => obtain ⟨others, rfl, -⟩ := same; simp
      | object fields => obtain ⟨others, rfl, -⟩ := same; simp
      | null => rw [Agrees.eq_def] at same; subst same; rfl
      | bool b => rw [Agrees.eq_def] at same; subst same; rfl
    simp only [Fields.kind, Fields.isNode, Fields.contains, some, some', Option.isSome_some, and_true]
    cases value with
    | string s => rw [(string s).1 rfl]
    | number | list | object | null | bool =>
      split
      · rename_i text held
        exact absurd ((string text).2 (Option.some.inj held)) (by simp)
      · rfl

theorem Agrees.parts {value other : Value} (agrees : value.Agrees other) :
    AgreesItems value.parts other.parts := by
  have single {v w : Value} (same : v.Agrees w) : AgreesItems [v] [w] := .cons same rfl
  cases value with
  | object fields =>
    have whole := agrees
    obtain ⟨others, rfl, inside⟩ := agrees
    obtain ⟨kind, isNode⟩ := inside.kind_eq
    cases node : Fields.isNode fields with
    | false =>
      simp only [Value.parts, asNode?, isNode, node, Bool.false_eq_true, if_false]
      exact single whole
    | true =>
      simp only [Value.parts, asNode?, isNode, node, if_true, kind]
      cases Fields.kind fields == "SequenceExpression" with
      | false => exact single whole
      | true =>
        rcases inside.get? "expressions" with ⟨none, none'⟩ | ⟨value, other, some, some', same⟩
        · simp only [none, none']
          exact single whole
        · simp only [some, some']
          cases value with
          | list items =>
            obtain ⟨list, rfl, members⟩ := same
            exact members
          | number n => obtain ⟨m, rfl, -⟩ := same; exact single whole
          | object inner => obtain ⟨m, rfl, -⟩ := same; exact single whole
          | string | null | bool =>
            rw [Agrees.eq_def] at same
            subst same
            exact single whole
  | number n => obtain ⟨m, rfl, same⟩ := agrees; exact single ⟨m, rfl, same⟩
  | list items => obtain ⟨others, rfl, same⟩ := agrees; exact single ⟨others, rfl, same⟩
  | string | null | bool =>
    rw [Agrees.eq_def] at agrees
    subst agrees
    exact single rfl

end Value

namespace Script

open Token (Kind)
open Value (AgreesItems AgreesFields agreesItems_map)

variable {ι : Type}

theorem agrees_outlineNode {kind : String} {fields others : Fields}
    (inside : AgreesFields fields others) :
    (outlineNode kind fields).Agrees (outlineNode kind others) :=
  ⟨_, rfl, .cons rfl inside⟩

theorem normal_outlineNode (kind : String) (fields : Fields) :
    (outlineNode kind fields).normal =
      .object (Fields.normal (("type", .string kind) :: Value.mapNodesFields Fields.normal fields)) := by
  simp [outlineNode, Value.normal, Value.mapNodes, Value.mapNodesFields, Fields.isNode,
    Fields.contains, Fields.get?_cons]

theorem normal_outlineNode_of_ne {kind : String} (notNumber : kind ≠ "NumericLiteral")
    (notBinary : kind ≠ "BinaryExpression") (fields : Fields) :
    (outlineNode kind fields).normal =
      outlineNode kind (Value.mapNodesFields Fields.normal fields) := by
  rw [normal_outlineNode]
  simp [Fields.normal, Fields.kind, Fields.get?_cons, notNumber, notBinary, outlineNode]

theorem agrees_normal_node {kind : String} {fields others : Fields}
    (notNumber : kind ≠ "NumericLiteral") (notBinary : kind ≠ "BinaryExpression")
    (inside : AgreesFields (Value.mapNodesFields Fields.normal fields) others) :
    (outlineNode kind fields).normal.Agrees (outlineNode kind others) := by
  rw [normal_outlineNode_of_ne notNumber notBinary]
  exact agrees_outlineNode inside

theorem agrees_normal_list {α : Type} {list : List α} {f g : α → Value}
    (members : ∀ a ∈ list, (f a).normal.Agrees (g a)) :
    (Value.list (list.map f)).normal.Agrees (.list (list.map g)) := by
  refine ⟨list.map g, rfl, ?_⟩
  rw [Value.mapNodesItems_eq_map, List.map_map]
  exact agreesItems_map members

theorem parts_outline (e : Expr Unit) (right : Expr Unit) :
    (splice e right).outline false =
      outlineNode "SequenceExpression"
        [("expressions", .list ((e.outline false).parts ++ [right.outline false]))] := by
  cases e with
  | sequence n parts =>
    simp [splice, Expr.outline, Value.parts, outlineNode, Value.asNode?, Fields.isNode,
      Fields.contains, Fields.get?_cons, Fields.kind]
  | binary n operator left right =>
    cases logical : operator.isLogical <;>
      simp [splice, Expr.outline, Value.parts, outlineNode, Value.asNode?, Fields.isNode,
        Fields.contains, Fields.get?_cons, Fields.kind, logical]
  | _ =>
    simp [splice, Expr.outline, Value.parts, outlineNode, Value.asNode?, Fields.isNode,
      Fields.contains, Fields.get?_cons, Fields.kind, literalOutline]

def Shown (value : Number) (raw : Option String) : Prop :=
  ((Expr.number () value raw).outline false).normal.Agrees
    ((rereadNumber (raw.getD value.display)).outline false)

theorem normal_number (value : Number) (raw : Option String) :
    ((Expr.number () value raw).outline false).normal =
      if value.isNegative then
        (Expr.unary () .minus (Expr.number () value.abs none)).outline false
      else (Expr.number () value raw).outline false := by
  simp only [Expr.outline, literalOutline, Bool.false_eq_true, if_false, List.nil_append,
    normal_outlineNode, Value.mapNodesFields, Value.mapNodes]
  by_cases negative : value.isNegative = true <;>
    simp [Fields.normal, Fields.kind, Fields.get?_cons, negative, outlineNode, UnaryOperator.text]

theorem agrees_numbers {value other : Number} (same : value.agrees other = true)
    (raw raw' : Option String) :
    ((Expr.number () value raw).outline false).Agrees ((Expr.number () other raw').outline false) :=
  agrees_outlineNode (.cons ⟨other, rfl, same⟩ rfl)

section Normal

/-- A written expression in normal form agrees with what its text is read as. -/
theorem normal_agrees_reread {e : Expr ι} (printable : PrintableWith Shown e) :
    (e.outline false).normal.Agrees (e.reread.outline false) := by
  induction printable with
  | name | boolean => exact agrees_normal_node (by decide) (by decide) (.cons rfl rfl)
  | number shown => exact shown
  | string => exact agrees_normal_node (by decide) (by decide) (.cons rfl rfl)
  | null => exact agrees_normal_node (by decide) (by decide) rfl
  | @array n list _ ih =>
    have again : (list.map some).map (Option.map Expr.reread) = (list.map Expr.reread).map some := by
      simp
    rw [Expr.reread_array, again]
    simp only [Expr.outline, Expr.outlineElements_some]
    rw [List.map_map]
    exact agrees_normal_node (by decide) (by decide) (.cons (agrees_normal_list ih) rfl)
  | @binary n operator left right _ _ first second =>
    by_cases comma : operator = .comma
    · subst comma
      rw [Expr.reread_binary, if_pos rfl, parts_outline]
      have shape : ((Expr.binary n .comma left right).outline false).normal =
          outlineNode "SequenceExpression"
            [("expressions", .list ((left.outline false).normal.parts ++
              [(right.outline false).normal]))] := by
        simp only [Expr.outline, normal_outlineNode, Value.mapNodesFields]
        simp [Fields.normal, Fields.kind, Fields.get?_cons, BinaryOperator.isLogical, outlineNode,
          Value.normal, BinaryOperator.text, Value.mapNodes]
      rw [shape]
      exact agrees_outlineNode (.cons ⟨_, rfl, first.parts.append (.cons second rfl)⟩ rfl)
    · rw [Expr.reread_binary, if_neg comma, Expr.outline, Expr.outline]
      have inside : AgreesFields
          [("left", (left.outline false).normal), ("operator", .string operator.text),
            ("right", (right.outline false).normal)]
          [("left", left.reread.outline false), ("operator", .string operator.text),
            ("right", right.reread.outline false)] :=
        .cons first (.cons rfl (.cons second rfl))
      cases logical : operator.isLogical with
      | true => exact agrees_normal_node (by decide) (by decide) inside
      | false =>
        have other : operator.text ≠ "," := by
          revert comma
          cases operator <;> decide
        rw [normal_outlineNode]
        simp only [Value.mapNodesFields, Value.mapNodes]
        simp only [Fields.normal, Fields.kind, Fields.get?_cons, Bool.false_eq_true, if_false]
        simp only [reduceIte, String.reduceEq, other]
        exact agrees_outlineNode inside
  | unary _ ih =>
    exact agrees_normal_node (by decide) (by decide) (.cons rfl (.cons rfl (.cons ih rfl)))
  | update _ ih =>
    exact agrees_normal_node (by decide) (by decide) (.cons rfl (.cons rfl (.cons ih rfl)))
  | assignment _ _ _ first second =>
    exact agrees_normal_node (by decide) (by decide) (.cons rfl (.cons first (.cons second rfl)))
  | conditional _ _ _ condition first second =>
    exact agrees_normal_node (by decide) (by decide)
      (.cons condition (.cons first (.cons second rfl)))
  | sequence _ ih =>
    rw [Expr.reread_sequence]
    simp only [Expr.outline, Expr.outlineList_eq_map, List.map_map]
    exact agrees_normal_node (by decide) (by decide) (.cons (agrees_normal_list ih) rfl)
  | call _ _ callee arguments =>
    rw [Expr.reread_call]
    simp only [Expr.outline, Expr.outlineList_eq_map, List.map_map]
    exact agrees_normal_node (by decide) (by decide)
      (.cons callee (.cons (agrees_normal_list arguments) rfl))
  | dot _ _ ih =>
    exact agrees_normal_node (by decide) (by decide) (.cons ih (.cons rfl
      (.cons (agrees_normal_node (by decide) (by decide) (.cons rfl rfl)) rfl)))
  | bracket _ _ first second =>
    exact agrees_normal_node (by decide) (by decide) (.cons first (.cons rfl (.cons second rfl)))

end Normal

end Script

end Arborist

import Mathlib
import Arborist.Proofs.Script.RoundTrip

/-!
How parsed expressions are grouped. Without parentheses of its own an operand binds at least as
tightly as its place asks: operators group to the left, only `**` groups to the right, and what is
looser than its place never stands there bare. The rules are stated for every node of a tree of
values.
-/

namespace Arborist

open Script (BinaryOperator)

namespace Fields

def isParenthesized (node : Fields) : Bool :=
  match node.get? "extra" with
  | some (.object extra) =>
    match Fields.get? extra "parenthesized" with
    | some (.bool marked) => marked
    | _ => false
  | _ => false

def joinKinds : List String := ["BinaryExpression", "LogicalExpression"]

def looseKinds : List String :=
  ["ConditionalExpression", "AssignmentExpression", "SequenceExpression"]

def frontKinds : List String := ["UnaryExpression", "UpdateExpression"]

def joiner? (node : Fields) : Option BinaryOperator :=
  if node.kind ∈ joinKinds then
    ((node.get? "operator").bind Value.asString?).bind BinaryOperator.ofText?
  else none

/-- The kinds of nodes that never stand bare in a field of a node of the given kind. -/
def forbidden : String → String → List String
  | "BinaryExpression", "left" | "BinaryExpression", "right"
  | "LogicalExpression", "left" | "LogicalExpression", "right"
  | "ConditionalExpression", "test" | "AssignmentExpression", "left" => looseKinds
  | "UnaryExpression", "argument" | "UpdateExpression", "argument" => looseKinds ++ joinKinds
  | "MemberExpression", "object" | "CallExpression", "callee" =>
    looseKinds ++ joinKinds ++ frontKinds
  | "CallExpression", "arguments" | "ArrayExpression", "elements" | "VariableDeclarator", "init"
  | "ConditionalExpression", "consequent" | "ConditionalExpression", "alternate"
  | "AssignmentExpression", "right" | "SequenceExpression", "expressions" =>
    ["SequenceExpression"]
  | _, _ => []

end Fields

namespace Value

/-- The nodes that a field holds, itself or in a list, without parentheses around them. -/
def bareNodes (value : Value) : List Fields :=
  (match value with
    | .list items => items.filterMap asNode?
    | other => other.asNode?.toList).filter fun node => !node.isParenthesized

end Value

/-- A bare operator may stand to the left of another: it binds at least as tightly, and nothing
joined stands bare to the left of `**`. -/
def GroupsLeft (outer inner : BinaryOperator) : Prop :=
  outer ≠ .power ∧ outer.precedence ≤ inner.precedence

/-- A bare operator may stand to the right of another: it binds tighter, and behind `**` at least as
tightly. -/
def GroupsRight (outer inner : BinaryOperator) : Prop :=
  if outer = .power then outer.precedence ≤ inner.precedence
  else outer.precedence < inner.precedence

structure Fields.Grouped (node : Fields) : Prop where
  joined : node.kind ∈ joinKinds → node.joiner?.isSome = true
  operands : ∀ outer ∈ node.joiner?, ∀ entry ∈ node, ∀ child ∈ entry.2.bareNodes,
    ∀ inner ∈ child.joiner?,
      (entry.1 = "left" → GroupsLeft outer inner) ∧ (entry.1 = "right" → GroupsRight outer inner)
  places : ∀ entry ∈ node, ∀ child ∈ entry.2.bareNodes,
    child.kind ∉ forbidden node.kind entry.1

namespace Script

open Value (EachNode EachField)
open Fields (joinKinds looseKinds frontKinds forbidden)

variable {ι : Type}

namespace Expr

def rank : Expr ι → Level
  | .name .. | .number .. | .string .. | .boolean .. | .null _ | .array .. => Level.primary
  | .binary _ operator _ _ => Level.ofBinary operator
  | .unary .. => Level.unary
  | .update _ _ before _ => if before then Level.unary else Level.postfixed
  | .assignment .. => Level.assignment
  | .conditional .. => Level.conditional
  | .sequence .. => Level.sequence
  | .call .. | .member .. => Level.member

def nodeKind : Expr ι → String
  | .name .. => "Identifier"
  | .number .. => "NumericLiteral"
  | .string .. => "StringLiteral"
  | .boolean .. => "BooleanLiteral"
  | .null _ => "NullLiteral"
  | .array .. => "ArrayExpression"
  | .binary _ operator _ _ =>
    if operator.isLogical then "LogicalExpression" else "BinaryExpression"
  | .unary .. => "UnaryExpression"
  | .update .. => "UpdateExpression"
  | .assignment .. => "AssignmentExpression"
  | .conditional .. => "ConditionalExpression"
  | .sequence .. => "SequenceExpression"
  | .call .. => "CallExpression"
  | .member .. => "MemberExpression"

def joiner? : Expr ι → Option BinaryOperator
  | .binary _ operator _ _ => some operator
  | _ => none

def AtLevel (least : Level) (e : Expr Place) : Prop := e.note.paren = none → least ≤ e.rank

theorem AtLevel.mono {least more : Level} {e : Expr Place} (at_ : e.AtLevel more)
    (le : least ≤ more) : e.AtLevel least := fun bare => le.trans (at_ bare)

theorem not_sequence_of_rank {e : Expr ι} (tight : Level.assignment ≤ e.rank) :
    e.nodeKind ∉ ["SequenceExpression"] := by
  cases e with
  | sequence => exact absurd tight (by simp [rank, Level.assignment, Level.sequence])
  | binary n operator left right => cases operator <;> simp [nodeKind, BinaryOperator.isLogical]
  | _ => simp [nodeKind]

theorem not_loose_of_rank {e : Expr ι} (tight : Level.conditional + 1 ≤ e.rank) :
    e.nodeKind ∉ looseKinds := by
  cases e with
  | sequence | assignment | conditional =>
    exact absurd tight
      (by simp [rank, Level.assignment, Level.sequence, Level.conditional])
  | binary n operator left right =>
    cases operator <;> simp [nodeKind, BinaryOperator.isLogical, looseKinds]
  | _ => simp [nodeKind, looseKinds]

theorem not_joined_of_rank {e : Expr ι} (tight : Level.unary ≤ e.rank) :
    e.nodeKind ∉ looseKinds ++ joinKinds := by
  have loose := not_loose_of_rank (le_trans (by decide) tight)
  rw [List.mem_append, not_or]
  refine ⟨loose, ?_⟩
  cases e with
  | binary n operator left right => exact absurd tight (by cases operator <;> simp [rank] <;> decide)
  | _ => simp [nodeKind, joinKinds]

theorem not_front_of_rank {e : Expr ι} (tight : Level.member ≤ e.rank) :
    e.nodeKind ∉ looseKinds ++ joinKinds ++ frontKinds := by
  have joined := not_joined_of_rank (le_trans (by decide) tight)
  rw [List.mem_append, not_or]
  refine ⟨joined, ?_⟩
  cases e with
  | unary => exact absurd tight (by simp [rank]; decide)
  | update n operator before argument =>
    exact absurd tight (by cases before <;> simp [rank] <;> decide)
  | binary n operator left right => cases operator <;> simp [nodeKind, BinaryOperator.isLogical, frontKinds]
  | _ => simp [nodeKind, frontKinds]

theorem rank_of_joiner? {e : Expr ι} {operator : BinaryOperator} (joins : operator ∈ e.joiner?) :
    e.rank = Level.ofBinary operator := by
  cases e with
  | binary n op left right =>
    cases joins
    rfl
  | _ => cases joins

theorem not_loose_of_assignable {e : Expr ι} (assignable : e.isAssignable = true) :
    e.nodeKind ∉ looseKinds := by
  cases e with
  | name | member => simp [nodeKind, looseKinds]
  | _ => simp [isAssignable] at assignable

end Expr

theorem precedence_le_of_level {outer inner : BinaryOperator} (notComma : outer ≠ .comma)
    (le : Level.ofBinary outer ≤ Level.ofBinary inner) : outer.precedence ≤ inner.precedence := by
  have bounds := BinaryOperator.level_eq notComma
  by_cases comma : inner = .comma
  · subst comma
    rw [bounds.1] at le
    exact absurd le (by simp [Level.ofBinary, Level.sequence, BinaryOperator.precedence])
  · rw [bounds.1, (BinaryOperator.level_eq comma).1] at le
    exact Nat.le_of_add_le_add_right le

section Encode

variable {lines : LineIndex}

/-- Every bare node in a value is one of these expressions. -/
def Shows (value : Value) (list : List (Expr Place)) : Prop :=
  ∀ child ∈ value.bareNodes, ∃ e ∈ list, e.note.paren = none ∧ child.kind = e.nodeKind ∧
    child.joiner? = e.joiner?

theorem exists_encode (lines : LineIndex) (e : Expr Place) :
    ∃ node : Fields, e.encode lines = .object node ∧ node.isNode = true ∧ node.kind = e.nodeKind ∧
      node.joiner? = e.joiner? ∧ (node.isParenthesized = false → e.note.paren = none) := by
  have marked {kind : String} {place : Place} {fields : Fields}
      (own : fields.get? "extra" = none) :
      Fields.isParenthesized (nodeFields lines kind place.span
        (fields ++ extraFields (parenFields place.paren))) = false → place.paren = none := by
    cases paren : place.paren with
    | none => simp
    | some start =>
      simp [Fields.isParenthesized, nodeFields, Fields.get?_cons, Fields.get?_append, own,
        extraFields, parenFields]
  cases e with
  | number place value raw | string place value raw =>
    refine ⟨_, rfl, rfl, rfl, rfl, ?_⟩
    cases paren : place.paren with
    | none => simp [Expr.note, paren]
    | some start =>
      cases raw <;>
        simp [Fields.isParenthesized, nodeFields, Fields.get?_cons, extraFields, parenFields,
          rawFields]
  | binary place operator left right =>
    refine ⟨_, rfl, rfl, rfl, ?_, marked (by simp [Fields.get?_cons])⟩
    have found : Fields.get? (nodeFields lines
        (if operator.isLogical then "LogicalExpression" else "BinaryExpression") place.span
        ([("left", left.encode lines), ("operator", textValue operator.text),
          ("right", right.encode lines)] ++ extraFields (parenFields place.paren))) "operator" =
          some (.string operator.text) := by
      simp [nodeFields, Fields.get?_cons, textValue]
    have kind : (if operator.isLogical then "LogicalExpression" else "BinaryExpression") ∈
        joinKinds := by
      cases operator.isLogical <;> simp [joinKinds]
    rw [Fields.joiner?, found]
    exact (if_pos kind).trans (BinaryOperator.ofText?_text operator)
  | _ => exact ⟨_, rfl, rfl, rfl, rfl, marked (by simp [Fields.get?_cons])⟩

theorem shown_encode (lines : LineIndex) (e : Expr Place) {child : Fields}
    (member : child ∈ (e.encode lines).bareNodes) :
    e.note.paren = none ∧ child.kind = e.nodeKind ∧ child.joiner? = e.joiner? := by
  obtain ⟨node, shape, isNode, kind, joiner, parens⟩ := exists_encode lines e
  simp only [shape, Value.bareNodes, Value.asNode?, isNode, if_true, Option.toList_some,
    List.mem_filter, List.mem_singleton, Bool.not_eq_true'] at member
  obtain ⟨rfl, bare⟩ := member
  exact ⟨parens bare, kind, joiner⟩

theorem shows_encode (e : Expr Place) : Shows (e.encode lines) [e] :=
  fun _ member => ⟨e, List.mem_singleton_self e, shown_encode lines e member⟩

theorem shows_list (list : List (Expr Place)) : Shows (.list (list.map (Expr.encode lines))) list := by
  intro child member
  simp only [Value.bareNodes, List.mem_filter, List.mem_filterMap, List.mem_map] at member
  obtain ⟨⟨_, ⟨e, inside, rfl⟩, node⟩, bare⟩ := member
  refine ⟨e, inside, shown_encode lines e ?_⟩
  obtain ⟨shape, -⟩ := Value.eq_object_of_asNode? node
  rw [shape] at node ⊢
  simpa [Value.bareNodes, node] using bare

theorem bareNodes_extra (entries : Fields) (plain : Fields.isNode entries = false) :
    ∀ entry ∈ extraFields entries, entry.2.bareNodes = [] := by
  intro entry member
  unfold extraFields at member
  split at member
  · exact absurd member List.not_mem_nil
  · rw [List.mem_singleton] at member
    simp [member, Value.bareNodes, Value.asNode?, plain]

theorem bareNodes_frame (lines : LineIndex) (kind : String) (span : Span) :
    ∀ entry ∈ nodeFields lines kind span [], entry.2.bareNodes = [] := by
  simp [nodeFields, Value.bareNodes, Value.asNode?, natValue, textValue, Fields.isNode,
    Fields.contains, Fields.get?_cons]

def Suits (kind : String) (joiner : Option BinaryOperator) (entry : String × Value) : Prop :=
  ∀ child ∈ entry.2.bareNodes, child.kind ∉ forbidden kind entry.1 ∧
    ∀ outer ∈ joiner, ∀ inner ∈ child.joiner?,
      (entry.1 = "left" → GroupsLeft outer inner) ∧ (entry.1 = "right" → GroupsRight outer inner)

theorem suits_scalar {kind field : String} {joiner : Option BinaryOperator} {value : Value}
    (scalar : value.bareNodes = []) : Suits kind joiner (field, value) := by
  simp [Suits, scalar]

theorem suits_free {kind field : String} {value : Value} (free : forbidden kind field = []) :
    Suits kind none (field, value) := by
  simp [Suits, free]

theorem suits_of_kinds {kind field : String} {value : Value} {list : List (Expr Place)}
    (shown : Shows value list)
    (fine : ∀ e ∈ list, e.note.paren = none → e.nodeKind ∉ forbidden kind field) :
    Suits kind none (field, value) := by
  intro child member
  obtain ⟨e, among, bare, same, -⟩ := shown child member
  exact ⟨same ▸ fine e among bare, by simp⟩

theorem grouped_of_suits {kind : String} {span : Span} {fields back : Fields}
    (joiner : Option BinaryOperator) (suits : ∀ entry ∈ fields, Suits kind joiner entry)
    (plain : ∀ entry ∈ back, entry.2.bareNodes = [])
    (joins : Fields.joiner? (nodeFields lines kind span (fields ++ back)) = joiner)
    (known : kind ∈ joinKinds → joiner.isSome = true) :
    Fields.Grouped (nodeFields lines kind span (fields ++ back)) := by
  have every : ∀ entry ∈ nodeFields lines kind span (fields ++ back),
      entry.2.bareNodes = [] ∨ entry ∈ fields := by
    intro entry member
    rcases List.mem_append.mp member with frame | rest
    · exact .inl (bareNodes_frame lines kind span entry frame)
    · exact (List.mem_append.mp rest).symm.imp_left (plain entry)
  refine ⟨fun joined => joins ▸ known joined, ?_, ?_⟩
  · intro outer isOuter entry member child inside inner isInner
    rcases every entry member with none | own
    · exact absurd inside (by simp [none])
    · exact (suits entry own child inside).2 outer (joins ▸ isOuter) inner isInner
  · intro entry member child inside
    rcases every entry member with none | own
    · exact absurd inside (by simp [none])
    · exact (suits entry own child inside).1

theorem eachNode_of_suits {kind : String} {place : Place} {fields : Fields}
    (suits : ∀ entry ∈ fields, Suits kind none entry) (other : kind ∉ joinKinds)
    (inside : EachField Fields.Grouped fields) :
    (plainNode lines kind place fields).EachNode Fields.Grouped := by
  have parens := (eachField_parens Fields.Grouped place.paren).2
  refine eachNode_plainNode (grouped_of_suits none suits (bareNodes_extra _ parens) ?_ ?_) inside
  · exact if_neg other
  · exact fun joined => absurd joined other

theorem eachNode_literal {kind : String} {place : Place} {value : Value} {raw : Option String}
    (scalar : value.EachNode Fields.Grouped) (plain : value.bareNodes = []) (other : kind ∉ joinKinds) :
    (literalNode lines kind place value raw).EachNode Fields.Grouped := by
  refine eachNode_literalNode ?_ scalar
  change Fields.Grouped (nodeFields lines kind place.span ([] ++ _))
  refine grouped_of_suits none (by simp) ?_ (if_neg other) fun joined => absurd joined other
  intro entry member
  rcases List.mem_append.mp member with spelling | own
  · exact bareNodes_extra _ (eachField_spelling scalar raw place.paren).2 entry spelling
  · rw [List.mem_singleton.mp own, plain]

end Encode

def leastLeft (operator : BinaryOperator) : Level :=
  if operator = .power then Level.unary else Level.ofBinary operator

def leastRight (operator : BinaryOperator) : Level :=
  if operator = .power then Level.ofBinary operator else Level.ofBinary operator + 1

/-- The expressions whose parts bind as tightly as their places ask. -/
inductive Expr.Grouped : Expr Place → Prop where
  | name {n : Place} {text : String} : Grouped (.name n text)
  | number {n : Place} {value : Number} {raw : Option String} : Grouped (.number n value raw)
  | string {n : Place} {value : String} {raw : Option String} : Grouped (.string n value raw)
  | boolean {n : Place} {value : Bool} : Grouped (.boolean n value)
  | null {n : Place} : Grouped (.null n)
  | array {n : Place} {list : List (Expr Place)} (inner : ∀ e ∈ list, Grouped e)
      (tight : ∀ e ∈ list, e.AtLevel Level.assignment) : Grouped (.array n (list.map some))
  | binary {n : Place} {operator : BinaryOperator} {left right : Expr Place}
      (notComma : operator ≠ .comma) (first : Grouped left) (second : Grouped right)
      (tightLeft : left.AtLevel (leastLeft operator))
      (tightRight : right.AtLevel (leastRight operator)) : Grouped (.binary n operator left right)
  | unary {n : Place} {operator : UnaryOperator} {argument : Expr Place} (inner : Grouped argument)
      (tight : argument.AtLevel Level.unary) : Grouped (.unary n operator argument)
  | update {n : Place} {operator : UpdateOperator} {before : Bool} {argument : Expr Place}
      (inner : Grouped argument) (tight : argument.AtLevel Level.unary) :
      Grouped (.update n operator before argument)
  | assignment {n : Place} {operator : AssignmentOperator} {target value : Expr Place}
      (assignable : target.isAssignable = true) (first : Grouped target) (second : Grouped value)
      (tight : value.AtLevel Level.assignment) : Grouped (.assignment n operator target value)
  | conditional {n : Place} {test consequent alternate : Expr Place} (condition : Grouped test)
      (positive : Grouped consequent) (negative : Grouped alternate)
      (tightTest : test.AtLevel (Level.conditional + 1))
      (tightPositive : consequent.AtLevel Level.assignment)
      (tightNegative : alternate.AtLevel Level.assignment) :
      Grouped (.conditional n test consequent alternate)
  | sequence {n : Place} {parts : List (Expr Place)} (inner : ∀ e ∈ parts, Grouped e)
      (tight : ∀ e ∈ parts, e.AtLevel Level.assignment) : Grouped (.sequence n parts)
  | call {n : Place} {callee : Expr Place} {arguments : List (Expr Place)} (first : Grouped callee)
      (tight : callee.AtLevel Level.member) (inner : ∀ e ∈ arguments, Grouped e)
      (tights : ∀ e ∈ arguments, e.AtLevel Level.assignment) : Grouped (.call n callee arguments)
  | member {n : Place} {object property : Expr Place} {computed : Bool} (first : Grouped object)
      (second : Grouped property) (tight : object.AtLevel Level.member) :
      Grouped (.member n object property computed)

theorem Expr.Grouped.withNote {e : Expr Place} (grouped : e.Grouped) (n : Place) :
    (e.withNote n).Grouped := by
  cases grouped with
  | name => exact .name
  | number => exact .number
  | string => exact .string
  | boolean => exact .boolean
  | null => exact .null
  | array inner tight => exact .array inner tight
  | binary notComma first second left right => exact .binary notComma first second left right
  | unary inner tight => exact .unary inner tight
  | update inner tight => exact .update inner tight
  | assignment assignable first second tight => exact .assignment assignable first second tight
  | conditional test positive negative first second third =>
    exact .conditional test positive negative first second third
  | sequence inner tight => exact .sequence inner tight
  | call first tight inner tights => exact .call first tight inner tights
  | member first second tight => exact .member first second tight

def Phrase.Grouped : Phrase → Prop
  | .expr least e => e.AtLevel least ∧ e.Grouped
  | .items list | .parts list => ∀ e ∈ list, e.AtLevel Level.assignment ∧ e.Grouped

/-- Derived expressions are grouped by the levels of the grammar. -/
theorem Derives.grouped {phrase : Phrase} {ts : List Token} (derives : Derives phrase ts) :
    phrase.Grouped := by
  induction derives with
  | name _ _ => exact ⟨fun _ => le_refl _, .name⟩
  | number _ => exact ⟨fun _ => le_refl _, .number⟩
  | string _ => exact ⟨fun _ => le_refl _, .string⟩
  | boolean _ => exact ⟨fun _ => le_refl _, .boolean⟩
  | null _ => exact ⟨fun _ => le_refl _, .null⟩
  | @paren a b ts e opening _ closing ih =>
    refine ⟨fun bare => ?_, ih.2.withNote _⟩
    cases e <;> simp [Expr.withNote, Expr.note] at bare
  | array _ _ _ ih =>
    exact ⟨fun _ => le_refl _, .array (fun e member => (ih e member).2) fun e member => (ih e member).1⟩
  | dot _ _ _ ih => exact ⟨fun _ => le_refl _, .member ih.2 .name ih.1⟩
  | bracket _ _ _ _ ih index => exact ⟨fun _ => le_refl _, .member ih.2 index.2 ih.1⟩
  | call _ _ _ _ ih arguments =>
    exact ⟨fun _ => le_refl _, .call ih.2 ih.1 (fun e member => (arguments e member).2)
      fun e member => (arguments e member).1⟩
  | updated _ _ _ ih => exact ⟨fun _ => le_refl _, .update ih.2 (ih.1.mono (by decide))⟩
  | unary _ _ ih => exact ⟨fun _ => le_refl _, .unary ih.2 ih.1⟩
  | updating _ _ ih => exact ⟨fun _ => le_refl _, .update ih.2 ih.1⟩
  | power _ _ _ base exponent =>
    exact ⟨fun _ => le_refl _, .binary (by decide) base.2 exponent.2 base.1 exponent.1⟩
  | binary notComma notPower _ _ _ left right =>
    refine ⟨fun _ => le_refl _, .binary notComma left.2 right.2 ?_ ?_⟩
    · rw [leastLeft, if_neg notPower]
      exact left.1
    · rw [leastRight, if_neg notPower]
      exact right.1
  | conditional _ _ _ _ _ test positive negative =>
    exact ⟨fun _ => le_refl _,
      .conditional test.2 positive.2 negative.2 test.1 positive.1 negative.1⟩
  | assignment _ assignable _ _ left right =>
    exact ⟨fun _ => le_refl _, .assignment assignable left.2 right.2 right.1⟩
  | @sequence ts us first rest _ _ _ head tail =>
    have all : ∀ e ∈ first :: rest, e.AtLevel Level.assignment ∧ e.Grouped :=
      List.forall_mem_cons.mpr ⟨head, tail⟩
    exact ⟨fun _ => le_refl _, .sequence (fun e member => (all e member).2)
      fun e member => (all e member).1⟩
  | looser _ ih => exact ⟨ih.1.mono (Nat.le_succ _), ih.2⟩
  | noItems | noParts => exact fun e member => absurd member List.not_mem_nil
  | oneItem _ ih => exact List.forall_mem_singleton.mpr ih
  | moreItems _ _ _ item rest => exact List.forall_mem_cons.mpr ⟨item, rest⟩
  | moreParts _ _ _ part rest => exact List.forall_mem_cons.mpr ⟨part, rest⟩

theorem groups_of_levels {outer inner : BinaryOperator} (notComma : outer ≠ .comma) :
    (leastLeft outer ≤ Level.ofBinary inner → GroupsLeft outer inner) ∧
      (leastRight outer ≤ Level.ofBinary inner → GroupsRight outer inner) := by
  by_cases power : outer = .power
  · subst power
    refine ⟨fun left => absurd left (by cases inner <;> decide), fun right => ?_⟩
    rw [GroupsRight, if_pos rfl]
    exact precedence_le_of_level notComma right
  · rw [leastLeft, leastRight, if_neg power, if_neg power, GroupsRight, if_neg power]
    refine ⟨fun left => ⟨power, precedence_le_of_level notComma left⟩, fun right => ?_⟩
    have le := precedence_le_of_level notComma (le_trans (Nat.le_succ _) right)
    refine lt_of_le_of_ne le fun same => ?_
    have level : Level.ofBinary outer = Level.ofBinary inner := by simp only [Level.ofBinary, same]
    exact absurd (level ▸ right) (Nat.not_succ_le_self _)

theorem leastLeft_bound {operator : BinaryOperator} (notComma : operator ≠ .comma) :
    Level.conditional + 1 ≤ leastLeft operator ∧ Level.conditional + 1 ≤ leastRight operator := by
  cases operator <;> first | exact absurd rfl notComma | decide

section Nodes

variable {lines : LineIndex}

theorem suits_list {kind field : String} {list : List (Expr Place)}
    (tight : ∀ e ∈ list, e.AtLevel Level.assignment)
    (place : forbidden kind field = ["SequenceExpression"]) :
    Suits kind none (field, .list (list.map (Expr.encode lines))) :=
  suits_of_kinds (shows_list list) fun e member bare =>
    place ▸ Expr.not_sequence_of_rank (tight e member bare)

theorem suits_one {kind field : String} {e : Expr Place}
    (fine : e.note.paren = none → e.nodeKind ∉ forbidden kind field) :
    Suits kind none (field, e.encode lines) :=
  suits_of_kinds (shows_encode e) fun other member bare => by
    rw [List.mem_singleton] at member
    subst member
    exact fine bare

theorem eachNode_binary {place : Place} {operator : BinaryOperator} {left right : Expr Place}
    (notComma : operator ≠ .comma) (first : (left.encode lines).EachNode Fields.Grouped)
    (second : (right.encode lines).EachNode Fields.Grouped)
    (tightLeft : left.AtLevel (leastLeft operator))
    (tightRight : right.AtLevel (leastRight operator)) :
    ((Expr.binary place operator left right).encode lines).EachNode Fields.Grouped := by
  obtain ⟨boundLeft, boundRight⟩ := leastLeft_bound notComma
  have loose (field : String) (side : field = "left" ∨ field = "right") :
      forbidden (if operator.isLogical then "LogicalExpression" else "BinaryExpression") field =
        looseKinds := by
    rcases side with rfl | rfl <;> cases operator.isLogical <;> rfl
  have parens := (eachField_parens Fields.Grouped place.paren).2
  obtain ⟨node, shape, -, -, joiner, -⟩ := exists_encode lines (.binary place operator left right)
  refine eachNode_plainNode (grouped_of_suits (some operator) ?_
    (bareNodes_extra _ parens) ?_ fun _ => rfl) ⟨first, trivial, second, trivial⟩
  · simp only [List.forall_mem_cons]
    refine ⟨fun child member => ?_, suits_scalar rfl, fun child member => ?_, by simp⟩
    · obtain ⟨bare, kind, joins⟩ := shown_encode lines left member
      rw [kind, joins, loose "left" (.inl rfl)]
      refine ⟨Expr.not_loose_of_rank (le_trans boundLeft (tightLeft bare)), ?_⟩
      rintro outer ⟨⟩ inner isInner
      have level := tightLeft bare
      rw [Expr.rank_of_joiner? isInner] at level
      exact ⟨fun _ => (groups_of_levels notComma).1 level, by simp⟩
    · obtain ⟨bare, kind, joins⟩ := shown_encode lines right member
      rw [kind, joins, loose "right" (.inr rfl)]
      refine ⟨Expr.not_loose_of_rank (le_trans boundRight (tightRight bare)), ?_⟩
      rintro outer ⟨⟩ inner isInner
      have level := tightRight bare
      rw [Expr.rank_of_joiner? isInner] at level
      exact ⟨by simp, fun _ => (groups_of_levels notComma).2 level⟩
  · injection shape with shape
    rw [shape]
    exact joiner

theorem Expr.Grouped.eachNode {e : Expr Place} (grouped : e.Grouped) :
    (e.encode lines).EachNode Fields.Grouped := by
  induction grouped with
  | name =>
    exact eachNode_of_suits (by simpa using suits_scalar rfl) (by decide) ⟨trivial, trivial⟩
  | number | string => exact eachNode_literal trivial rfl (by decide)
  | boolean =>
    exact eachNode_of_suits (by simpa using suits_scalar rfl) (by decide) ⟨trivial, trivial⟩
  | null => exact eachNode_of_suits (by simp) (by decide) trivial
  | @array n list _ tight ih =>
    rw [Expr.encode, Expr.encodeElements_some]
    refine eachNode_of_suits ?_ (by decide) ⟨Value.eachNode_list ih, trivial⟩
    exact List.forall_mem_singleton.mpr (suits_list tight rfl)
  | binary notComma _ _ left right first second =>
    exact eachNode_binary notComma first second left right
  | unary _ tight ih =>
    refine eachNode_of_suits ?_ (by decide) ⟨trivial, trivial, ih, trivial⟩
    simp only [List.forall_mem_cons]
    exact ⟨suits_scalar rfl, suits_scalar rfl,
      suits_one fun bare => Expr.not_joined_of_rank (tight bare), by simp⟩
  | update _ tight ih =>
    refine eachNode_of_suits ?_ (by decide) ⟨trivial, trivial, ih, trivial⟩
    simp only [List.forall_mem_cons]
    exact ⟨suits_scalar rfl, suits_scalar rfl,
      suits_one fun bare => Expr.not_joined_of_rank (tight bare), by simp⟩
  | assignment assignable _ _ tight first second =>
    refine eachNode_of_suits ?_ (by decide) ⟨trivial, first, second, trivial⟩
    simp only [List.forall_mem_cons]
    exact ⟨suits_scalar rfl, suits_one fun _ => Expr.not_loose_of_assignable assignable,
      suits_one fun bare => Expr.not_sequence_of_rank (tight bare), by simp⟩
  | conditional _ _ _ test positive negative first second third =>
    refine eachNode_of_suits ?_ (by decide) ⟨first, second, third, trivial⟩
    simp only [List.forall_mem_cons]
    exact ⟨suits_one fun bare => Expr.not_loose_of_rank (test bare),
      suits_one fun bare => Expr.not_sequence_of_rank (positive bare),
      suits_one fun bare => Expr.not_sequence_of_rank (negative bare), by simp⟩
  | sequence _ tight ih =>
    rw [Expr.encode, Expr.encodeList_eq_map]
    refine eachNode_of_suits ?_ (by decide) ⟨Value.eachNode_list ih, trivial⟩
    exact List.forall_mem_singleton.mpr (suits_list tight rfl)
  | call _ tight _ tights first ih =>
    rw [Expr.encode, Expr.encodeList_eq_map]
    refine eachNode_of_suits ?_ (by decide) ⟨first, Value.eachNode_list ih, trivial⟩
    simp only [List.forall_mem_cons]
    exact ⟨suits_one fun bare => Expr.not_front_of_rank (tight bare), suits_list tights rfl, by simp⟩
  | member _ _ tight first second =>
    refine eachNode_of_suits ?_ (by decide) ⟨first, trivial, second, trivial⟩
    simp only [List.forall_mem_cons]
    exact ⟨suits_one fun bare => Expr.not_front_of_rank (tight bare), suits_scalar rfl,
      suits_one fun _ => List.not_mem_nil, by simp⟩

theorem eachNode_free {kind : String} {place : Place} {fields : Fields}
    (free : ∀ entry ∈ fields, forbidden kind entry.1 = []) (other : kind ∉ joinKinds)
    (inside : EachField Fields.Grouped fields) :
    (plainNode lines kind place fields).EachNode Fields.Grouped :=
  eachNode_of_suits (fun entry member => suits_free (free entry member)) other inside

theorem Named.grouped {e : Expr Place} {t : Token} (named : Named e t) : e.Grouped := by
  cases named with
  | intro _ _ => exact .name

theorem Parameters.grouped {list : List (Expr Place)} {ts : List Token}
    (parameters : Parameters list ts) : ∀ e ∈ list, e.Grouped := by
  induction parameters with
  | none => exact fun e member => absurd member List.not_mem_nil
  | one name => exact List.forall_mem_singleton.mpr name.grouped
  | more name _ _ ih => exact List.forall_mem_cons.mpr ⟨name.grouped, ih⟩

theorem Declares.eachNode {d : Declarator Place} {ts : List Token} {next : Token}
    (declares : Declares d ts next) : (d.encode lines).EachNode Fields.Grouped := by
  cases declares with
  | plain name _ =>
    refine eachNode_of_suits ?_ (by decide) ⟨name.grouped.eachNode, trivial, trivial⟩
    simp only [List.forall_mem_cons]
    exact ⟨suits_free rfl, suits_scalar rfl, by simp⟩
  | initial name _ inner _ =>
    obtain ⟨tight, grouped⟩ := inner.grouped
    refine eachNode_of_suits ?_ (by decide) ⟨name.grouped.eachNode, grouped.eachNode, trivial⟩
    simp only [List.forall_mem_cons]
    exact ⟨suits_free rfl, suits_one fun bare => Expr.not_sequence_of_rank (tight bare), by simp⟩

theorem DeclaresAll.eachNode {list : List (Declarator Place)} {ts : List Token} {next : Token}
    (declares : DeclaresAll list ts next) :
    ∀ d ∈ list, (d.encode lines).EachNode Fields.Grouped := by
  induction declares with
  | last one _ => exact List.forall_mem_singleton.mpr one.eachNode
  | more one _ _ ih => exact List.forall_mem_cons.mpr ⟨one.eachNode, ih⟩

theorem Heads.grouped {head : FunctionHead Place} {ts : List Token} (heads : Heads head ts) :
    head.name.Grouped ∧ ∀ e ∈ head.parameters, e.Grouped := by
  cases heads with
  | intro _ _ _ named _ list _ => exact ⟨named.grouped, list.grouped⟩

def Passage.Grouped (lines : LineIndex) : Passage → Prop
  | .statement s => (s.encode lines).EachNode Fields.Grouped
  | .block _ list | .body list => ∀ s ∈ list, (s.encode lines).EachNode Fields.Grouped

theorem eachNode_block {place : Place} {body : List (Stmt Place)}
    (each : ∀ s ∈ body, (s.encode lines).EachNode Fields.Grouped) :
    (blockNode lines place (Stmt.encodeList lines body)).EachNode Fields.Grouped := by
  rw [Stmt.encodeList_eq_map]
  exact eachNode_free (by simp [forbidden]) (by decide)
    ⟨Value.eachNode_list each, trivial, trivial⟩

theorem Forms.grouped {passage : Passage} {ts : List Token} {next : Token}
    (forms : Forms passage ts next) : passage.Grouped lines := by
  induction forms with
  | declaration _ declarators _ =>
    exact eachNode_free (by simp [forbidden]) (by decide)
      ⟨Value.eachNode_list declarators.eachNode, trivial, trivial⟩
  | function front _ ih =>
    obtain ⟨name, parameters⟩ := front.grouped
    refine eachNode_free (by simp [forbidden]) (by decide)
      ⟨name.eachNode, trivial, trivial, ?_, eachNode_block ih, trivial⟩
    rw [Expr.encodeList_eq_map]
    exact Value.eachNode_list fun e member => (parameters e member).eachNode
  | block _ ih => exact eachNode_block ih
  | leave _ _ => exact eachNode_free (by simp [forbidden]) (by decide) ⟨trivial, trivial⟩
  | ret _ inner _ _ _ =>
    exact eachNode_free (by simp [forbidden]) (by decide) ⟨inner.grouped.2.eachNode, trivial⟩
  | expression inner _ _ =>
    exact eachNode_free (by simp [forbidden]) (by decide) ⟨inner.grouped.2.eachNode, trivial⟩
  | branch _ _ condition _ _ _ ih =>
    exact eachNode_free (by simp [forbidden]) (by decide)
      ⟨condition.grouped.2.eachNode, ih, trivial, trivial⟩
  | choice _ _ condition _ _ _ _ positive negative =>
    exact eachNode_free (by simp [forbidden]) (by decide)
      ⟨condition.grouped.2.eachNode, positive, negative, trivial⟩
  | empty _ => exact eachNode_free (by simp) (by decide) trivial
  | braces _ _ _ ih => exact ih
  | done => exact fun s member => absurd member List.not_mem_nil
  | more _ _ first rest => exact List.forall_mem_cons.mpr ⟨first, rest⟩

end Nodes

/-- Every node of the tree of an accepted text is grouped by precedence and associativity. -/
theorem grouped_of_parseProgram {text : String} {tree : Fields}
    (parsed : parseProgram text = .ok tree) : (Value.object tree).EachNode Fields.Grouped := by
  obtain ⟨inner, last, body, accepted, rfl⟩ := exists_of_parseProgram parsed
  have each : ∀ s ∈ body, (s.encode (Source.ofString text).lines).EachNode Fields.Grouped :=
    accepted.forms.grouped
  have whole (lines : LineIndex) (length : Nat) :
      Value.object (programFields lines length body) =
        plainNode lines "Program" ⟨⟨0, length⟩, none⟩
          [("sourceType", textValue "script"), ("interpreter", .null),
            ("body", .list (Stmt.encodeList lines body)), ("directives", .list [])] := rfl
  rw [whole, Stmt.encodeList_eq_map]
  exact eachNode_free (by simp [forbidden]) (by decide)
    ⟨trivial, trivial, Value.eachNode_list each, trivial, trivial⟩

theorem grouped_of_parseProgram_chain :
    ∃ tree, parseProgram "x = (a + b) * -c ** (2 ** d, e) - f(g ? h : i).j" = .ok tree ∧
      (Value.object tree).EachNode Fields.Grouped := by
  obtain ⟨tree, parsed⟩ : ∃ tree,
      parseProgram "x = (a + b) * -c ** (2 ** d, e) - f(g ? h : i).j" = .ok tree :=
    exists_of_isOk (by decide +kernel)
  exact ⟨tree, parsed, grouped_of_parseProgram parsed⟩

end Script

end Arborist

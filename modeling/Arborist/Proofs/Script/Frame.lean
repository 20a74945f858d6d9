import Mathlib
import Arborist.Proofs.Value.Nodes
import Arborist.Script.Decode
import Arborist.Script.Encode
import Arborist.Widget.Registry

/-!
Encoded nodes and how their fields are read. Every node has its kind and its position before its own
fields; what was written over registered fields leaves this frame as it is.
-/

namespace Arborist

namespace InputKind

def Takes : InputKind → Value → Prop
  | .choice options, value => ∃ option ∈ options, value = .string option
  | .text, value => ∃ text, value = .string text
  | .number, value => ∃ n, value = .number n
  | .toggle, value => ∃ b, value = .bool b

theorem Takes.scalar {input : InputKind} {value : Value} (takes : input.Takes value) :
    value.asNode? = none ∧ value.asList? = none := by
  cases input with
  | choice =>
    obtain ⟨_, -, rfl⟩ := takes
    exact ⟨rfl, rfl⟩
  | _ =>
    obtain ⟨_, rfl⟩ := takes
    exact ⟨rfl, rfl⟩

end InputKind

namespace Registry

def builtinInput? (kind field : String) : Option InputKind := builtinInputs.lookup (key kind field)

theorem lookup_map {α β : Type} (f : α → β) (entries : List (String × α)) (name : String) :
    (entries.map fun entry => (entry.1, f entry.2)).lookup name = (entries.lookup name).map f := by
  induction entries with
  | nil => rfl
  | cons entry rest ih =>
    rw [List.map_cons, List.lookup_cons, List.lookup_cons, ih]
    cases name == entry.1 <;> rfl

theorem resolve?_builtin (kind field : String) :
    builtin.resolve? kind field = (builtinInput? kind field).map InputKind.build :=
  lookup_map ..

end Registry

namespace Value

/-- Only registered fields are written, and only with what their inputs send. -/
structure Allowance.Registered (allows : Allowance) : Prop where
  input : ∀ {kind field value other}, allows kind field value other →
    ∃ input, Registry.builtinInput? kind field = some input ∧ input.Takes other

theorem builtinInput?_eq_none (kind : String) {field : String}
    (other : ∀ entry ∈ Registry.builtinInputs, ¬ '.' :: field.toList <:+ entry.1.toList) :
    Registry.builtinInput? kind field = none := by
  rw [Registry.builtinInput?, List.lookup_eq_none_iff]
  rintro ⟨name, input⟩ member
  rw [bne_iff_ne]
  rintro rfl
  refine other _ member ⟨kind.toList, ?_⟩
  simp [Registry.key]

theorem builtinInput?_type (kind : String) : Registry.builtinInput? kind "type" = none :=
  builtinInput?_eq_none kind (by decide)

theorem builtinInput?_extra (kind : String) : Registry.builtinInput? kind "extra" = none :=
  builtinInput?_eq_none kind (by decide)

section Registered

variable {allows : Allowance} (registered : allows.Registered)

include registered

theorem Allowance.Registered.flat : allows.Flat where
  typed written := by
    obtain ⟨input, found, -⟩ := registered.input written
    simp [builtinInput?_type] at found
  scalar written := by
    obtain ⟨input, -, takes⟩ := registered.input written
    exact takes.scalar

theorem Allowance.Registered.varies {kind field : String} {value other : Value}
    (free : Registry.builtinInput? kind field = none)
    (same : value.Varies allows other ∨ allows kind field value other) :
    value.Varies allows other := by
  rcases same with same | written
  · exact same
  · obtain ⟨input, found, -⟩ := registered.input written
    simp [free] at found

end Registered

theorem variesFields_append {allows : Allowance} {kind : String} {front rest others : Fields} :
    VariesFields allows kind (front ++ rest) others ↔
      ∃ first second, others = first ++ second ∧ VariesFields allows kind front first ∧
        VariesFields allows kind rest second := by
  induction front generalizing others with
  | nil => simp [VariesFields]
  | cons entry more ih =>
    simp only [List.cons_append, VariesFields, ih]
    constructor
    · rintro ⟨other, _, rfl, same, first, second, rfl, front, back⟩
      exact ⟨(entry.1, other) :: first, second, rfl, ⟨other, first, rfl, same, front⟩, back⟩
    · rintro ⟨_, second, rfl, ⟨other, first, rfl, same, front⟩, back⟩
      exact ⟨other, first ++ second, rfl, same, first, second, rfl, front, back⟩

end Value

namespace Script

open Value (Allowance Varies VariesItems VariesFields variesFields_append EachNode EachField)

/-- The keys of a node that are not fields of its own. -/
def frameKeys : List String := ["type", "start", "end", "loc", "extra"]

structure Framed (kind : String) (fields node : Fields) : Prop where
  shape : ∃ start stop loc front back, node = ("type", .string kind) :: ("start", start) ::
    ("end", stop) :: ("loc", loc) :: (front ++ (fields ++ back)) ∧
    (∀ entry ∈ front, entry.1 = "extra") ∧ ∀ entry ∈ back, entry.1 = "extra"

namespace Framed

variable {kind : String} {fields node : Fields}

theorem kind_eq (framed : Framed kind fields node) : node.kind = kind := by
  obtain ⟨start, stop, loc, front, back, rfl, -, -⟩ := framed.shape
  simp [Fields.kind, Fields.get?_cons]

theorem isNode (framed : Framed kind fields node) : node.isNode = true := by
  obtain ⟨start, stop, loc, front, back, rfl, -, -⟩ := framed.shape
  simp [Fields.isNode, Fields.contains, Fields.get?_cons]

theorem get?_eq (framed : Framed kind fields node) {key : String} (own : key ∉ frameKeys) :
    node.get? key = fields.get? key := by
  obtain ⟨start, stop, loc, front, back, rfl, before, behind⟩ := framed.shape
  simp only [frameKeys, List.mem_cons, List.not_mem_nil, or_false, not_or] at own
  obtain ⟨type, first, last, lines, extra⟩ := own
  have none (entries : Fields) (all : ∀ entry ∈ entries, entry.1 = "extra") :
      Fields.get? entries key = none :=
    Fields.get?_eq_none fun entry member same => extra (same.symm.trans (all entry member))
  rw [Fields.get?_cons, if_neg (Ne.symm type), Fields.get?_cons, if_neg (Ne.symm first),
    Fields.get?_cons, if_neg (Ne.symm last), Fields.get?_cons, if_neg (Ne.symm lines),
    Fields.get?_append, none front before, Option.none_or, Fields.get?_append, none back behind,
    Option.or_none]

end Framed

section Each

variable {lines : LineIndex}

theorem eachField_frame {holds : Fields → Prop} (kind : String) (span : Span) :
    EachField holds (nodeFields lines kind span []) := by
  simp [nodeFields, EachField, EachNode, pointValue, natValue, textValue, Fields.isNode,
    Fields.contains, Fields.get?_cons]

theorem eachField_extra {holds : Fields → Prop} {entries : Fields}
    (scalars : EachField holds entries) (plain : Fields.isNode entries = false) :
    EachField holds (extraFields entries) := by
  unfold extraFields
  split
  · trivial
  · exact ⟨⟨by simp [plain], scalars⟩, trivial⟩

theorem eachField_parens (holds : Fields → Prop) (paren : Option Nat) :
    EachField holds (parenFields paren) ∧ Fields.isNode (parenFields paren) = false := by
  cases paren <;>
    simp [parenFields, EachField, EachNode, natValue, Fields.isNode, Fields.contains,
      Fields.get?_cons]

theorem eachNode_plainNode {holds : Fields → Prop} {kind : String} {place : Place} {fields : Fields}
    (here : holds (nodeFields lines kind place.span (fields ++ extraFields (parenFields place.paren))))
    (inside : EachField holds fields) : (plainNode lines kind place fields).EachNode holds := by
  have parens := eachField_parens holds place.paren
  refine ⟨fun _ => here, ?_⟩
  exact Value.eachField_append.mpr ⟨eachField_frame kind place.span,
    Value.eachField_append.mpr ⟨inside, eachField_extra parens.1 parens.2⟩⟩

theorem eachField_spelling {holds : Fields → Prop} {value : Value} (scalar : value.EachNode holds)
    (raw : Option String) (paren : Option Nat) :
    EachField holds (rawFields value raw ++ parenFields paren) ∧
      Fields.isNode (rawFields value raw ++ parenFields paren) = false := by
  have parens := eachField_parens holds paren
  cases raw with
  | none => exact parens
  | some text =>
    refine ⟨⟨scalar, trivial, parens.1⟩, ?_⟩
    cases paren <;>
      simp [rawFields, parenFields, Fields.isNode, Fields.contains, Fields.get?_cons]

theorem eachNode_literalNode {holds : Fields → Prop} {kind : String} {place : Place} {value : Value}
    {raw : Option String}
    (here : holds (nodeFields lines kind place.span
      (extraFields (rawFields value raw ++ parenFields place.paren) ++ [("value", value)])))
    (scalar : value.EachNode holds) : (literalNode lines kind place value raw).EachNode holds := by
  have extra := eachField_spelling scalar raw place.paren
  refine ⟨fun _ => here, ?_⟩
  exact Value.eachField_append.mpr ⟨eachField_frame kind place.span,
    Value.eachField_append.mpr ⟨eachField_extra extra.1 extra.2, scalar, trivial⟩⟩

end Each

def Place.lines (index : LineIndex) (place : Place) : Lines :=
  ⟨some (.ofNat (index.position place.span.start).line),
    some (.ofNat (index.position place.span.stop).line)⟩

section Varies

variable {allows : Allowance} {lines : LineIndex} {kind : String} {place : Place} {value : Value}

theorem keys_of_varies {fields others : Fields} (varies : VariesFields allows kind fields others) :
    others.map Prod.fst = fields.map Prod.fst := by
  induction fields generalizing others with
  | nil =>
    rw [VariesFields] at varies
    rw [varies]
  | cons entry rest ih =>
    obtain ⟨other, more, rfl, -, tail⟩ := varies
    rw [List.map_cons, List.map_cons, ih tail]

theorem extra_of_varies {entries others : Fields}
    (varies : VariesFields allows kind (extraFields entries) others) :
    ∀ entry ∈ others, entry.1 = "extra" := by
  have keys := keys_of_varies varies
  intro entry member
  have among : entry.1 ∈ (extraFields entries).map Prod.fst :=
    keys ▸ List.mem_map_of_mem member
  unfold extraFields at among
  split at among <;> simp at among
  exact among

variable (registered : allows.Registered)

include registered

theorem varies_nodeFields {fields : Fields} {span : Span}
    (varies : Varies allows (.object (nodeFields lines kind span fields)) value) :
    ∃ start stop loc others, value = .object (("type", .string kind) :: ("start", start) ::
      ("end", stop) :: ("loc", loc) :: others) ∧ VariesFields allows kind fields others := by
  obtain ⟨node, rfl, varies⟩ := varies
  have kindOf : Fields.kind (nodeFields lines kind span fields) = kind := rfl
  rw [kindOf] at varies
  obtain ⟨type, _, rfl, typed, start, _, rfl, -, stop, _, rfl, -, loc, others, rfl, -, rest⟩ := varies
  have same : type = .string kind := registered.varies (Value.builtinInput?_type kind) typed
  exact ⟨start, stop, loc, others, by rw [same], rest⟩

theorem framed_of_plainNode {fields : Fields}
    (varies : Varies allows (plainNode lines kind place fields) value) :
    ∃ node others, value = .object node ∧ Framed kind others node ∧
      VariesFields allows kind fields others := by
  obtain ⟨start, stop, loc, rest, rfl, inner⟩ := varies_nodeFields registered varies
  obtain ⟨others, back, rfl, own, extra⟩ := variesFields_append.mp inner
  exact ⟨_, others, rfl, ⟨start, stop, loc, [], back, rfl, by simp, extra_of_varies extra⟩, own⟩

theorem pointLine_of_varies {offset : Nat}
    (varies : Varies allows (pointValue lines offset) value) :
    ∃ point, value = .object point ∧
      Fields.get? point "line" = some (.number (.ofNat (lines.position offset).line)) := by
  obtain ⟨point, rfl, line, _, rfl, same, -⟩ := varies
  have same : line = natValue (lines.position offset).line :=
    registered.varies (Value.builtinInput?_eq_none _ (by decide)) same
  exact ⟨_, rfl, by rw [Fields.get?_cons, if_pos rfl, same, natValue]⟩

/-- No edit moves a node: its lines are read as they were recorded. -/
theorem linesOf_of_plainNode {fields node : Fields}
    (varies : Varies allows (plainNode lines kind place fields) (.object node)) :
    Decode.linesOf node = place.lines lines := by
  obtain ⟨_, ⟨⟩, type, _, rfl, -, start, _, rfl, -, stop, _, rfl, -, loc, others, rfl, sameLoc, -⟩ :=
    varies
  obtain ⟨_, rfl, first, _, rfl, sameFirst, last, _, rfl, sameLast, -⟩ :=
    registered.varies (Value.builtinInput?_eq_none _ (by decide)) sameLoc
  obtain ⟨begins, rfl, lineFirst⟩ := pointLine_of_varies registered
    (registered.varies (Value.builtinInput?_eq_none _ (by decide)) sameFirst)
  obtain ⟨ends, rfl, lineLast⟩ := pointLine_of_varies registered
    (registered.varies (Value.builtinInput?_eq_none _ (by decide)) sameLast)
  simp [Decode.linesOf, Decode.lineAt, Fields.get?_cons, lineFirst, lineLast, Value.asNumber?,
    Place.lines]

theorem spelling?_of_varies {literal : Value} {raw : Option String} {front : Fields}
    (scalar : ∀ other, literal.Varies allows other → other = literal)
    (varies : VariesFields allows kind
      (extraFields (rawFields literal raw ++ parenFields place.paren)) front)
    (holds : Value → Bool) :
    Decode.spelling? front holds = if holds literal then raw else none := by
  unfold extraFields at varies
  split at varies
  · rename_i isEmpty
    rw [List.isEmpty_iff, List.append_eq_nil_iff] at isEmpty
    have none : raw = none := by
      cases raw with
      | none => rfl
      | some r => simp [rawFields] at isEmpty
    rw [VariesFields] at varies
    simp [Decode.spelling?, varies, none]
  · obtain ⟨extra, _, rfl, same, rfl⟩ := varies
    have same := registered.varies (Value.builtinInput?_extra kind) same
    obtain ⟨entries, rfl, inner⟩ := same
    rw [Decode.spelling?, Fields.get?_cons, if_pos rfl]
    cases raw with
    | none =>
      have missing : Fields.get? (parenFields place.paren) "rawValue" = none := by
        cases place.paren <;> simp [parenFields, Fields.get?_cons]
      simp [inner.get?_none missing]
    | some r =>
      rw [rawFields] at inner
      obtain ⟨value, _, rfl, one, spelling, _, rfl, two, -⟩ := inner
      have value := scalar _ (registered.varies (Value.builtinInput?_eq_none _ (by decide)) one)
      have text : spelling = .string r :=
        registered.varies (Value.builtinInput?_eq_none _ (by decide)) two
      simp [Fields.get?_cons, value, text, Value.asString?]

theorem framed_of_literalNode {literal : Value} {raw : Option String}
    (scalar : ∀ other, literal.Varies allows other → other = literal)
    (varies : Varies allows (literalNode lines kind place literal raw) value) :
    ∃ node other, value = .object node ∧ Framed kind [("value", other)] node ∧
      (other = literal ∨ allows kind "value" literal other) ∧
      ∀ holds, Decode.spelling? node holds = if holds literal then raw else none := by
  obtain ⟨start, stop, loc, rest, rfl, inner⟩ := varies_nodeFields registered varies
  obtain ⟨front, own, rfl, extra, other, _, rfl, same, rfl⟩ := variesFields_append.mp inner
  refine ⟨_, other, rfl, ⟨start, stop, loc, front, [], rfl, extra_of_varies extra, by simp⟩,
    same.imp_left (scalar other), fun holds => ?_⟩
  rw [← spelling?_of_varies registered scalar extra holds]
  unfold Decode.spelling?
  simp [Fields.get?_cons, Fields.get?_append]

end Varies

end Script

end Arborist

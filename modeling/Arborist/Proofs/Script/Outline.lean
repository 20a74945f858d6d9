import Mathlib
import Arborist.Proofs.Script.Frame
import Arborist.Proofs.Script.Notes

/-!
Trees of values without their positions. What is left of an encoded tree is its outline, which
depends on the tree alone and not on where it was read; the spellings of literals may be kept.
-/

namespace Arborist

/-- What is left of an `extra` entry without its notes on parentheses. -/
def trimExtra : Value → Option (String × Value)
  | .object entries =>
    let kept := entries.filter fun entry => entry.1 != "parenthesized" && entry.1 != "parenStart"
    if kept.isEmpty then none else some ("extra", .object kept)
  | other => some ("extra", other)

/-- The fields of a node without its position, and with or without the spelling of a literal. -/
def Fields.trim (spellings : Bool) (fields : Fields) : Fields :=
  fields.filterMap fun entry =>
    if ["start", "end", "loc"].contains entry.1 then none
    else if entry.1 = "extra" then (if spellings then trimExtra entry.2 else none)
    else some entry

def Value.trim (spellings : Bool) (value : Value) : Value := value.mapNodes (Fields.trim spellings)

namespace Script

def outlineNode (kind : String) (fields : Fields) : Value :=
  .object (("type", .string kind) :: fields)

def literalOutline (spellings : Bool) (kind : String) (value : Value) (raw : Option String) : Value :=
  outlineNode kind
    ((if spellings then extraFields (rawFields value raw) else []) ++ [("value", value)])

variable {α ι κ : Type}

namespace Expr

mutual

def outline (spellings : Bool) : Expr ι → Value
  | .name _ text => outlineNode "Identifier" [("name", .string text)]
  | .number _ value raw => literalOutline spellings "NumericLiteral" (.number value) raw
  | .string _ value raw => literalOutline spellings "StringLiteral" (.string value) raw
  | .boolean _ value => outlineNode "BooleanLiteral" [("value", .bool value)]
  | .null _ => outlineNode "NullLiteral" []
  | .array _ elements =>
    outlineNode "ArrayExpression" [("elements", .list (outlineElements spellings elements))]
  | .binary _ operator left right =>
    outlineNode (if operator.isLogical then "LogicalExpression" else "BinaryExpression")
      [("left", left.outline spellings), ("operator", .string operator.text),
        ("right", right.outline spellings)]
  | .unary _ operator argument =>
    outlineNode "UnaryExpression"
      [("operator", .string operator.text), ("prefix", .bool true),
        ("argument", argument.outline spellings)]
  | .update _ operator before argument =>
    outlineNode "UpdateExpression"
      [("operator", .string operator.text), ("prefix", .bool before),
        ("argument", argument.outline spellings)]
  | .assignment _ operator target value =>
    outlineNode "AssignmentExpression"
      [("operator", .string operator.text), ("left", target.outline spellings),
        ("right", value.outline spellings)]
  | .conditional _ test consequent alternate =>
    outlineNode "ConditionalExpression"
      [("test", test.outline spellings), ("consequent", consequent.outline spellings),
        ("alternate", alternate.outline spellings)]
  | .sequence _ parts =>
    outlineNode "SequenceExpression" [("expressions", .list (outlineList spellings parts))]
  | .call _ callee arguments =>
    outlineNode "CallExpression"
      [("callee", callee.outline spellings), ("arguments", .list (outlineList spellings arguments))]
  | .member _ object property computed =>
    outlineNode "MemberExpression"
      [("object", object.outline spellings), ("computed", .bool computed),
        ("property", property.outline spellings)]

def outlineList (spellings : Bool) : List (Expr ι) → List Value
  | [] => []
  | e :: rest => e.outline spellings :: outlineList spellings rest

def outlineElements (spellings : Bool) : List (Option (Expr ι)) → List Value
  | [] => []
  | none :: rest => .null :: outlineElements spellings rest
  | some e :: rest => e.outline spellings :: outlineElements spellings rest

end

def outlineOption (spellings : Bool) (entry : Option (Expr ι)) : Value :=
  (entry.map (outline spellings)).getD .null

end Expr

def Declarator.outline (spellings : Bool) (d : Declarator ι) : Value :=
  outlineNode "VariableDeclarator"
    [("id", d.target.outline spellings), ("init", Expr.outlineOption spellings d.value)]

def blockOutline (body : List Value) : Value :=
  outlineNode "BlockStatement" [("body", .list body), ("directives", .list [])]

namespace Stmt

mutual

def outline (spellings : Bool) : Stmt ι → Value
  | .declaration _ kind declarators =>
    outlineNode "VariableDeclaration"
      [("declarations", .list (declarators.map (Declarator.outline spellings))),
        ("kind", .string kind.text)]
  | .function _ head _ body =>
    outlineNode "FunctionDeclaration"
      [("id", head.name.outline spellings), ("generator", .bool head.isGenerator),
        ("async", .bool head.isAsync),
        ("params", .list (Expr.outlineList spellings head.parameters)),
        ("body", blockOutline (outlineList spellings body))]
  | .block _ body => blockOutline (outlineList spellings body)
  | .ret _ argument =>
    outlineNode "ReturnStatement" [("argument", Expr.outlineOption spellings argument)]
  | .expression _ body => outlineNode "ExpressionStatement" [("expression", body.outline spellings)]
  | .branch _ test consequent alternate =>
    outlineNode "IfStatement"
      [("test", test.outline spellings), ("consequent", consequent.outline spellings),
        ("alternate", outlineOption spellings alternate)]
  | .empty _ => outlineNode "EmptyStatement" []

def outlineList (spellings : Bool) : List (Stmt ι) → List Value
  | [] => []
  | s :: rest => s.outline spellings :: outlineList spellings rest

def outlineOption (spellings : Bool) : Option (Stmt ι) → Value
  | none => .null
  | some s => s.outline spellings

end

end Stmt

def programOutline (spellings : Bool) (body : List (Stmt ι)) : Value :=
  outlineNode "Program"
    [("sourceType", .string "script"), ("interpreter", .null),
      ("body", .list (Stmt.outlineList spellings body)), ("directives", .list [])]

section Trim

variable {spellings : Bool} {kind : String}

theorem keys_mapNodesFields (f : Fields → Fields) (fields : Fields) :
    (Value.mapNodesFields f fields).map Prod.fst = fields.map Prod.fst := by
  induction fields with
  | nil => rfl
  | cons entry rest ih => rw [Value.mapNodesFields, List.map_cons, ih, List.map_cons]

theorem mapNodesFields_trim_cons (name : String) (value : Value) (rest : Fields) :
    Value.mapNodesFields (Fields.trim spellings) ((name, value) :: rest) =
      (name, value.trim spellings) :: Value.mapNodesFields (Fields.trim spellings) rest := rfl

theorem trim_append (front rest : Fields) :
    Fields.trim spellings (front ++ rest) =
      Fields.trim spellings front ++ Fields.trim spellings rest := List.filterMap_append

theorem trim_frame (type start stop loc : Value) (rest : Fields) :
    Fields.trim spellings
      (("type", type) :: ("start", start) :: ("end", stop) :: ("loc", loc) :: rest) =
      ("type", type) :: Fields.trim spellings rest := by
  simp [Fields.trim]

theorem trim_own {fields : Fields} (own : ∀ key ∈ fields.map Prod.fst, key ∉ frameKeys) :
    Fields.trim spellings fields = fields := by
  induction fields with
  | nil => rfl
  | cons entry rest ih =>
    rw [List.map_cons, List.forall_mem_cons] at own
    have first := own.1
    simp only [frameKeys, List.mem_cons, List.not_mem_nil, or_false, not_or] at first
    have keep : Fields.trim spellings (entry :: rest) = entry :: Fields.trim spellings rest := by
      simp [Fields.trim, first]
    rw [keep, ih own.2]

theorem trim_extra {fields : Fields} (extra : ∀ entry ∈ fields, entry.1 = "extra") :
    Fields.trim false fields = [] := by
  rw [Fields.trim, List.filterMap_eq_nil_iff]
  intro entry member
  simp [extra entry member]

theorem Framed.trim {fields node : Fields} (framed : Framed kind fields node)
    (own : ∀ key ∈ fields.map Prod.fst, key ∉ frameKeys) :
    (Value.object node).trim false =
      outlineNode kind (Value.mapNodesFields (Fields.trim false) fields) := by
  have isNode := framed.isNode
  obtain ⟨start, stop, loc, front, back, rfl, before, behind⟩ := framed.shape
  have none (entries : Fields) (all : ∀ entry ∈ entries, entry.1 = "extra") :
      Fields.trim false (Value.mapNodesFields (Fields.trim false) entries) = [] := by
    apply trim_extra
    intro entry member
    have among := List.mem_map_of_mem (f := Prod.fst) member
    rw [keys_mapNodesFields] at among
    obtain ⟨original, inside, same⟩ := List.mem_map.mp among
    rw [← same, all original inside]
  have inner : Fields.trim false (Value.mapNodesFields (Fields.trim false) fields) =
      Value.mapNodesFields (Fields.trim false) fields := trim_own (by rwa [keys_mapNodesFields])
  rw [Value.trim, Value.mapNodes, if_pos isNode, outlineNode]
  simp only [Value.mapNodesFields, Value.mapNodesFields_append]
  rw [trim_frame, trim_append, trim_append, none front before, none back behind, inner,
    List.nil_append, List.append_nil]
  rfl

theorem trim_parens (paren : Option Nat) :
    Fields.trim spellings (Value.mapNodesFields (Fields.trim spellings)
      (extraFields (parenFields paren))) = [] := by
  cases paren with
  | none => rfl
  | some start => cases spellings <;> rfl

theorem trim_plainNode {fields : Fields} (own : ∀ key ∈ fields.map Prod.fst, key ∉ frameKeys)
    (lines : LineIndex) (place : Place) :
    (plainNode lines kind place fields).trim spellings =
      outlineNode kind (Value.mapNodesFields (Fields.trim spellings) fields) := by
  have inner : Fields.trim spellings (Value.mapNodesFields (Fields.trim spellings) fields) =
      Value.mapNodesFields (Fields.trim spellings) fields := trim_own (by rwa [keys_mapNodesFields])
  rw [Value.trim, plainNode, Value.mapNodes, if_pos (by rfl), outlineNode, nodeFields,
    Value.mapNodesFields_append]
  simp only [Value.mapNodesFields, List.cons_append, List.nil_append]
  rw [trim_frame, Value.mapNodesFields_append, trim_append, inner, trim_parens, List.append_nil]
  rfl

theorem trim_literalNode {value : Value} (scalar : value.mapNodes (Fields.trim spellings) = value)
    (lines : LineIndex) (place : Place) (raw : Option String) :
    (literalNode lines kind place value raw).trim spellings =
      literalOutline spellings kind value raw := by
  have extra : Fields.trim spellings (Value.mapNodesFields (Fields.trim spellings)
      (extraFields (rawFields value raw ++ parenFields place.paren))) =
      if spellings then extraFields (rawFields value raw) else [] := by
    cases raw <;> cases place.paren <;> cases spellings <;>
      simp [extraFields, rawFields, parenFields, Value.mapNodesFields, Value.mapNodes, Fields.trim,
        trimExtra, scalar, Fields.isNode, Fields.contains, Fields.get?_cons, natValue, textValue]
  rw [Value.trim, literalNode, Value.mapNodes, if_pos (by rfl), literalOutline, outlineNode,
    nodeFields, Value.mapNodesFields_append]
  simp only [Value.mapNodesFields, List.cons_append, List.nil_append]
  rw [trim_frame, Value.mapNodesFields_append, trim_append, extra]
  simp [Value.mapNodesFields, Fields.trim, scalar, textValue, Value.mapNodes]

end Trim

section Encode

variable {spellings : Bool} (lines : LineIndex)

@[simp] theorem Expr.outlineList_eq_map (list : List (Expr ι)) :
    Expr.outlineList spellings list = list.map (Expr.outline spellings) := by
  induction list with
  | nil => rfl
  | cons e rest ih => rw [Expr.outlineList, ih, List.map_cons]

theorem Expr.encodeList_eq_map (list : List (Expr Place)) :
    Expr.encodeList lines list = list.map (Expr.encode lines) := by
  induction list with
  | nil => rfl
  | cons e rest ih => rw [Expr.encodeList, ih, List.map_cons]

theorem Expr.encodeElements_some (list : List (Expr Place)) :
    Expr.encodeElements lines (list.map some) = list.map (Expr.encode lines) := by
  induction list with
  | nil => rfl
  | cons e rest ih => rw [List.map_cons, Expr.encodeElements, ih, List.map_cons]

theorem Expr.outlineElements_some (list : List (Expr ι)) :
    Expr.outlineElements spellings (list.map some) = list.map (Expr.outline spellings) := by
  induction list with
  | nil => rfl
  | cons e rest ih => rw [List.map_cons, Expr.outlineElements, ih, List.map_cons]

@[simp] theorem Stmt.outlineList_eq_map (list : List (Stmt ι)) :
    Stmt.outlineList spellings list = list.map (Stmt.outline spellings) := by
  induction list with
  | nil => rfl
  | cons s rest ih => rw [Stmt.outlineList, ih, List.map_cons]

theorem Stmt.encodeList_eq_map (list : List (Stmt Place)) :
    Stmt.encodeList lines list = list.map (Stmt.encode lines) := by
  induction list with
  | nil => rfl
  | cons s rest ih => rw [Stmt.encodeList, ih, List.map_cons]

theorem trim_list {list : List α} {encode outline : α → Value}
    (members : ∀ a ∈ list, (encode a).trim spellings = outline a) :
    (Value.list (list.map encode)).trim spellings = .list (list.map outline) := by
  rw [Value.trim, Value.mapNodes, Value.mapNodesItems_eq_map, List.map_map]
  exact congrArg _ (List.map_congr_left members)

theorem Expr.trim_elements {list : List (Option (Expr Place))}
    (members : ∀ e, some e ∈ list → (e.encode lines).trim spellings = e.outline spellings) :
    (Value.list (Expr.encodeElements lines list)).trim spellings =
      .list (Expr.outlineElements spellings list) := by
  rw [Value.trim, Value.mapNodes, Value.mapNodesItems_eq_map]
  congr 1
  induction list with
  | nil => rfl
  | cons entry rest ih =>
    have others := ih fun e member => members e (List.mem_cons_of_mem entry member)
    cases entry with
    | none => rw [Expr.encodeElements, List.map_cons, others, Expr.outlineElements]; rfl
    | some e =>
      have first : (e.encode lines).mapNodes (Fields.trim spellings) = e.outline spellings :=
        members e List.mem_cons_self
      rw [Expr.encodeElements, List.map_cons, others, Expr.outlineElements, first]

theorem Expr.trim_encode (e : Expr Place) :
    (e.encode lines).trim spellings = e.outline spellings := by
  induction e using Expr.induct with
  | name | boolean | null =>
    rw [Expr.encode, trim_plainNode (by simp [frameKeys])]
    rfl
  | number | string =>
    rw [Expr.encode, trim_literalNode rfl]
    rfl
  | array n elements ih =>
    rw [Expr.encode, trim_plainNode (by simp [frameKeys]), Expr.outline, mapNodesFields_trim_cons,
      Expr.trim_elements lines ih]
    rfl
  | binary n operator left right first second =>
    rw [Expr.encode, trim_plainNode (by simp [frameKeys]), Expr.outline]
    simp only [mapNodesFields_trim_cons, first, second]
    rfl
  | unary n operator argument ih | update n operator before argument ih =>
    rw [Expr.encode, trim_plainNode (by simp [frameKeys]), Expr.outline]
    simp only [mapNodesFields_trim_cons, ih]
    rfl
  | assignment n operator target value first second
  | member n target value computed first second =>
    rw [Expr.encode, trim_plainNode (by simp [frameKeys]), Expr.outline]
    simp only [mapNodesFields_trim_cons, first, second]
    rfl
  | conditional n test consequent alternate first second third =>
    rw [Expr.encode, trim_plainNode (by simp [frameKeys]), Expr.outline]
    simp only [mapNodesFields_trim_cons, first, second, third]
    rfl
  | sequence n parts ih =>
    rw [Expr.encode, trim_plainNode (by simp [frameKeys]), Expr.outline, Expr.encodeList_eq_map,
      Expr.outlineList_eq_map, mapNodesFields_trim_cons, trim_list ih]
    rfl
  | call n callee arguments first ih =>
    rw [Expr.encode, trim_plainNode (by simp [frameKeys]), Expr.outline, Expr.encodeList_eq_map,
      Expr.outlineList_eq_map]
    simp only [mapNodesFields_trim_cons, first, trim_list ih]
    rfl

theorem Expr.trim_encodeOption (entry : Option (Expr Place)) :
    (Expr.encodeOption lines entry).trim spellings = Expr.outlineOption spellings entry := by
  cases entry with
  | none => rfl
  | some e => exact Expr.trim_encode lines e

theorem Declarator.trim_encode (d : Declarator Place) :
    (d.encode lines).trim spellings = d.outline spellings := by
  rw [Declarator.encode, trim_plainNode (by simp [frameKeys]), Declarator.outline]
  simp only [mapNodesFields_trim_cons, Expr.trim_encode, Expr.trim_encodeOption]
  rfl

theorem trim_blockNode {list : List (Stmt Place)} (place : Place)
    (members : ∀ s ∈ list, (s.encode lines).trim spellings = s.outline spellings) :
    (blockNode lines place (Stmt.encodeList lines list)).trim spellings =
      blockOutline (Stmt.outlineList spellings list) := by
  rw [blockNode, trim_plainNode (by simp [frameKeys]), blockOutline, Stmt.encodeList_eq_map,
    Stmt.outlineList_eq_map]
  simp only [mapNodesFields_trim_cons, trim_list members]
  rfl

theorem Stmt.trim_encode (s : Stmt Place) :
    (s.encode lines).trim spellings = s.outline spellings := by
  induction s using Stmt.induct with
  | declaration n kind declarators =>
    rw [Stmt.encode, trim_plainNode (by simp [frameKeys]), Stmt.outline]
    simp only [mapNodesFields_trim_cons, trim_list fun d _ => Declarator.trim_encode lines d]
    rfl
  | function n head block body ih =>
    rw [Stmt.encode, trim_plainNode (by simp [frameKeys]), Stmt.outline, Expr.encodeList_eq_map,
      Expr.outlineList_eq_map]
    simp only [mapNodesFields_trim_cons, Expr.trim_encode, trim_blockNode lines block ih,
      trim_list fun e _ => Expr.trim_encode lines e]
    rfl
  | block n body ih =>
    rw [Stmt.encode, Stmt.outline]
    exact trim_blockNode lines n ih
  | ret n argument =>
    rw [Stmt.encode, trim_plainNode (by simp [frameKeys]), Stmt.outline]
    simp only [mapNodesFields_trim_cons, Expr.trim_encodeOption]
    rfl
  | expression n e =>
    rw [Stmt.encode, trim_plainNode (by simp [frameKeys]), Stmt.outline]
    simp only [mapNodesFields_trim_cons, Expr.trim_encode]
    rfl
  | branch n test consequent alternate ih ihOther =>
    have other : (Stmt.encodeOption lines alternate).trim spellings =
        Stmt.outlineOption spellings alternate := by
      cases alternate with
      | none => rfl
      | some s => exact ihOther s rfl
    rw [Stmt.encode, trim_plainNode (by simp [frameKeys]), Stmt.outline]
    simp only [mapNodesFields_trim_cons, Expr.trim_encode, ih, other]
    rfl
  | empty n =>
    rw [Stmt.encode, trim_plainNode (by simp [frameKeys]), Stmt.outline]
    rfl

theorem trim_program (length : Nat) (body : List (Stmt Place)) :
    (Value.object (programFields lines length body)).trim spellings =
      programOutline spellings body := by
  have same : Value.object (programFields lines length body) =
      plainNode lines "Program" ⟨⟨0, length⟩, none⟩ [("sourceType", textValue "script"),
        ("interpreter", .null), ("body", .list (Stmt.encodeList lines body)),
        ("directives", .list [])] := rfl
  rw [same, trim_plainNode (by simp [frameKeys]), programOutline, Stmt.encodeList_eq_map,
    Stmt.outlineList_eq_map]
  simp only [mapNodesFields_trim_cons, trim_list fun s _ => Stmt.trim_encode lines s]
  rfl

end Encode

section Bare

variable {spellings : Bool}

theorem map_map_congr {α β γ : Type} {f : α → β} {g : β → γ} {h : α → γ} {list : List α}
    (members : ∀ a ∈ list, g (f a) = h a) : (list.map f).map g = list.map h := by
  rw [List.map_map]
  exact List.map_congr_left members

theorem Expr.outline_mapNote (f : ι → κ) (e : Expr ι) :
    (e.mapNote f).outline spellings = e.outline spellings := by
  induction e using Expr.induct with
  | name | number | string | boolean | null => rfl
  | array n elements ih =>
    have inner : Expr.outlineElements spellings (Expr.mapNoteElements f elements) =
        Expr.outlineElements spellings elements := by
      induction elements with
      | nil => rfl
      | cons entry rest more =>
        have others := more fun e member => ih e (List.mem_cons_of_mem entry member)
        cases entry with
        | none => simp only [Expr.mapNoteElements, Expr.outlineElements, others]
        | some e => simp only [Expr.mapNoteElements, Expr.outlineElements, others,
            ih e List.mem_cons_self]
    rw [Expr.mapNote, Expr.outline, Expr.outline, inner]
  | sequence n parts ih =>
    simp only [Expr.mapNote, Expr.outline, Expr.mapNoteList_eq_map, Expr.outlineList_eq_map,
      map_map_congr ih]
  | call n callee arguments first ih =>
    simp only [Expr.mapNote, Expr.outline, Expr.mapNoteList_eq_map, Expr.outlineList_eq_map,
      map_map_congr ih, first]
  | _ => simp only [Expr.mapNote, Expr.outline, *]

theorem Expr.outline_bare (e : Expr ι) : e.bare.outline spellings = e.outline spellings :=
  Expr.outline_mapNote _ e

theorem Expr.outlineOption_bare (entry : Option (Expr ι)) :
    Expr.outlineOption spellings (entry.map Expr.bare) = Expr.outlineOption spellings entry := by
  cases entry with
  | none => rfl
  | some e => exact Expr.outline_bare e

theorem Declarator.outline_bare (d : Declarator ι) :
    d.bare.outline spellings = d.outline spellings := by
  simp only [Declarator.outline, Declarator.bare, Expr.outline_bare, Expr.outlineOption_bare]

theorem Stmt.outline_bare (s : Stmt ι) : s.bare.outline spellings = s.outline spellings := by
  induction s using Stmt.induct with
  | declaration n kind declarators =>
    rw [Stmt.bare_declaration, Stmt.outline, Stmt.outline,
      map_map_congr fun d _ => Declarator.outline_bare d]
  | function n head block body ih =>
    simp only [Stmt.bare_function, Stmt.outline, FunctionHead.bare, Stmt.outlineList_eq_map,
      Expr.outlineList_eq_map, map_map_congr fun e _ => Expr.outline_bare e, Expr.outline_bare,
      map_map_congr ih]
  | block n body ih =>
    simp only [Stmt.bare_block, Stmt.outline, Stmt.outlineList_eq_map, map_map_congr ih]
  | ret n argument => simp only [Stmt.bare_ret, Stmt.outline, Expr.outlineOption_bare]
  | expression n e => simp only [Stmt.bare_expression, Stmt.outline, Expr.outline_bare]
  | branch n test consequent alternate ih ihOther =>
    cases alternate with
    | none => simp only [Stmt.bare_branch, Option.map_none, Stmt.outline, Stmt.outlineOption,
        Expr.outline_bare, ih]
    | some s => simp only [Stmt.bare_branch, Option.map_some, Stmt.outline, Stmt.outlineOption,
        Expr.outline_bare, ih, ihOther s rfl]
  | empty n => rfl

theorem programOutline_bare (body : List (Stmt ι)) :
    programOutline spellings (body.map Stmt.bare) = programOutline spellings body := by
  simp only [programOutline, Stmt.outlineList_eq_map,
    map_map_congr fun s _ => Stmt.outline_bare s]

end Bare

end Script

end Arborist

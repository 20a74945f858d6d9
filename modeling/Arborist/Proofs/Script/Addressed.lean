import Mathlib
import Arborist.Proofs.Node.Target
import Arborist.Proofs.Node.Written
import Arborist.Proofs.Script.Registered
import Arborist.Proofs.Script.Rows
import Arborist.Proofs.Script.Spans

/-!
Nodes that a written path can lead to. Every field of a parsed tree has a plain name, and no list in
it has more items than the text has tokens, for each item takes up a token of its own; so each path
to a node of the tree can be written, and what inputs write into the tree changes nothing of that.
-/

namespace Arborist

/-- Every field has a plain name, and no list has more items than the limit. -/
def Fields.Addressed (limit : Nat) (node : Fields) : Prop :=
  ∀ entry ∈ node, Step.isPlainName entry.1 = true ∧
    ∀ items ∈ entry.2.asList?, items.length ≤ limit

theorem Fields.Addressed.cons {limit : Nat} {name : String} {value : Value} {rest : Fields}
    (plain : Step.isPlainName name = true) (short : ∀ items ∈ value.asList?, items.length ≤ limit)
    (others : rest.Addressed limit) : Fields.Addressed limit ((name, value) :: rest) :=
  List.forall_mem_cons.2 ⟨⟨plain, short⟩, others⟩

structure Value.Addressed (limit : Nat) (value : Value) : Prop where
  short : ∀ items ∈ value.asList?, items.length ≤ limit
  each : value.EachNode (Fields.Addressed limit)

namespace Script

open Value (EachField EachNode Allowance VariesFields VariesItems)

structure Fitting (limit : Nat) (fields : Fields) : Prop where
  own : fields.Addressed limit
  inside : EachField (Fields.Addressed limit) fields

section Nodes

variable {limit : Nat} {lines : LineIndex} {kind : String} {place : Place} {fields rest : Fields}

theorem Fitting.nil : Fitting limit [] := ⟨by simp [Fields.Addressed], trivial⟩

theorem Fitting.cons {name : String} {value : Value} (first : value.Addressed limit)
    (others : Fitting limit rest) (plain : Step.isPlainName name = true := by decide) :
    Fitting limit ((name, value) :: rest) :=
  ⟨.cons plain first.short others.own, first.each, others.inside⟩

theorem addressed_text (text : String) : (textValue text).Addressed limit :=
  ⟨by simp [textValue, Value.asList?], trivial⟩

theorem addressed_bool (b : Bool) : (Value.bool b).Addressed limit :=
  ⟨by simp [Value.asList?], trivial⟩

theorem addressed_number (n : Number) : (Value.number n).Addressed limit :=
  ⟨by simp [Value.asList?], trivial⟩

theorem addressed_nothing : (Value.list []).Addressed limit :=
  ⟨by simp [Value.asList?], trivial⟩

theorem addressed_null : Value.null.Addressed limit := ⟨by simp [Value.asList?], trivial⟩

theorem addressed_list {α : Type} {list : List α} {encode : α → Value}
    (short : list.length ≤ limit) (members : ∀ a ∈ list, (encode a).Addressed limit) :
    (Value.list (list.map encode)).Addressed limit := by
  refine ⟨?_, Value.eachNode_list fun a member => (members a member).each⟩
  simpa [Value.asList?] using short

theorem addressed_extra (entries : Fields) : (extraFields entries).Addressed limit := by
  rcases extraFields_cases entries with none | some
  · rw [none]
    exact Fitting.nil.own
  · rw [some]
    exact .cons (by decide) (by simp [Value.asList?]) Fitting.nil.own

theorem addressed_nodeFields {span : Span} (own : fields.Addressed limit) :
    (nodeFields lines kind span fields).Addressed limit :=
  .cons (by decide) (addressed_text kind).short
    (.cons (by decide) (by simp [natValue, Value.asList?])
      (.cons (by decide) (by simp [natValue, Value.asList?])
        (.cons (by decide) (by simp [Value.asList?]) own)))

theorem addressed_plainNode (fitting : Fitting limit fields) :
    (plainNode lines kind place fields).Addressed limit := by
  constructor
  · simp [plainNode, Value.asList?]
  · apply eachNode_plainNode
    · apply addressed_nodeFields
      exact List.forall_mem_append.2 ⟨fitting.own, addressed_extra _⟩
    · exact fitting.inside

theorem addressed_literalNode {value : Value} (scalar : value.Addressed limit) (raw : Option String) :
    (literalNode lines kind place value raw).Addressed limit := by
  constructor
  · simp [literalNode, Value.asList?]
  · apply eachNode_literalNode
    · apply addressed_nodeFields
      exact List.forall_mem_append.2 ⟨addressed_extra _, (Fitting.cons scalar .nil).own⟩
    · exact scalar.each

end Nodes

/-- What a phrase over some tokens is made of; parentheses around an expression do not matter. -/
def Phrase.Addressed (limit : Nat) (lines : LineIndex) (ts : List Token) : Phrase → Prop
  | .expr _ e => ∀ note, ((e.withNote note).encode lines).Addressed limit
  | .items list | .parts list =>
    list.length ≤ ts.length ∧ ∀ e ∈ list, (e.encode lines).Addressed limit

section Phrases

variable {limit : Nat} {lines : LineIndex} {ts : List Token} {e : Expr Place}

theorem Phrase.Addressed.expr {least : Level}
    (addressed : Phrase.Addressed limit lines ts (.expr least e)) :
    (e.encode lines).Addressed limit := by
  have this := addressed ⟨e.note.span, e.note.paren⟩
  rwa [Expr.withNote_note] at this

theorem Derives.addressed {phrase : Phrase} (derives : Derives phrase ts)
    (fits : ts.length ≤ limit) : phrase.Addressed limit lines ts := by
  induction derives with
  | name => exact fun _ => addressed_plainNode (.cons (addressed_text _) .nil)
  | boolean => exact fun _ => addressed_plainNode (.cons (addressed_bool _) .nil)
  | null => exact fun _ => addressed_plainNode .nil
  | number => exact fun _ => addressed_literalNode (addressed_number _) _
  | string => exact fun _ => addressed_literalNode (addressed_text _) _
  | @paren a b ts e _ _ _ ih =>
    simp only [List.length_cons, List.length_append] at fits
    intro note
    have again : (e.withNote ⟨e.note.span, some a.start⟩).withNote note = e.withNote note := by
      cases e <;> rfl
    rw [again]
    exact ih (by omega) note
  | array _ _ _ ih =>
    simp only [List.length_cons, List.length_append] at fits
    obtain ⟨short, members⟩ := ih (by omega)
    have elements := addressed_list (by omega) members
    rw [← Expr.encodeElements_some] at elements
    exact fun _ => addressed_plainNode (.cons elements .nil)
  | @dot point word ts object name _ _ _ ih =>
    simp only [List.length_cons, List.length_append] at fits
    have object := (ih (by omega)).expr
    have property : ((Expr.name (Place.over [word]) name).encode lines).Addressed limit :=
      addressed_plainNode (.cons (addressed_text name) .nil)
    exact fun _ => addressed_plainNode (.cons object (.cons (addressed_bool _) (.cons property .nil)))
  | bracket _ _ _ _ first second =>
    simp only [List.length_cons, List.length_append] at fits
    have object := (first (by omega)).expr
    have property := (second (by omega)).expr
    exact fun _ => addressed_plainNode (.cons object (.cons (addressed_bool _) (.cons property .nil)))
  | call _ _ _ _ first second =>
    simp only [List.length_cons, List.length_append] at fits
    have callee := (first (by omega)).expr
    obtain ⟨short, members⟩ := second (by omega)
    have arguments := addressed_list (by omega) members
    rw [← Expr.encodeList_eq_map] at arguments
    exact fun _ => addressed_plainNode (.cons callee (.cons arguments .nil))
  | updated _ _ _ ih =>
    simp only [List.length_cons, List.length_append] at fits
    have argument := (ih (by omega)).expr
    exact fun _ => addressed_plainNode
      (.cons (addressed_text _) (.cons (addressed_bool _) (.cons argument .nil)))
  | unary _ _ ih | updating _ _ ih =>
    simp only [List.length_cons] at fits
    have argument := (ih (by omega)).expr
    exact fun _ => addressed_plainNode
      (.cons (addressed_text _) (.cons (addressed_bool _) (.cons argument .nil)))
  | power _ _ _ first second | binary _ _ _ _ _ first second =>
    simp only [List.length_cons, List.length_append] at fits
    have left := (first (by omega)).expr
    have right := (second (by omega)).expr
    exact fun _ => addressed_plainNode (.cons left (.cons (addressed_text _) (.cons right .nil)))
  | conditional _ _ _ _ _ first second third =>
    simp only [List.length_cons, List.length_append] at fits
    have test := (first (by omega)).expr
    have consequent := (second (by omega)).expr
    have alternate := (third (by omega)).expr
    exact fun _ => addressed_plainNode (.cons test (.cons consequent (.cons alternate .nil)))
  | assignment _ _ _ _ first second =>
    simp only [List.length_cons, List.length_append] at fits
    have left := (first (by omega)).expr
    have right := (second (by omega)).expr
    exact fun _ => addressed_plainNode (.cons (addressed_text _) (.cons left (.cons right .nil)))
  | sequence head _ _ first second =>
    have front := List.length_pos_iff.2 head.ne_nil
    simp only [List.length_append] at fits
    have start := (first (by omega)).expr
    obtain ⟨short, members⟩ := second (by omega)
    have parts := addressed_list (by simp only [List.length_cons]; omega)
      (List.forall_mem_cons.2 ⟨start, members⟩)
    rw [← Expr.encodeList_eq_map] at parts
    exact fun _ => addressed_plainNode (.cons parts .nil)
  | looser _ ih => exact ih fits
  | noItems | noParts => exact ⟨le_rfl, by simp⟩
  | oneItem item ih =>
    exact ⟨List.length_pos_iff.2 item.ne_nil, List.forall_mem_singleton.2 (ih fits).expr⟩
  | moreItems _ _ _ first rest | moreParts _ _ _ first rest =>
    simp only [List.length_cons, List.length_append] at fits
    obtain ⟨short, members⟩ := rest (by omega)
    constructor
    · simp only [List.length_cons, List.length_append]
      omega
    · exact List.forall_mem_cons.2 ⟨(first (by omega)).expr, members⟩

theorem Named.addressed {t : Token} (named : Named e t) : (e.encode lines).Addressed limit := by
  cases named with
  | intro => exact addressed_plainNode (.cons (addressed_text _) .nil)

theorem Parameters.addressed {list : List (Expr Place)} (parameters : Parameters list ts) :
    list.length ≤ ts.length ∧ ∀ e ∈ list, (e.encode lines).Addressed limit := by
  induction parameters with
  | none => exact ⟨le_rfl, by simp⟩
  | one name => exact ⟨le_rfl, List.forall_mem_singleton.2 name.addressed⟩
  | more name _ _ ih =>
    obtain ⟨short, members⟩ := ih
    constructor
    · simp only [List.length_cons]
      omega
    · exact List.forall_mem_cons.2 ⟨name.addressed, members⟩

theorem Declares.addressed {d : Declarator Place} {next : Token} (declares : Declares d ts next)
    (fits : ts.length ≤ limit) : (d.encode lines).Addressed limit := by
  cases declares with
  | plain name => exact addressed_plainNode (.cons name.addressed (.cons addressed_null .nil))
  | @initial _ _ _ _ _ ts name _ inner _ =>
    simp only [List.length_cons] at fits
    have inside : ts.length ≤ limit := by omega
    exact addressed_plainNode (.cons name.addressed (.cons (inner.addressed inside).expr .nil))

theorem DeclaresAll.addressed {list : List (Declarator Place)} {next : Token}
    (declares : DeclaresAll list ts next) (fits : ts.length ≤ limit) :
    list.length ≤ ts.length ∧ ∀ d ∈ list, (d.encode lines).Addressed limit := by
  induction declares with
  | last one =>
    constructor
    · cases one <;> simp
    · exact List.forall_mem_singleton.2 (one.addressed fits)
  | more one _ _ ih =>
    simp only [List.length_cons, List.length_append] at fits
    obtain ⟨short, members⟩ := ih (by omega)
    constructor
    · simp only [List.length_cons, List.length_append]
      omega
    · exact List.forall_mem_cons.2 ⟨one.addressed (by omega), members⟩

def Passage.Addressed (limit : Nat) (lines : LineIndex) (ts : List Token) : Passage → Prop
  | .statement s => (s.encode lines).Addressed limit
  | .block place list => (blockNode lines place (Stmt.encodeList lines list)).Addressed limit
  | .body list => list.length ≤ ts.length ∧ ∀ s ∈ list, (s.encode lines).Addressed limit

theorem Forms.addressed {passage : Passage} {next : Token} (forms : Forms passage ts next)
    (fits : ts.length ≤ limit) : passage.Addressed limit lines ts := by
  induction forms with
  | @declaration _ _ ts us _ list _ declarators _ =>
    simp only [List.length_cons, List.length_append] at fits
    have inside : ts.length ≤ limit := by omega
    obtain ⟨short, members⟩ := declarators.addressed inside
    exact addressed_plainNode
      (.cons (addressed_list (short.trans inside) members) (.cons (addressed_text _) .nil))
  | @function _ ts us _ _ _ front _ ih =>
    simp only [List.length_append] at fits
    have body := ih (by omega)
    cases front with
    | @intro _ _ _ _ _ _ params _ _ _ parameters _ _ _ named _ list _ =>
      simp only [List.length_append, List.length_cons] at fits
      obtain ⟨short, members⟩ := list.addressed
      have names := addressed_list (show parameters.length ≤ limit by omega) members
      rw [← Expr.encodeList_eq_map] at names
      exact addressed_plainNode (.cons named.addressed (.cons (addressed_bool _)
        (.cons (addressed_bool _) (.cons names (.cons body .nil)))))
  | block _ ih => exact ih fits
  | leave => exact addressed_plainNode (.cons addressed_null .nil)
  | @ret _ _ ts us _ _ inner _ _ _ =>
    simp only [List.length_cons, List.length_append] at fits
    have inside : ts.length ≤ limit := by omega
    exact addressed_plainNode (.cons (inner.addressed inside).expr .nil)
  | @expression _ ts us _ inner _ _ =>
    simp only [List.length_append] at fits
    have inside : ts.length ≤ limit := by omega
    exact addressed_plainNode (.cons (inner.addressed inside).expr .nil)
  | @branch _ _ _ _ ts us _ _ _ _ condition _ _ _ ih =>
    simp only [List.length_cons, List.length_append] at fits
    have inside : ts.length ≤ limit := by omega
    have consequent := ih (by omega)
    exact addressed_plainNode (.cons (condition.addressed inside).expr
      (.cons consequent (.cons addressed_null .nil)))
  | @choice _ _ _ _ _ ts us vs _ _ _ _ _ condition _ _ _ _ first second =>
    simp only [List.length_cons, List.length_append] at fits
    have inside : ts.length ≤ limit := by omega
    have consequent := first (by omega)
    have alternate := second (by omega)
    exact addressed_plainNode (.cons (condition.addressed inside).expr
      (.cons consequent (.cons alternate .nil)))
  | empty => exact addressed_plainNode .nil
  | braces _ _ _ ih =>
    simp only [List.length_cons, List.length_append] at fits
    obtain ⟨short, members⟩ := ih (by omega)
    have body := addressed_list (by omega) members
    rw [← Stmt.encodeList_eq_map] at body
    exact addressed_plainNode (.cons body (.cons addressed_nothing .nil))
  | done => exact ⟨le_rfl, by simp⟩
  | @more _ ts _ s _ first _ one rest =>
    have counted : s.total ≤ ts.length := first.total_le
    have front : 0 < s.total := by cases s <;> simp [Stmt.total]
    simp only [List.length_append] at fits
    obtain ⟨short, members⟩ := rest (by omega)
    constructor
    · simp only [List.length_cons, List.length_append]
      omega
    · exact List.forall_mem_cons.2 ⟨one (by omega), members⟩

end Phrases

/-- A list in the tree of a text has no more items than the text has characters. -/
theorem addressed_of_parseProgram {text : String} {tree : Fields}
    (parsed : parseProgram text = .ok tree) :
    (Value.object tree).EachNode (Fields.Addressed text.length) := by
  obtain ⟨inner, last, body, accepted, rfl⟩ := exists_of_parseProgram parsed
  have tokens := Token.length_le_of_scanFrom accepted.scanned
  rw [List.length_append, List.length_singleton, String.length_toList] at tokens
  obtain ⟨short, members⟩ := accepted.forms.addressed (show inner.length ≤ text.length by omega)
  have list := addressed_list (show body.length ≤ text.length by omega) members
  rw [← Stmt.encodeList_eq_map] at list
  have node : (plainNode (Source.ofString text).lines "Program"
      ⟨⟨0, (Source.ofString text).length⟩, none⟩
      [("sourceType", textValue "script"), ("interpreter", .null),
        ("body", .list (Stmt.encodeList (Source.ofString text).lines body)),
        ("directives", .list [])]).Addressed text.length :=
    addressed_plainNode (.cons (addressed_text _)
      (.cons addressed_null (.cons list (.cons addressed_nothing .nil))))
  exact node.each

section Varies

variable {limit : Nat} {allows : Allowance} (registered : allows.Registered)

include registered

theorem addressed_of_variesFields {kind : String} {fields others : Fields}
    (addressed : fields.Addressed limit) (varies : VariesFields allows kind fields others) :
    others.Addressed limit := by
  induction fields generalizing others with
  | nil =>
    rw [VariesFields] at varies
    rw [varies]
    exact Fitting.nil.own
  | cons entry rest ih =>
    obtain ⟨name, value⟩ := entry
    obtain ⟨other, more, rfl, one, tail⟩ := varies
    obtain ⟨⟨plain, short⟩, behind⟩ := List.forall_mem_cons.1 addressed
    refine .cons plain (fun items list => ?_) (ih behind tail)
    rcases one with same | written
    · cases value with
      | list held =>
        obtain ⟨others, rfl, inside⟩ := same
        cases list
        rw [inside.length_eq]
        exact short held rfl
      | object inner =>
        obtain ⟨others, rfl, -⟩ := same
        cases list
      | null | bool | number | string =>
        rw [Value.Varies.eq_def] at same
        subst same
        cases list
    · have scalar := (registered.flat.scalar written).2
      rw [scalar] at list
      cases list

theorem addressed_of_varies {root tree : Fields}
    (addressed : (Value.object root).EachNode (Fields.Addressed limit))
    (varies : VariesFields allows root.kind root tree) :
    (Value.object tree).EachNode (Fields.Addressed limit) := by
  have whole : (Value.object root).Varies allows (.object tree) := ⟨tree, rfl, varies⟩
  exact eachNode_of_varies registered (addressed_of_variesFields registered) whole addressed

end Varies

end Script

theorem Path.plain_of_resolve {limit : Nat} (counted : limit ≤ wordSize) {root node : Fields}
    (here : root.Addressed limit) (each : Value.EachField (Fields.Addressed limit) root)
    {path : Path} (there : path.resolve root = some node) : path.Plain := by
  induction path generalizing root with
  | nil => exact fun _ member => absurd member List.not_mem_nil
  | cons step rest ih =>
    simp only [resolve] at there
    split at there
    · simp at there
    · rename_i inner leads
      obtain ⟨inside, below⟩ := each.step leads
      refine List.forall_mem_cons.2 ⟨?_, ih inside below there⟩
      rcases Step.get?_of_leads leads with ⟨index, found⟩ | ⟨i, items, index, found, place⟩
      · obtain ⟨plain, -⟩ := here _ (Fields.mem_of_get? found)
        exact ⟨plain, by simp [index]⟩
      · obtain ⟨plain, short⟩ := here _ (Fields.mem_of_get? found)
        have long := short items rfl
        have before := (List.getElem?_eq_some_iff.1 place).1
        refine ⟨plain, fun j same => ?_⟩
        rw [index, Option.mem_some_iff] at same
        omega

end Arborist

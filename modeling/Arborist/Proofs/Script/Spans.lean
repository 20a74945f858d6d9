import Mathlib
import Arborist.Proofs.Script.RoundTrip
import Arborist.Proofs.Source.Lines
import Arborist.Proofs.Source.Standing

/-!
Spans of parsed trees. Each node begins with its first token and ends with its last one, and its
parts lie along these tokens, one behind the other. The spans are kept as binary64 numbers, which
are the offsets themselves in a text of less than `2 ^ 53` bytes.
-/

namespace Arborist

namespace Number

def toNat? (n : Number) : Option Nat :=
  match n.units? with
  | some units =>
    if 0 ≤ units ∧ units % twoTo 1074 = 0 then some (units / twoTo 1074).toNat else none
  | none => none

theorem toNat?_of_units {number : Number} {n : Nat}
    (units : number.units? = some ((n : Int) * twoTo 1074)) : number.toNat? = some n := by
  have scale : (0 : Int) < twoTo 1074 := by exact_mod_cast twoTo_pos 1074
  have positive : (0 : Int) ≤ n * twoTo 1074 := Int.mul_nonneg (Int.natCast_nonneg n) scale.le
  rw [toNat?, units]
  dsimp only
  rw [if_pos ⟨positive, Int.mul_emod_left _ _⟩, Int.mul_ediv_cancel _ scale.ne', Int.toNat_natCast]

theorem toNat?_ofNat {n : Nat} (small : n ≤ twoTo 53) : (ofNat n).toNat? = some n := by
  rcases Nat.lt_or_eq_of_le small with less | rfl
  · exact toNat?_of_units (units?_ofNat less)
  · have units : (ofNat (twoTo 53)).units? = some ((twoTo 53 : Nat) * twoTo 1074) := by
      decide +kernel
    exact toNat?_of_units units

end Number

theorem Text.count_le_byteLength (c : Char) (text : List Char) :
    text.count c ≤ Text.byteLength text := by
  induction text with
  | nil => exact Nat.le_refl _
  | cons first rest ih =>
    have positive := first.utf8Size_pos
    rw [Text.byteLength, List.count_cons]
    split <;> omega

theorem LineIndex.column_le (index : LineIndex) (offset : Nat) :
    (index.position offset).column ≤ offset := Nat.sub_le _ _

open Script (Span)

namespace Value

def asNat? (v : Value) : Option Nat := v.asNumber?.bind Number.toNat?

def nodes : Value → List Fields
  | .list items => items.filterMap asNode?
  | v => v.asNode?.toList

end Value

namespace Fields

def natAt? (fields : Fields) (key : String) : Option Nat := (fields.get? key).bind Value.asNat?

def objectAt? (fields : Fields) (key : String) : Option Fields :=
  match fields.get? key with
  | some (.object inner) => some inner
  | _ => none

def span? (node : Fields) : Option Span :=
  match node.natAt? "start", node.natAt? "end" with
  | some start, some stop => some ⟨start, stop⟩
  | _, _ => none

def point? (point : Fields) : Option (Position × Nat) :=
  match point.natAt? "line", point.natAt? "column", point.natAt? "index" with
  | some line, some column, some offset => some (⟨line, column⟩, offset)
  | _, _, _ => none

def locAt? (node : Fields) (key : String) : Option (Position × Nat) :=
  ((node.objectAt? "loc").bind (objectAt? · key)).bind point?

def children (fields : Fields) : List Fields := fields.flatMap fun entry => entry.2.nodes

/-- A node that stands at a span of a text with these tokens, with its children in order inside. -/
structure Stands (text : List Char) (tokens : List Token) (node : Fields) (span : Span) : Prop where
  recorded : node.span? = some span
  starts : node.locAt? "start" = some ((LineIndex.ofText text).position span.start, span.start)
  stops : node.locAt? "end" = some ((LineIndex.ofText text).position span.stop, span.stop)
  ordered : span.start ≤ span.stop
  within : span.stop ≤ Text.byteLength text
  edges : Text.Boundary text span.start ∧ Text.Boundary text span.stop
  tokens : node.kind ∉ ["File", "Program"] → span.start < span.stop ∧
    (∃ t ∈ tokens, t.start = span.start) ∧ ∃ t ∈ tokens, t.stop = span.stop
  inner : ∃ spans : List Span, node.children.map span? = spans.map some ∧
    (∀ s ∈ spans, span.start ≤ s.start ∧ s.stop ≤ span.stop) ∧
    spans.Pairwise fun a b => a.stop ≤ b.start

def Placed (text : List Char) (tokens : List Token) (node : Fields) : Prop :=
  ∃ span, node.Stands text tokens span

theorem children_append (front rest : Fields) :
    children (front ++ rest) = front.children ++ rest.children := List.flatMap_append

end Fields

namespace Script

open Value (EachField)

section Laid

variable {text : List Char} {tokens ts us : List Token} {t : Token} {spans : List (Option Span)}

theorem Laid.sublist (laid : Token.Laid text tokens) (sub : ts.Sublist tokens) :
    Token.Laid text ts where
  solid t member := laid.solid t (sub.mem member)
  edges t member := laid.edges t (sub.mem member)
  apart := laid.apart.sublist sub

theorem sub_append (sub : (ts ++ us).Sublist tokens) : ts.Sublist tokens ∧ us.Sublist tokens :=
  ⟨(List.sublist_append_left ts us).trans sub, (List.sublist_append_right ts us).trans sub⟩

theorem sub_cons (sub : (t :: ts).Sublist tokens) : ts.Sublist tokens :=
  (List.sublist_cons_self t ts).trans sub

theorem startOf_cons (t : Token) (ts : List Token) : startOf (t :: ts) = t.start := rfl

theorem stopOf_concat (ts : List Token) (t : Token) : stopOf (ts ++ [t]) = t.stop := by
  simp [stopOf]

theorem startOf_le (laid : Token.Laid text ts) : ∀ t ∈ ts, startOf ts ≤ t.start := by
  cases ts with
  | nil => simp
  | cons first rest =>
    refine List.forall_mem_cons.mpr ⟨Nat.le_refl _, fun t member => ?_⟩
    have := (List.pairwise_cons.mp laid.apart).1 t member
    have := laid.solid first List.mem_cons_self
    rw [startOf_cons]
    omega

theorem le_stopOf (laid : Token.Laid text ts) : ∀ t ∈ ts, t.stop ≤ stopOf ts := by
  rcases List.eq_nil_or_concat' ts with rfl | ⟨init, last, rfl⟩
  · simp
  · intro t member
    rw [stopOf_concat]
    rcases List.mem_append.mp member with inside | ends
    · have := (List.pairwise_append.mp laid.apart).2.2 t inside last (by simp)
      have := laid.solid last (by simp)
      omega
    · rw [List.mem_singleton.mp ends]

theorem exists_over (laid : Token.Laid text ts) (some : ts ≠ []) :
    ∃ first ∈ ts, ∃ last ∈ ts, (Place.over ts).span = ⟨first.start, last.stop⟩ ∧
      first.start < last.stop := by
  obtain ⟨first, rest, front⟩ := List.exists_cons_of_ne_nil some
  obtain ⟨init, last, back⟩ := (List.eq_nil_or_concat' ts).resolve_left some
  have starts : first ∈ ts := front ▸ List.mem_cons_self
  have stops : last ∈ ts := by simp [back]
  have start : startOf ts = first.start := by rw [front, startOf_cons]
  have stop : stopOf ts = last.stop := by rw [back, stopOf_concat]
  have before := startOf_le laid last stops
  have solid := laid.solid last stops
  refine ⟨first, starts, last, stops, ?_, by omega⟩
  rw [Place.over, start, stop, max_eq_left (by omega)]

/-- Spans that lie along tokens: each over some of them, in their order. -/
inductive Along : List Token → List (Option Span) → Prop where
  | nil : Along [] []
  | skip {t : Token} {ts : List Token} {spans : List (Option Span)} (rest : Along ts spans) :
      Along (t :: ts) spans
  | span {front ts : List Token} {spans : List (Option Span)} (filled : front ≠ [])
      (rest : Along ts spans) : Along (front ++ ts) (some (Place.over front).span :: spans)

namespace Along

theorem before (along : Along ts spans) (front : List Token) : Along (front ++ ts) spans := by
  induction front with
  | nil => exact along
  | cons t more ih => exact .skip ih

theorem empty (ts : List Token) : Along ts [] := by
  simpa using nil.before ts

theorem append {others : List (Option Span)} (first : Along ts spans) (second : Along us others) :
    Along (ts ++ us) (spans ++ others) := by
  induction first with
  | nil => exact second
  | skip _ ih => exact .skip ih
  | span filled _ ih =>
    rw [List.append_assoc]
    exact .span filled ih

theorem behind (along : Along ts spans) (back : List Token) : Along (ts ++ back) spans := by
  simpa using along.append (empty back)

theorem whole (filled : ts ≠ []) : Along ts [some (Place.over ts).span] := by
  simpa using span filled nil

theorem ordered (along : Along ts spans) (laid : Token.Laid text ts) :
    ∃ list : List Span, spans = list.map some ∧
      (∀ s ∈ list, ∃ first ∈ ts, ∃ last ∈ ts, s = ⟨first.start, last.stop⟩) ∧
      list.Pairwise fun a b => a.stop ≤ b.start := by
  induction along with
  | nil => exact ⟨[], rfl, by simp, .nil⟩
  | @skip t ts spans _ ih =>
    obtain ⟨list, rfl, ends, apart⟩ := ih (Laid.sublist laid (List.sublist_cons_self t ts))
    refine ⟨list, rfl, fun s member => ?_, apart⟩
    obtain ⟨first, starts, last, stops, rfl⟩ := ends s member
    exact ⟨first, List.mem_cons_of_mem t starts, last, List.mem_cons_of_mem t stops, rfl⟩
  | @span front ts spans filled _ ih =>
    obtain ⟨list, rfl, ends, apart⟩ := ih (Laid.sublist laid (List.sublist_append_right front ts))
    obtain ⟨first, starts, last, stops, same, -⟩ :=
      exists_over (Laid.sublist laid (List.sublist_append_left front ts)) filled
    rw [same]
    refine ⟨⟨first.start, last.stop⟩ :: list, rfl, ?_, List.pairwise_cons.mpr ⟨?_, apart⟩⟩
    · refine List.forall_mem_cons.mpr ⟨⟨first, List.mem_append_left ts starts, last,
        List.mem_append_left ts stops, rfl⟩, fun s member => ?_⟩
      obtain ⟨a, starts, b, stops, rfl⟩ := ends s member
      exact ⟨a, List.mem_append_right front starts, b, List.mem_append_right front stops, rfl⟩
    · intro s member
      obtain ⟨a, starts, b, stops, rfl⟩ := ends s member
      exact (List.pairwise_append.mp laid.apart).2.2 last ‹_› a starts

end Along

end Laid

section Nodes

variable {text : List Char} {tokens ts us : List Token} {t : Token} {kind : String}
  {span : Span} {fields : Fields} {value : Value}

/-- A value that lies along tokens: all nodes in it stand in the text, the outermost in order. -/
structure Sits (text : List Char) (tokens ts : List Token) (value : Value) : Prop where
  along : Along ts (value.nodes.map Fields.span?)
  each : value.EachNode (Fields.Placed text tokens)

structure Fills (text : List Char) (tokens ts : List Token) (fields : Fields) : Prop where
  along : Along ts (fields.children.map Fields.span?)
  each : EachField (Fields.Placed text tokens) fields

theorem sits_null : Sits text tokens [] .null := ⟨.nil, trivial⟩

theorem sits_nil : Sits text tokens [] (.list []) := ⟨.nil, trivial⟩

theorem Sits.cons {items : List Value} (first : Sits text tokens ts value)
    (rest : Sits text tokens us (.list items)) (single : value.asList? = none) :
    Sits text tokens (ts ++ us) (.list (value :: items)) where
  along := by
    have nodes : (Value.list (value :: items)).nodes = value.nodes ++ (Value.list items).nodes := by
      cases value with
      | list => simp [Value.asList?] at single
      | object inner =>
        cases node : Value.asNode? (.object inner) <;> simp [Value.nodes, node]
      | _ => rfl
    rw [nodes, List.map_append]
    exact first.along.append rest.along
  each := ⟨first.each, rest.each⟩

theorem Sits.behind (sits : Sits text tokens ts value) (back : List Token) :
    Sits text tokens (ts ++ back) value := ⟨sits.along.behind back, sits.each⟩

theorem Sits.skip (sits : Sits text tokens ts value) : Sits text tokens (t :: ts) value :=
  ⟨.skip sits.along, sits.each⟩

def Flat (value : Value) : Prop := value.nodes = [] ∧ ∀ holds, value.EachNode holds

theorem fills_nil : Fills text tokens [] [] := ⟨.nil, trivial⟩

theorem Sits.fills (first : Sits text tokens ts value) (key : String)
    (rest : Fills text tokens us fields) : Fills text tokens (ts ++ us) ((key, value) :: fields) where
  along := by
    have children : Fields.children ((key, value) :: fields) = value.nodes ++ fields.children := rfl
    rw [children, List.map_append]
    exact first.along.append rest.along
  each := ⟨first.each, rest.each⟩

theorem Sits.fill (sits : Sits text tokens ts value) (key : String) :
    Fills text tokens ts [(key, value)] := by
  have := sits.fills key fills_nil
  simpa using this

theorem Flat.sits (flat : Flat value) : Sits text tokens [] value where
  along := by
    rw [flat.1]
    exact .nil
  each := flat.2 _

theorem Flat.fills (flat : Flat value) (key : String) (rest : Fills text tokens ts fields) :
    Fills text tokens ts ((key, value) :: fields) := flat.sits.fills key rest

theorem Fills.behind (fills : Fills text tokens ts fields) (back : List Token) :
    Fills text tokens (ts ++ back) fields := ⟨fills.along.behind back, fills.each⟩

theorem Fills.before (fills : Fills text tokens ts fields) (front : List Token) :
    Fills text tokens (front ++ ts) fields := ⟨fills.along.before front, fills.each⟩

theorem Fills.skip (fills : Fills text tokens ts fields) : Fills text tokens (t :: ts) fields :=
  ⟨.skip fills.along, fills.each⟩

section Encoded

variable {lines : LineIndex}

theorem span?_nodeFields (start : span.start ≤ twoTo 53) (stop : span.stop ≤ twoTo 53) :
    (nodeFields lines kind span fields).span? = some span := by
  simp [nodeFields, Fields.span?, Fields.natAt?, Fields.get?_cons, natValue, Value.asNat?,
    Value.asNumber?, Number.toNat?_ofNat start, Number.toNat?_ofNat stop]

theorem children_extraFields {entries : Fields} (plain : entries.isNode = false) :
    (extraFields entries).children = [] := by
  unfold extraFields
  split
  · rfl
  · simp [Fields.children, Value.nodes, Value.asNode?, plain]

theorem point?_pointValue {offset : Nat} (line : (lines.position offset).line ≤ twoTo 53)
    (small : offset ≤ twoTo 53) :
    ∃ point, pointValue lines offset = .object point ∧
      Fields.point? point = some (lines.position offset, offset) := by
  have column := Nat.le_trans (lines.column_le offset) small
  refine ⟨_, rfl, ?_⟩
  simp [Fields.point?, Fields.natAt?, Fields.get?_cons, natValue, Value.asNat?, Value.asNumber?,
    Number.toNat?_ofNat line, Number.toNat?_ofNat column, Number.toNat?_ofNat small]

end Encoded

variable (small : Text.byteLength text < twoTo 53)

include small

theorem locAt?_nodeFields (start : span.start ≤ Text.byteLength text)
    (stop : span.stop ≤ Text.byteLength text) :
    (nodeFields (.ofText text) kind span fields).locAt? "start" =
        some ((LineIndex.ofText text).position span.start, span.start) ∧
      (nodeFields (.ofText text) kind span fields).locAt? "end" =
        some ((LineIndex.ofText text).position span.stop, span.stop) := by
  have feeds := Text.count_le_byteLength '\n' text
  have line (offset : Nat) : ((LineIndex.ofText text).position offset).line ≤ twoTo 53 := by
    have := LineIndex.line_le text offset
    omega
  obtain ⟨first, starts, firstPoint⟩ := point?_pointValue (line span.start) (by omega)
  obtain ⟨last, stops, lastPoint⟩ := point?_pointValue (line span.stop) (by omega)
  rw [nodeFields, starts, stops]
  simp [Fields.locAt?, Fields.objectAt?, Fields.get?_cons, firstPoint, lastPoint]

theorem placed_nodeFields {spans : List Span} (edges : Text.Boundary text span.start ∧
      Text.Boundary text span.stop) (ordered : span.start ≤ span.stop)
    (outer : kind ∉ ["File", "Program"] → span.start < span.stop ∧
      (∃ t ∈ tokens, t.start = span.start) ∧ ∃ t ∈ tokens, t.stop = span.stop)
    (children : fields.children.map Fields.span? = spans.map some)
    (inside : ∀ s ∈ spans, span.start ≤ s.start ∧ s.stop ≤ span.stop)
    (apart : spans.Pairwise fun a b => a.stop ≤ b.start) :
    Fields.Placed text tokens (nodeFields (.ofText text) kind span fields) := by
  have start := edges.1.le
  have stop := edges.2.le
  obtain ⟨starts, stops⟩ := locAt?_nodeFields small start stop
  exact ⟨span, span?_nodeFields (by omega) (by omega), starts, stops, ordered, stop, edges, outer,
    spans, children, inside, apart⟩

variable (laid : Token.Laid text tokens)

include laid

theorem placed_over (filled : ts ≠ []) (sub : ts.Sublist tokens)
    (along : Along ts (fields.children.map Fields.span?)) :
    Fields.Placed text tokens (nodeFields (.ofText text) kind (Place.over ts).span fields) := by
  have here := Laid.sublist laid sub
  obtain ⟨first, starts, last, stops, same, solid⟩ := exists_over here filled
  obtain ⟨spans, children, ends, apart⟩ := along.ordered here
  rw [same]
  refine placed_nodeFields small ⟨(here.edges first starts).1, (here.edges last stops).2⟩ solid.le
    (fun _ => ⟨solid, ⟨first, sub.mem starts, rfl⟩, ⟨last, sub.mem stops, rfl⟩⟩) children
    (fun s member => ?_) apart
  obtain ⟨a, inside, b, within, rfl⟩ := ends s member
  have start := startOf_le here a inside
  have stop := le_stopOf here b within
  have := congrArg Span.start same
  have := congrArg Span.stop same
  simp only [Place.over] at *
  omega

theorem sits_node (filled : ts ≠ []) (sub : ts.Sublist tokens)
    (each : (Value.object (nodeFields (.ofText text) kind (Place.over ts).span fields)).EachNode
      (Fields.Placed text tokens)) :
    Sits text tokens ts (.object (nodeFields (.ofText text) kind (Place.over ts).span fields)) where
  along := by
    have here := Laid.sublist laid sub
    obtain ⟨first, starts, last, stops, same, solid⟩ := exists_over here filled
    have start : (Place.over ts).span.start ≤ twoTo 53 := by
      have := (here.edges first starts).1.le
      rw [same]
      exact (this.trans_lt small).le
    have stop : (Place.over ts).span.stop ≤ twoTo 53 := by
      have := (here.edges last stops).2.le
      rw [same]
      exact (this.trans_lt small).le
    have nodes : (Value.object (nodeFields (.ofText text) kind (Place.over ts).span fields)).nodes =
        [nodeFields (.ofText text) kind (Place.over ts).span fields] := rfl
    rw [nodes, List.map_singleton, span?_nodeFields start stop]
    exact .whole filled
  each := each

theorem sits_plainNode (filled : ts ≠ []) (sub : ts.Sublist tokens)
    (fills : Fills text tokens ts fields) (paren : Option Nat) :
    Sits text tokens ts (plainNode (.ofText text) kind ⟨(Place.over ts).span, paren⟩ fields) := by
  have children : Fields.children (fields ++ extraFields (parenFields paren)) = fields.children := by
    rw [Fields.children_append, children_extraFields (eachField_parens (fun _ => True) paren).2,
      List.append_nil]
  have each : (plainNode (.ofText text) kind ⟨(Place.over ts).span, paren⟩ fields).EachNode
      (Fields.Placed text tokens) :=
    eachNode_plainNode (placed_over small laid filled sub (children ▸ fills.along)) fills.each
  exact sits_node small laid filled sub each

theorem sits_literalNode (sub : [t].Sublist tokens) (flat : Flat value) (raw : Option String)
    (paren : Option Nat) :
    Sits text tokens [t]
      (literalNode (.ofText text) kind ⟨(Place.over [t]).span, paren⟩ value raw) := by
  have plain := (eachField_spelling (flat.2 fun _ => True) raw paren).2
  have children : Fields.children
      (extraFields (rawFields value raw ++ parenFields paren) ++ [("value", value)]) = [] := by
    rw [Fields.children_append, children_extraFields plain]
    simp [Fields.children, flat.1]
  have along : Along [t] ((Fields.children (extraFields (rawFields value raw ++ parenFields paren) ++
      [("value", value)])).map Fields.span?) := by
    rw [children]
    exact .empty _
  have each : (literalNode (.ofText text) kind ⟨(Place.over [t]).span, paren⟩ value raw).EachNode
      (Fields.Placed text tokens) :=
    eachNode_literalNode (placed_over small laid (List.cons_ne_nil t []) sub along) (flat.2 _)
  exact sits_node small laid (List.cons_ne_nil t []) sub each

end Nodes

theorem Expr.withNote_note (e : Expr Place) : e.withNote ⟨e.note.span, e.note.paren⟩ = e := by
  cases e <;> rfl

theorem Expr.asList?_encode (lines : LineIndex) (e : Expr Place) :
    (e.encode lines).asList? = none := by
  cases e <;> rfl

/-- The expressions of a phrase lie along its tokens. Parentheses around an expression leave the
expression where it is. -/
def Phrase.Sits (text : List Char) (tokens ts : List Token) : Phrase → Prop
  | .expr _ e => ∀ paren,
    Script.Sits text tokens ts ((e.withNote ⟨e.note.span, paren⟩).encode (.ofText text))
  | .items list | .parts list =>
    Script.Sits text tokens ts (.list (Expr.encodeList (.ofText text) list))

section Phrases

variable {text : List Char} {tokens ts us : List Token} {least : Level} {e : Expr Place}

theorem Phrase.Sits.expr (sits : (Phrase.expr least e).Sits text tokens ts) :
    Script.Sits text tokens ts (e.encode (.ofText text)) := by
  have := sits e.note.paren
  rwa [Expr.withNote_note] at this

theorem flat_textValue (s : String) : Flat (textValue s) := ⟨rfl, fun _ => trivial⟩

theorem flat_bool (b : Bool) : Flat (.bool b) := ⟨rfl, fun _ => trivial⟩

theorem flat_number (n : Number) : Flat (.number n) := ⟨rfl, fun _ => trivial⟩

variable (small : Text.byteLength text < twoTo 53) (laid : Token.Laid text tokens)

include small laid

theorem Derives.sits {phrase : Phrase} (derives : Derives phrase ts) (sub : ts.Sublist tokens) :
    phrase.Sits text tokens ts := by
  induction derives with
  | name =>
    exact sits_plainNode small laid (by simp) sub
      ((flat_textValue _).fills "name" fills_nil).skip
  | boolean =>
    exact sits_plainNode small laid (by simp) sub ((flat_bool _).fills "value" fills_nil).skip
  | null => exact sits_plainNode small laid (by simp) sub fills_nil.skip
  | number => exact sits_literalNode small laid sub (flat_number _) _
  | string => exact sits_literalNode small laid sub (flat_textValue _) _
  | @paren a b ts e _ _ _ ih =>
    intro paren
    have again : (e.withNote ⟨e.note.span, some a.start⟩).withNote
        ⟨(e.withNote ⟨e.note.span, some a.start⟩).note.span, paren⟩ =
        e.withNote ⟨e.note.span, paren⟩ := by cases e <;> rfl
    rw [again]
    exact ((ih (sub_append (sub_cons sub)).1 paren).behind [b]).skip
  | @array a b ts es _ _ _ ih =>
    have elements : Script.Sits text tokens ts _ := ih (sub_append (sub_cons sub)).1
    rw [Expr.encodeList_eq_map, ← Expr.encodeElements_some] at elements
    exact sits_plainNode small laid (by simp) sub ((elements.behind [b]).skip.fill "elements")
  | @dot point word ts object name _ _ property ih =>
    obtain ⟨front, behind⟩ := sub_append sub
    have inner := (ih front).expr
    have here : Script.Sits text tokens [word]
        ((Expr.name (Place.over [word]) name).encode (.ofText text)) :=
      sits_plainNode small laid (by simp) (sub_cons behind)
        ((flat_textValue _).fills "name" fills_nil).skip _
    exact sits_plainNode small laid (by simp) sub
      (inner.fills "object" ((flat_bool _).fills "computed" (here.fill "property").skip))
  | @bracket a b ts us object property _ _ _ _ first second =>
    obtain ⟨front, behind⟩ := sub_append sub
    have inner := (first front).expr
    have index := (second (sub_append (sub_cons behind)).1).expr.behind [b]
    exact sits_plainNode small laid (by simp) sub
      (inner.fills "object" ((flat_bool _).fills "computed" (index.fill "property").skip))
  | @call a b ts us callee es _ _ _ _ first second =>
    obtain ⟨front, behind⟩ := sub_append sub
    have inner := (first front).expr
    have list : Script.Sits text tokens us _ := second (sub_append (sub_cons behind)).1
    exact sits_plainNode small laid (by simp) sub
      (inner.fills "callee" ((list.behind [b]).skip.fill "arguments"))
  | @updated t ts operator argument _ _ _ ih =>
    have inner := ((ih (sub_append sub).1).expr.fill "argument").behind [t]
    exact sits_plainNode small laid (by simp) sub
      ((flat_textValue _).fills "operator" ((flat_bool _).fills "prefix" inner))
  | unary _ _ ih | updating _ _ ih =>
    have inner := (ih (sub_cons sub)).expr.fill "argument"
    exact sits_plainNode small laid (by simp) sub
      ((flat_textValue _).fills "operator" ((flat_bool _).fills "prefix" inner)).skip
  | power _ _ _ first second | binary _ _ _ _ _ first second =>
    obtain ⟨front, behind⟩ := sub_append sub
    have left := (first front).expr
    have right := (second (sub_cons behind)).expr.fill "right"
    exact sits_plainNode small laid (by simp) sub
      (left.fills "left" ((flat_textValue _).fills "operator" right).skip)
  | conditional _ _ _ _ _ first second third =>
    obtain ⟨front, behind⟩ := sub_append sub
    obtain ⟨middle, back⟩ := sub_append (sub_cons behind)
    have test := (first front).expr
    have consequent := (second middle).expr
    have alternate := (third (sub_cons back)).expr.fill "alternate"
    exact sits_plainNode small laid (by simp) sub
      (test.fills "test" (consequent.fills "consequent" alternate.skip).skip)
  | assignment _ _ _ _ first second =>
    obtain ⟨front, behind⟩ := sub_append sub
    have left := (first front).expr
    have right := (second (sub_cons behind)).expr.fill "right"
    exact sits_plainNode small laid (by simp) sub
      ((flat_textValue _).fills "operator" (left.fills "left" right.skip))
  | sequence head _ _ first second =>
    obtain ⟨front, behind⟩ := sub_append sub
    have list := (first front).expr.cons (second behind) (Expr.asList?_encode _ _)
    exact sits_plainNode small laid (by simp [head.ne_nil]) sub (list.fill "expressions")
  | looser _ ih => exact ih sub
  | noItems | noParts => exact sits_nil
  | oneItem _ ih =>
    have list := (ih sub).expr.cons sits_nil (Expr.asList?_encode _ _)
    rwa [List.append_nil] at list
  | moreItems _ _ _ item rest =>
    obtain ⟨front, behind⟩ := sub_append sub
    have others : Script.Sits text tokens _ _ := rest (sub_cons behind)
    exact (item front).expr.cons others.skip (Expr.asList?_encode _ _)
  | moreParts _ _ _ part rest =>
    obtain ⟨front, behind⟩ := sub_append (sub_cons sub)
    exact ((part front).expr.cons (rest behind) (Expr.asList?_encode _ _)).skip

theorem Named.sits {t : Token} (named : Named e t) (sub : [t].Sublist tokens) :
    Script.Sits text tokens [t] (e.encode (.ofText text)) := by
  cases named with
  | intro =>
    exact sits_plainNode small laid (by simp) sub ((flat_textValue _).fills "name" fills_nil).skip _

theorem Parameters.sits {list : List (Expr Place)} (parameters : Parameters list ts)
    (sub : ts.Sublist tokens) :
    Script.Sits text tokens ts (.list (Expr.encodeList (.ofText text) list)) := by
  induction parameters with
  | none => exact sits_nil
  | one name => exact (name.sits small laid sub).cons sits_nil (Expr.asList?_encode _ _)
  | @more e es t u ts name _ _ ih =>
    have first := name.sits small laid ((List.sublist_append_left [t] (u :: ts)).trans sub)
    exact first.cons (ih (sub_cons (sub_cons sub))).skip (Expr.asList?_encode _ _)

theorem Declares.sits {d : Declarator Place} {next : Token} (declares : Declares d ts next)
    (sub : ts.Sublist tokens) : Script.Sits text tokens ts (d.encode (.ofText text)) := by
  cases declares with
  | plain name =>
    have target := name.sits small laid sub
    exact sits_plainNode small laid (by simp) sub (target.fills "id" (sits_null.fill "init")) _
  | @initial e value t u _ ts name _ inner _ =>
    have target := name.sits small laid ((List.sublist_append_left [t] (u :: ts)).trans sub)
    have value := (inner.sits small laid (sub_cons (sub_cons sub))).expr
    exact sits_plainNode small laid (by simp) sub
      (target.fills "id" (value.fill "init").skip) _

theorem DeclaresAll.sits {list : List (Declarator Place)} {next : Token}
    (declares : DeclaresAll list ts next) (sub : ts.Sublist tokens) :
    Script.Sits text tokens ts (.list (list.map (Declarator.encode (.ofText text)))) := by
  induction declares with
  | last one =>
    have list := (one.sits small laid sub).cons sits_nil rfl
    rwa [List.append_nil] at list
  | more one _ _ ih =>
    obtain ⟨front, behind⟩ := sub_append sub
    exact (one.sits small laid front).cons (ih (sub_cons behind)).skip rfl

theorem Heads.fills {head : FunctionHead Place} {rest : Fields} (heads : Heads head ts)
    (sub : ts.Sublist tokens) (behind : Fills text tokens us rest) :
    Fills text tokens (ts ++ us) (("id", head.name.encode (.ofText text)) ::
      ("generator", .bool head.isGenerator) :: ("async", .bool head.isAsync) ::
      ("params", .list (Expr.encodeList (.ofText text) head.parameters)) :: rest) := by
  cases heads with
  | @intro f a b n front star ts _ _ name parameters _ _ _ named _ list _ =>
    have inside := (sub_append (sub_cons (sub_append sub).2)).2
    have name := named.sits small laid
      ((List.sublist_append_left [n] (a :: (ts ++ [b]))).trans inside)
    have parameters := list.sits small laid (sub_append (sub_cons (sub_cons inside))).1
    have shape : (front ++ f :: (star ++ n :: a :: (ts ++ [b]))) ++ us =
        front ++ f :: (star ++ ([n] ++ a :: ((ts ++ [b]) ++ us))) := by simp
    have arguments := (parameters.behind [b]).fills "params" behind
    rw [shape]
    exact ((name.fills "id" ((flat_bool _).fills "generator"
      ((flat_bool _).fills "async" arguments)).skip).before star).skip.before front

def Passage.Sits (text : List Char) (tokens ts : List Token) : Passage → Prop
  | .statement s => Script.Sits text tokens ts (s.encode (.ofText text))
  | .block place list =>
    Script.Sits text tokens ts (blockNode (.ofText text) place (Stmt.encodeList (.ofText text) list))
  | .body list => Script.Sits text tokens ts (.list (Stmt.encodeList (.ofText text) list))

theorem Forms.sits {passage : Passage} {next : Token} (forms : Forms passage ts next)
    (sub : ts.Sublist tokens) : passage.Sits text tokens ts := by
  induction forms with
  | @declaration t next ts us kind list _ declarators _ =>
    have list := declarators.sits small laid (sub_append (sub_cons sub)).1
    exact sits_plainNode small laid (by simp) sub
      (list.fills "declarations" ((flat_textValue _).fills "kind" (fills_nil.behind us))).skip _
  | function front _ ih =>
    have body : Script.Sits text tokens _ _ := ih (sub_append sub).2
    have fills := front.fills small laid (sub_append sub).1 (body.fill "body")
    exact sits_plainNode small laid (by cases front; simp) sub fills _
  | block _ ih => exact ih sub
  | @leave t _ us _ _ =>
    exact sits_plainNode small laid (by simp) sub ((sits_null.behind us).fill "argument").skip _
  | @ret t next ts us argument _ inner _ _ _ =>
    have argument := (inner.sits small laid (sub_append (sub_cons sub)).1).expr
    exact sits_plainNode small laid (by simp) sub ((argument.behind us).fill "argument").skip _
  | @expression next ts us e inner _ _ =>
    have body := (inner.sits small laid (sub_append sub).1).expr
    exact sits_plainNode small laid (by simp [inner.ne_nil]) sub
      ((body.behind us).fill "expression") _
  | branch _ _ condition _ _ _ ih =>
    obtain ⟨front, behind⟩ := sub_append (sub_cons (sub_cons sub))
    have test := (condition.sits small laid front).expr
    have consequent : Script.Sits text tokens _ _ := ih (sub_cons behind)
    have fills := consequent.fills "consequent" (sits_null.fill "alternate")
    rw [List.append_nil] at fills
    exact sits_plainNode small laid (by simp) sub (test.fills "test" fills.skip).skip.skip _
  | choice _ _ condition _ _ _ _ first second =>
    obtain ⟨front, behind⟩ := sub_append (sub_cons (sub_cons sub))
    obtain ⟨middle, back⟩ := sub_append (sub_cons behind)
    have test := (condition.sits small laid front).expr
    have consequent : Script.Sits text tokens _ _ := first middle
    have alternate : Script.Sits text tokens _ _ := second (sub_cons back)
    exact sits_plainNode small laid (by simp) sub (test.fills "test"
      (consequent.fills "consequent" (alternate.fill "alternate").skip).skip).skip.skip _
  | empty => exact sits_plainNode small laid (by simp) sub fills_nil.skip _
  | @braces a b _ ts list _ _ _ ih =>
    have body : Script.Sits text tokens ts _ := ih (sub_append (sub_cons sub)).1
    have none : Flat (.list []) := ⟨rfl, fun _ => trivial⟩
    exact sits_plainNode small laid (by simp) sub
      (body.fills "body" (none.fills "directives" (fills_nil.behind [b]))).skip _
  | done => exact sits_nil
  | @more _ _ _ s _ _ _ first rest =>
    obtain ⟨front, behind⟩ := sub_append sub
    have statement : Script.Sits text tokens _ _ := first front
    exact statement.cons (rest behind) (by cases s <;> rfl)

end Phrases

section Root

variable {text : List Char} {tokens : List Token} {kind : String} {fields : Fields}

theorem placed_root {spans : List Span} (small : Text.byteLength text < twoTo 53)
    (outer : kind ∈ ["File", "Program"])
    (children : fields.children.map Fields.span? = spans.map some)
    (inside : ∀ s ∈ spans, s.stop ≤ Text.byteLength text)
    (apart : spans.Pairwise fun a b => a.stop ≤ b.start) :
    Fields.Placed text tokens
      (nodeFields (.ofText text) kind ⟨0, Text.byteLength text⟩ fields) :=
  placed_nodeFields small ⟨Text.boundary_zero text, Text.boundary_byteLength text⟩
    (Nat.zero_le _) (fun other => absurd outer other) children
    (fun s member => ⟨Nat.zero_le _, inside s member⟩) apart

variable {body : List (Stmt Place)} (small : Text.byteLength text < twoTo 53)
  (laid : Token.Laid text tokens)
  (sits : Sits text tokens tokens (.list (Stmt.encodeList (.ofText text) body)))

include small laid sits

theorem eachNode_program :
    (Value.object (programFields (.ofText text) (Text.byteLength text) body)).EachNode
      (Fields.Placed text tokens) := by
  obtain ⟨spans, children, ends, apart⟩ := sits.along.ordered laid
  have inside : ∀ s ∈ spans, s.stop ≤ Text.byteLength text := by
    intro s member
    obtain ⟨first, starts, last, stops, rfl⟩ := ends s member
    exact (laid.edges last stops).2.le
  constructor
  · intro _
    refine placed_root small (by decide) ?_ inside apart
    rw [← children]
    simp [Fields.children, Value.nodes, textValue, Value.asNode?]
  · exact Value.eachField_append.mpr ⟨eachField_frame _ _, trivial, trivial, sits.each, trivial, trivial⟩

theorem eachNode_file :
    (Value.object (fileFields (.ofText text) (Text.byteLength text) body)).EachNode
      (Fields.Placed text tokens) := by
  have program := eachNode_program small laid sits
  constructor
  · intro _
    have whole : (programFields (.ofText text) (Text.byteLength text) body).span? =
        some ⟨0, Text.byteLength text⟩ := span?_nodeFields (Nat.zero_le _) small.le
    have children : (Fields.children [("program",
        .object (programFields (.ofText text) (Text.byteLength text) body)),
        ("comments", .list [])]).map Fields.span? =
        [(⟨0, Text.byteLength text⟩ : Span)].map some := congrArg (· :: []) whole
    exact placed_root small (by decide) children (by simp) (by simp)
  · exact Value.eachField_append.mpr ⟨eachField_frame _ _, program, trivial, trivial⟩

end Root

/-- In the tree of a text of less than `2 ^ 53` bytes every node stands where it says: on character
boundaries, from the start of a token to the end of one unless it is an outermost node, with its
lines and columns, around its children, which stand one behind the other. -/
theorem placed_of_parseFile {text : String} {tree : Fields} (parsed : parseFile text = .ok tree)
    (small : Text.byteLength text.toList < twoTo 53) :
    ∃ inner last, Token.scan text.toList = .ok (inner ++ [last]) ∧ last.kind = .finish ∧
      (Value.object tree).EachNode (Fields.Placed text.toList inner) := by
  unfold parseFile at parsed
  cases run : (Source.ofString text).statements with
  | error fault => simp [run, Except.map] at parsed
  | ok body =>
    obtain ⟨inner, last, accepted⟩ := accepted_of_statements run
    have laid := (Token.scanned_of_scan accepted.scanned).laid
    have sits := accepted.forms.sits small laid (List.Sublist.refl inner)
    simp only [run, Except.map, Except.ok.injEq] at parsed
    subst parsed
    exact ⟨inner, last, accepted.scanned, accepted.finish, eachNode_file small laid sits⟩

theorem placed_of_parseFile_accent :
    ∃ tree, parseFile "if (a) f('\u00e9', (b))\nelse c" = .ok tree ∧
      Text.byteLength "if (a) f('\u00e9', (b))\nelse c".toList < twoTo 53 ∧
      ∃ inner last, Token.scan "if (a) f('\u00e9', (b))\nelse c".toList = .ok (inner ++ [last]) ∧
        last.kind = .finish ∧ (Value.object tree).EachNode
          (Fields.Placed "if (a) f('\u00e9', (b))\nelse c".toList inner) := by
  obtain ⟨tree, parsed⟩ : ∃ tree, parseFile "if (a) f('\u00e9', (b))\nelse c" = .ok tree :=
    exists_of_isOk (by decide +kernel)
  have small : Text.byteLength "if (a) f('\u00e9', (b))\nelse c".toList < twoTo 53 := by
    decide +kernel
  exact ⟨tree, parsed, small, placed_of_parseFile parsed small⟩

end Script

end Arborist

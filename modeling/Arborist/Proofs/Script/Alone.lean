import Mathlib
import Arborist.Proofs.Node.Target
import Arborist.Proofs.Script.Moved
import Arborist.Proofs.Script.Spans
import Arborist.Proofs.Script.Unplaced

/-!
The text of a node is the node. Every statement and every expression of a parsed tree is spelled by
tokens that stand together, and its span is theirs; so the part of the text at the span is read as
these tokens, and they are parsed into the node alone. Only the name behind a dot is left out, which
may be a word that no expression is spelled by.
-/

namespace Arborist

namespace Script

def statementKinds : List String :=
  ["VariableDeclaration", "FunctionDeclaration", "BlockStatement", "ReturnStatement",
    "ExpressionStatement", "IfStatement", "EmptyStatement"]

def expressionKinds : List String :=
  ["Identifier", "NumericLiteral", "StringLiteral", "BooleanLiteral", "NullLiteral",
    "ArrayExpression", "BinaryExpression", "LogicalExpression", "UnaryExpression",
    "UpdateExpression", "AssignmentExpression", "ConditionalExpression", "SequenceExpression",
    "CallExpression", "MemberExpression"]

end Script

open Script (natValue parseProgram statementKinds expressionKinds)

namespace Fields

/-- The text from the start to the end that a node records is parsed into a program that has one
statement. -/
structure Cuts (text : String) (node program statement : Fields) (start stop : Nat) : Prop where
  starts : node.get? "start" = some (natValue start)
  stops : node.get? "end" = some (natValue stop)
  ordered : start ≤ stop
  edges : Text.Boundary text.toList start ∧ Text.Boundary text.toList stop
  parsed : parseProgram (String.ofList (Text.slice text.toList start stop)) = .ok program
  single : program.get? "body" = some (.list [.object statement])

def AsStatement (text : String) (node : Fields) : Prop :=
  ∃ program statement start stop, node.Cuts text program statement start stop ∧
    (Value.object statement).unplaced = (Value.object node).unplaced

/-- The text of the node is a program of one statement, which is this expression without the
parentheses around it. -/
def AsExpression (text : String) (node : Fields) : Prop :=
  ∃ program statement start stop value, node.Cuts text program statement start stop ∧
    statement.kind = "ExpressionStatement" ∧ statement.get? "expression" = some value ∧
    value.trim true = (Value.object node).trim true

structure Alone (text : String) (node : Fields) : Prop where
  statement : node.kind ∈ statementKinds → node.AsStatement text
  expression : node.kind ∈ expressionKinds → node.AsExpression text

def IsDotted (node : Fields) : Prop :=
  node.kind = "MemberExpression" ∧ node.get? "computed" = some (.bool false)

/-- Every child of the node is parsed out of its own text, but for a name behind a dot. -/
def Divides (text : String) (node : Fields) : Prop :=
  ∀ entry ∈ node, ∀ inner ∈ entry.2.nodes,
    inner.Alone text ∨ entry.1 = "property" ∧ node.IsDotted ∧ inner.kind ∉ statementKinds

end Fields

structure Value.Divides (text : String) (value : Value) : Prop where
  own : ∀ inner ∈ value.nodes, inner.Alone text
  each : value.EachNode (Fields.Divides text)

namespace Script

open Value (EachField EachNode)

section Spelled

variable {e : Expr Place} {ts us : List Token}

/-- An expression is noted at its tokens, unless they are parentheses with an expression inside. -/
def Phrase.Noted (ts : List Token) : Phrase → Prop
  | .expr _ e => e.note = Place.over ts ∨ ∃ a b us inner, ts = a :: (us ++ [b]) ∧
      Derives (.expr Level.sequence inner) us ∧
      e = inner.withNote ⟨inner.note.span, some a.start⟩
  | _ => True

theorem Derives.noted {phrase : Phrase} (derives : Derives phrase ts) : phrase.Noted ts := by
  induction derives with
  | looser _ ih => exact ih
  | paren _ inner _ => exact .inr ⟨_, _, _, _, rfl, inner, rfl⟩
  | noItems | oneItem | moreItems | noParts | moreParts => trivial
  | _ => exact .inl rfl

structure Expr.SpelledBy (e : Expr Place) (us : List Token) : Prop where
  derives : Derives (.expr Level.sequence (e.withNote (Place.over us))) us
  span : e.note.span = (Place.over us).span

theorem Expr.SpelledBy.withNote (spelled : e.SpelledBy us) (paren : Option Nat) :
    (e.withNote ⟨e.note.span, paren⟩).SpelledBy us := by
  have again : (e.withNote ⟨e.note.span, paren⟩).withNote (Place.over us) =
      e.withNote (Place.over us) := by cases e <;> rfl
  have span : (e.withNote ⟨e.note.span, paren⟩).note.span = e.note.span := by cases e <;> rfl
  constructor
  · rw [again]
    exact spelled.derives
  · rw [span]
    exact spelled.span

theorem Derives.exists_spelledBy {least : Level} {e : Expr Place} {ts : List Token}
    (derives : Derives (.expr least e) ts) : ∃ us, us <:+: ts ∧ e.SpelledBy us := by
  rcases derives.noted with place | ⟨a, b, us, inner, rfl, within, rfl⟩
  · refine ⟨ts, List.infix_rfl, ?_, by rw [place]⟩
    have same : e.withNote e.note = e := Expr.withNote_note e
    rw [← place, same]
    exact derives.lower (Nat.zero_le least)
  · obtain ⟨vs, inside, spelled⟩ := Derives.exists_spelledBy within
    exact ⟨vs, inside.trans ⟨[a], [b], rfl⟩, spelled.withNote _⟩
termination_by ts.length

theorem Expr.SpelledBy.forms (spelled : e.SpelledBy us) {last : Token}
    (finish : last.kind = .finish) :
    Forms (.statement (.expression (Place.over us) (e.withNote (Place.over us)))) us last := by
  have stops : Stops us last Level.sequence := by simp [Stops, binds, finish]
  have ends : Terminated [] last := .free (by simp [finish]) (.inr (.inl finish))
  have alone := @Forms.expression last us [] _ spelled.derives stops ends
  rwa [List.append_nil] at alone

end Spelled

section Accepted

variable {text : String} {inner us : List Token} {last next : Token} {body : List (Stmt Place)}
  (accepted : Accepted text inner last body)

include accepted

theorem Accepted.live : ∀ t ∈ inner, t.kind ≠ .finish := by
  intro t member ends
  have spelled := accepted.spelled t member
  rw [ends] at spelled
  exact spelled

omit accepted in
theorem parseProgram_of_forms {tokens : List Token} {list : List (Stmt Place)}
    (scanned : Token.scan text.toList = .ok (tokens ++ [last])) (finish : last.kind = .finish)
    (live : ∀ t ∈ tokens, t.kind ≠ .finish) (forms : Forms (.body list) tokens last) :
    parseProgram text =
      .ok (programFields (Source.ofString text).lines (Source.ofString text).length list) := by
  have run := (program_eq_ok_iff finish live).2 forms
  have read : (Source.ofString text).statements = .ok list := by
    unfold Source.statements Source.tokens
    rw [show Token.scan (Source.ofString text).text = _ from scanned]
    simp only [run]
  rw [parseProgram, read]
  rfl

theorem Accepted.parse_slice {s : Stmt Place} (forms : Forms (.statement s) us next)
    (inside : us <:+: inner) : ∃ start stop lines length,
      s.note.span = ⟨start, stop⟩ ∧ start ≤ stop ∧
      Text.Boundary text.toList start ∧ Text.Boundary text.toList stop ∧
      parseProgram (String.ofList (Text.slice text.toList start stop)) =
        .ok (programFields lines length [s.moved start]) := by
  have some : us ≠ [] := by
    obtain ⟨t, rest, rfl, -⟩ := forms.head_ne
    simp
  have laid := Laid.sublist (Token.scanned_of_scan accepted.scanned).laid inside.sublist
  have live : ∀ t ∈ us, t.kind ≠ .finish := fun t member => accepted.live t (inside.subset member)
  have start : startOf us = (us.head some).start := by simp [startOf, List.head?_eq_some_head some]
  have stop : stopOf us = (us.getLast some).stop := by
    simp [stopOf, List.getLast?_eq_some_getLast some]
  have before := startOf_le laid _ (List.getLast_mem some)
  have solid := laid.solid _ (List.getLast_mem some)
  have span : s.note.span = ⟨(us.head some).start, (us.getLast some).stop⟩ := by
    rw [forms.note_eq, Place.over, start, stop, max_eq_left (by omega)]
  -- The slice is read as the tokens of the statement, moved to its beginning.
  obtain ⟨front, rest, split⟩ := inside
  have whole : Token.scan text.toList = .ok (front ++ (us ++ (rest ++ [last]))) := by
    rw [accepted.scanned, ← split]
    simp only [List.append_assoc]
  have read := Token.scan_slice whole some live rfl rfl
  rw [← @String.toList_ofList (Text.slice _ _ _)] at read
  have parsed := parseProgram_of_forms read rfl (live_moveAll live) (forms.alone _ rfl)
  exact ⟨_, _, _, _, span, by omega, (laid.edges _ (List.head_mem some)).1,
    (laid.edges _ (List.getLast_mem some)).2, parsed⟩

end Accepted

section Encoded

variable {text : String} {lines : LineIndex}

theorem Stmt.exists_fields (s : Stmt Place) (lines : LineIndex) :
    ∃ kind ∈ statementKinds, ∃ fields,
      s.encode lines = .object (nodeFields lines kind s.note.span fields) := by
  cases s <;> exact ⟨_, by decide, _, rfl⟩

theorem Expr.exists_fields (e : Expr Place) (lines : LineIndex) :
    ∃ kind ∈ expressionKinds, ∃ fields,
      e.encode lines = .object (nodeFields lines kind e.note.span fields) := by
  cases e with
  | binary note operator left right =>
    refine ⟨_, ?_, _, rfl⟩
    cases operator.isLogical <;> decide
  | _ => exact ⟨_, by decide, _, rfl⟩

theorem not_expression_of_statement : ∀ kind ∈ statementKinds, kind ∉ expressionKinds := by decide

theorem nodes_nodeFields (kind : String) (span : Span) (fields : Fields) :
    (Value.object (nodeFields lines kind span fields)).nodes =
      [nodeFields lines kind span fields] := rfl

theorem Expr.outline_withNote {ι : Type} {spellings : Bool} (e : Expr ι) (note : ι) :
    (e.withNote note).outline spellings = e.outline spellings := by
  cases e <;> rfl

variable {inner us : List Token} {last next : Token} {body : List (Stmt Place)}
  (accepted : Accepted text inner last body) (inside : us <:+: inner)

include accepted inside

theorem Accepted.cuts {s : Stmt Place} (forms : Forms (.statement s) us next) (kind : String)
    (fields : Fields) : ∃ program statement start stop other,
      (nodeFields lines kind s.note.span fields).Cuts text program statement start stop ∧
        (s.moved start).encode other = .object statement := by
  obtain ⟨start, stop, other, length, span, ordered, starts, stops, parsed⟩ :=
    accepted.parse_slice forms inside
  obtain ⟨single, -, rest, shape⟩ := (s.moved start).exists_fields other
  refine ⟨_, _, start, stop, other, ⟨?_, ?_, ordered, ⟨starts, stops⟩, parsed, ?_⟩, shape⟩
  · rw [span]
    rfl
  · rw [span]
    rfl
  · rw [← shape]
    rfl

theorem Accepted.alone_statement (lines : LineIndex) {s : Stmt Place}
    (forms : Forms (.statement s) us next) : ∀ node ∈ (s.encode lines).nodes, node.Alone text := by
  obtain ⟨kind, isKind, fields, shape⟩ := s.exists_fields lines
  rw [shape, nodes_nodeFields, List.forall_mem_singleton]
  constructor
  · intro _
    obtain ⟨program, statement, start, stop, other, cuts, encoded⟩ :=
      accepted.cuts inside forms kind fields
    refine ⟨program, statement, start, stop, cuts, ?_⟩
    rw [← shape, ← encoded]
    exact Stmt.unplaced_mapNote (fun place => Option.isSome_map) s
  · exact fun isExpression => absurd isExpression (not_expression_of_statement kind isKind)

theorem Accepted.alone_expression (lines : LineIndex) {e : Expr Place} (spelled : e.SpelledBy us) :
    ∀ node ∈ (e.encode lines).nodes, node.Alone text := by
  obtain ⟨kind, isKind, fields, shape⟩ := e.exists_fields lines
  rw [shape, nodes_nodeFields, List.forall_mem_singleton]
  constructor
  · exact fun isStatement => absurd isKind (not_expression_of_statement kind isStatement)
  · intro _
    have forms := spelled.forms accepted.finish
    obtain ⟨program, statement, start, stop, other, cuts, encoded⟩ :=
      accepted.cuts inside forms kind fields
    rw [show Stmt.note _ = Place.over us from rfl, ← spelled.span] at cuts
    obtain rfl := Value.object.inj encoded
    refine ⟨program, _, start, stop, _, cuts, rfl, rfl, ?_⟩
    rw [← shape, Expr.trim_encode, Expr.trim_encode, Expr.outline_mapNote, Expr.outline_withNote]

end Encoded

section Nodes

variable {text : String} {lines : LineIndex} {kind : String} {place : Place} {value : Value}
  {fields rest : Fields}

theorem mem_nodes_of_asNode? {node : Fields} (isNode : value.asNode? = some node) :
    node ∈ value.nodes := by
  obtain ⟨rfl, kinded⟩ := Value.eq_object_of_asNode? isNode
  simp [Value.nodes, isNode]

theorem flat_null : Flat .null := ⟨rfl, fun _ => trivial⟩

theorem Flat.divides (flat : Flat value) : value.Divides text := by
  constructor
  · simp [flat.1]
  · exact flat.2 _

theorem divides_list {α : Type} {list : List α} {encode : α → Value}
    (members : ∀ a ∈ list, (encode a).Divides text) :
    (Value.list (list.map encode)).Divides text := by
  refine ⟨fun inner member => ?_, Value.eachNode_list fun a among => (members a among).each⟩
  obtain ⟨item, held, isNode⟩ := List.mem_filterMap.1 member
  obtain ⟨a, among, rfl⟩ := List.mem_map.1 held
  exact (members a among).own inner (mem_nodes_of_asNode? isNode)

structure Divided (text : String) (fields : Fields) : Prop where
  own : ∀ entry ∈ fields, ∀ inner ∈ entry.2.nodes, inner.Alone text
  inside : EachField (Fields.Divides text) fields

theorem Divided.nil : Divided text [] := ⟨by simp, trivial⟩

theorem Divided.cons {name : String} (first : value.Divides text) (others : Divided text rest) :
    Divided text ((name, value) :: rest) :=
  ⟨List.forall_mem_cons.2 ⟨first.own, others.own⟩, first.each, others.inside⟩

theorem frame_nodes (lines : LineIndex) (kind : String) (span : Span) :
    ∀ entry ∈ nodeFields lines kind span [], entry.2.nodes = [] := by
  simp [nodeFields, Value.nodes, textValue, natValue, pointValue, Value.asNode?, Fields.isNode,
    Fields.contains, Fields.get?_cons]

theorem extra_nodes {entries : Fields} (plain : entries.isNode = false) :
    ∀ entry ∈ extraFields entries, entry.2.nodes = [] := by
  have none := children_extraFields plain
  simpa [Fields.children, List.flatMap_eq_nil_iff] using none

theorem divides_nodeFields {span : Span} (own : ∀ entry ∈ fields, ∀ inner ∈ entry.2.nodes,
      inner.Alone text ∨ entry.1 = "property" ∧ (nodeFields lines kind span fields).IsDotted ∧
        inner.kind ∉ statementKinds) :
    (nodeFields lines kind span fields).Divides text := by
  intro entry member inner held
  rcases List.mem_append.1 member with frame | among
  · rw [frame_nodes lines kind span entry frame] at held
    exact absurd held List.not_mem_nil
  · exact own entry among inner held

theorem Divided.plainNode (divided : Divided text fields) :
    (plainNode lines kind place fields).EachNode (Fields.Divides text) := by
  refine eachNode_plainNode (divides_nodeFields fun entry member inner held => ?_) divided.inside
  rcases List.mem_append.1 member with own | extra
  · exact .inl (divided.own entry own inner held)
  · rw [extra_nodes (eachField_parens (fun _ => True) place.paren).2 entry extra] at held
    exact absurd held List.not_mem_nil

theorem Flat.literalNode (flat : Flat value) (raw : Option String) :
    (literalNode lines kind place value raw).EachNode (Fields.Divides text) := by
  refine eachNode_literalNode (divides_nodeFields fun entry member inner held => ?_) (flat.2 _)
  rcases List.mem_append.1 member with extra | own
  · have plain := (eachField_spelling (flat.2 fun _ => True) raw place.paren).2
    rw [extra_nodes plain entry extra] at held
    exact absurd held List.not_mem_nil
  · rw [List.mem_singleton.1 own, flat.1] at held
    exact absurd held List.not_mem_nil

/-- The name behind a dot need not be read alone. -/
theorem eachNode_dotted {object : Value} (first : object.Divides text) (span : Span)
    (name : String) : (plainNode lines "MemberExpression" place [("object", object),
      ("computed", .bool false), ("property", (Expr.name ⟨span, none⟩ name).encode lines)]).EachNode
      (Fields.Divides text) := by
  have property : ((Expr.name ⟨span, none⟩ name).encode lines).EachNode (Fields.Divides text) :=
    Divided.plainNode (.cons (flat_textValue name).divides .nil)
  refine eachNode_plainNode (divides_nodeFields fun entry member inner held => ?_)
    ⟨first.each, trivial, property, trivial⟩
  rcases List.mem_append.1 member with own | extra
  · simp only [List.mem_cons, List.not_mem_nil, or_false] at own
    rcases own with rfl | rfl | rfl
    · exact .inl (first.own inner held)
    · exact absurd held List.not_mem_nil
    · obtain rfl := List.mem_singleton.1 held
      exact .inr ⟨rfl, ⟨rfl, rfl⟩, show "Identifier" ∉ statementKinds by decide⟩
  · rw [extra_nodes (eachField_parens (fun _ => True) place.paren).2 entry extra] at held
    exact absurd held List.not_mem_nil

end Nodes

def Phrase.Divides (text : String) (lines : LineIndex) : Phrase → Prop
  | .expr _ e => ∀ note, ((e.withNote note).encode lines).EachNode (Fields.Divides text)
  | .items list | .parts list => ∀ e ∈ list, (e.encode lines).Divides text

theorem infix_append {ts us tokens : List Token} (inside : ts ++ us <:+: tokens) :
    ts <:+: tokens ∧ us <:+: tokens :=
  ⟨(List.prefix_append ts us).isInfix.trans inside, (List.suffix_append ts us).isInfix.trans inside⟩

theorem infix_cons {t : Token} {us tokens : List Token} (inside : t :: us <:+: tokens) :
    us <:+: tokens := (List.suffix_cons t us).isInfix.trans inside

section Phrases

variable {text : String} {inner ts us : List Token} {last : Token} {body : List (Stmt Place)}
  (accepted : Accepted text inner last body) (lines : LineIndex)

include accepted

theorem Accepted.divides_expr {least : Level} {e : Expr Place}
    (derives : Derives (.expr least e) ts) (inside : ts <:+: inner)
    (divides : (Phrase.expr least e).Divides text lines) : (e.encode lines).Divides text := by
  obtain ⟨us, among, spelled⟩ := derives.exists_spelledBy
  constructor
  · exact accepted.alone_expression (among.trans inside) lines spelled
  · have each := divides e.note
    rwa [show e.withNote e.note = e from Expr.withNote_note e] at each

theorem Derives.divides {phrase : Phrase} (derives : Derives phrase ts) (inside : ts <:+: inner) :
    phrase.Divides text lines := by
  induction derives with
  | name => exact fun _ => Divided.plainNode (.cons (flat_textValue _).divides .nil)
  | boolean => exact fun _ => Divided.plainNode (.cons (flat_bool _).divides .nil)
  | null => exact fun _ => Divided.plainNode .nil
  | number => exact fun _ => (flat_number _).literalNode _
  | string => exact fun _ => (flat_textValue _).literalNode _
  | @paren a b ts e _ _ _ ih =>
    intro note
    have again : (e.withNote ⟨e.note.span, some a.start⟩).withNote note = e.withNote note := by
      cases e <;> rfl
    rw [again]
    exact ih (infix_append (infix_cons inside)).1 note
  | array _ _ _ ih =>
    have elements := divides_list (ih (infix_append (infix_cons inside)).1)
    rw [← Expr.encodeElements_some] at elements
    exact fun _ => Divided.plainNode (.cons elements .nil)
  | @dot point word ts object name first _ _ ih =>
    have front := (infix_append inside).1
    have object := accepted.divides_expr lines first front (ih front)
    exact fun _ => eachNode_dotted object _ name
  | bracket object _ index _ first second =>
    obtain ⟨front, behind⟩ := infix_append inside
    have middle := (infix_append (infix_cons behind)).1
    have object := accepted.divides_expr lines object front (first front)
    have property := accepted.divides_expr lines index middle (second middle)
    exact fun _ => Divided.plainNode
      (.cons object (.cons (flat_bool _).divides (.cons property .nil)))
  | call callee _ _ _ first second =>
    obtain ⟨front, behind⟩ := infix_append inside
    have callee := accepted.divides_expr lines callee front (first front)
    have arguments := divides_list (second (infix_append (infix_cons behind)).1)
    rw [← Expr.encodeList_eq_map] at arguments
    exact fun _ => Divided.plainNode (.cons callee (.cons arguments .nil))
  | updated argument _ _ ih =>
    have front := (infix_append inside).1
    have argument := accepted.divides_expr lines argument front (ih front)
    exact fun _ => Divided.plainNode
      (.cons (flat_textValue _).divides (.cons (flat_bool _).divides (.cons argument .nil)))
  | unary _ argument ih | updating _ argument ih =>
    have behind := infix_cons inside
    have argument := accepted.divides_expr lines argument behind (ih behind)
    exact fun _ => Divided.plainNode
      (.cons (flat_textValue _).divides (.cons (flat_bool _).divides (.cons argument .nil)))
  | power left _ right first second | binary _ _ left _ right first second =>
    obtain ⟨front, behind⟩ := infix_append inside
    have left := accepted.divides_expr lines left front (first front)
    have right := accepted.divides_expr lines right (infix_cons behind) (second (infix_cons behind))
    exact fun _ => Divided.plainNode
      (.cons left (.cons (flat_textValue _).divides (.cons right .nil)))
  | conditional test _ consequent _ alternate first second third =>
    obtain ⟨front, behind⟩ := infix_append inside
    obtain ⟨middle, rest⟩ := infix_append (infix_cons behind)
    have test := accepted.divides_expr lines test front (first front)
    have consequent := accepted.divides_expr lines consequent middle (second middle)
    have back := infix_cons rest
    have alternate := accepted.divides_expr lines alternate back (third back)
    exact fun _ => Divided.plainNode (.cons test (.cons consequent (.cons alternate .nil)))
  | assignment left _ _ right first second =>
    obtain ⟨front, behind⟩ := infix_append inside
    have left := accepted.divides_expr lines left front (first front)
    have right := accepted.divides_expr lines right (infix_cons behind) (second (infix_cons behind))
    exact fun _ => Divided.plainNode
      (.cons (flat_textValue _).divides (.cons left (.cons right .nil)))
  | sequence head _ _ first second =>
    obtain ⟨front, behind⟩ := infix_append inside
    have head := accepted.divides_expr lines head front (first front)
    have parts := divides_list (List.forall_mem_cons.2 ⟨head, second behind⟩)
    rw [← Expr.encodeList_eq_map] at parts
    exact fun _ => Divided.plainNode (.cons parts .nil)
  | looser _ ih => exact ih inside
  | noItems | noParts => exact fun e member => absurd member List.not_mem_nil
  | oneItem item ih =>
    exact List.forall_mem_singleton.2 (accepted.divides_expr lines item inside (ih inside))
  | moreItems item _ _ first rest =>
    obtain ⟨front, behind⟩ := infix_append inside
    exact List.forall_mem_cons.2
      ⟨accepted.divides_expr lines item front (first front), rest (infix_cons behind)⟩
  | moreParts _ part _ first rest =>
    obtain ⟨front, behind⟩ := infix_append (infix_cons inside)
    exact List.forall_mem_cons.2 ⟨accepted.divides_expr lines part front (first front), rest behind⟩

theorem Derives.value_divides {least : Level} {e : Expr Place}
    (derives : Derives (.expr least e) ts) (inside : ts <:+: inner) : (e.encode lines).Divides text :=
  accepted.divides_expr lines derives inside (derives.divides accepted lines inside)

theorem Named.divides {e : Expr Place} {t : Token} (named : Named e t) (inside : [t] <:+: inner) :
    (e.encode lines).Divides text := by
  cases named with
  | intro word free =>
    exact (Derives.name word free).value_divides accepted lines inside

theorem Parameters.divides {list : List (Expr Place)} (parameters : Parameters list ts)
    (inside : ts <:+: inner) : ∀ e ∈ list, (e.encode lines).Divides text := by
  induction parameters with
  | none => simp
  | one name => exact List.forall_mem_singleton.2 (name.divides accepted lines inside)
  | @more _ _ t _ _ name _ _ ih =>
    have behind := infix_cons (infix_cons inside)
    have front : [t] <:+: inner := (@infix_append [t] _ _ inside).1
    exact List.forall_mem_cons.2 ⟨name.divides accepted lines front, ih behind⟩

omit accepted in
theorem alone_declarator (d : Declarator Place) :
    ∀ node ∈ (d.encode lines).nodes, node.Alone text := by
  have shape : (d.encode lines).nodes = [nodeFields lines "VariableDeclarator" d.note.span _] := rfl
  rw [shape, List.forall_mem_singleton]
  constructor
  · intro isKind
    exact absurd (show "VariableDeclarator" ∈ statementKinds from isKind) (by decide)
  · intro isKind
    exact absurd (show "VariableDeclarator" ∈ expressionKinds from isKind) (by decide)

theorem Declares.divides {d : Declarator Place} {next : Token} (declares : Declares d ts next)
    (inside : ts <:+: inner) : (d.encode lines).Divides text := by
  refine ⟨alone_declarator lines d, ?_⟩
  cases declares with
  | plain name =>
    have name := name.divides accepted lines inside
    exact Divided.plainNode (.cons name (.cons flat_null.divides .nil))
  | @initial _ _ t _ _ _ name _ value _ =>
    have behind := infix_cons (infix_cons inside)
    have front : [t] <:+: inner := (@infix_append [t] _ _ inside).1
    have value := value.value_divides accepted lines behind
    exact Divided.plainNode (.cons (name.divides accepted lines front) (.cons value .nil))

theorem DeclaresAll.divides {list : List (Declarator Place)} {next : Token}
    (declares : DeclaresAll list ts next) (inside : ts <:+: inner) :
    ∀ d ∈ list, (d.encode lines).Divides text := by
  induction declares with
  | last one => exact List.forall_mem_singleton.2 (one.divides accepted lines inside)
  | more one _ _ ih =>
    obtain ⟨front, behind⟩ := infix_append inside
    exact List.forall_mem_cons.2 ⟨one.divides accepted lines front, ih (infix_cons behind)⟩

theorem Heads.divides {head : FunctionHead Place} (heads : Heads head ts) (inside : ts <:+: inner) :
    (head.name.encode lines).Divides text ∧
      ∀ e ∈ head.parameters, (e.encode lines).Divides text := by
  cases heads with
  | @intro f a b n front star ts _ _ _ _ _ _ _ named _ list _ =>
    have behind := (infix_append (infix_cons (infix_append inside).2)).2
    have name : [n] <:+: inner := (@infix_append [n] _ _ behind).1
    have parameters := (infix_append (infix_cons (infix_cons behind))).1
    exact ⟨named.divides accepted lines name, list.divides accepted lines parameters⟩

def Passage.Divides (text : String) (lines : LineIndex) : Passage → Prop
  | .statement s => (s.encode lines).EachNode (Fields.Divides text)
  | .block place list =>
    (blockNode lines place (Stmt.encodeList lines list)).EachNode (Fields.Divides text)
  | .body list => ∀ s ∈ list, (s.encode lines).Divides text

theorem Forms.divides {passage : Passage} {next : Token} (forms : Forms passage ts next)
    (inside : ts <:+: inner) : passage.Divides text lines := by
  induction forms with
  | declaration _ declarators _ =>
    have middle := (infix_append (infix_cons inside)).1
    have list := divides_list (declarators.divides accepted lines middle)
    exact Divided.plainNode (.cons list (.cons (flat_textValue _).divides .nil))
  | function front block ih =>
    obtain ⟨before, behind⟩ := infix_append inside
    obtain ⟨name, parameters⟩ := front.divides accepted lines before
    have list := divides_list parameters
    rw [← Expr.encodeList_eq_map] at list
    have own := accepted.alone_statement behind lines (.block block)
    exact Divided.plainNode (.cons name (.cons (flat_bool _).divides (.cons (flat_bool _).divides
      (.cons list (.cons ⟨own, ih behind⟩ .nil)))))
  | block _ ih => exact ih inside
  | leave => exact Divided.plainNode (.cons flat_null.divides .nil)
  | ret _ argument _ _ _ =>
    have middle := (infix_append (infix_cons inside)).1
    have argument := argument.value_divides accepted lines middle
    exact Divided.plainNode (.cons argument .nil)
  | expression e _ _ =>
    have front := (infix_append inside).1
    have e := e.value_divides accepted lines front
    exact Divided.plainNode (.cons e .nil)
  | branch _ _ test _ positive _ ih =>
    obtain ⟨front, behind⟩ := infix_append (infix_cons (infix_cons inside))
    have rest := infix_cons behind
    have test := test.value_divides accepted lines front
    have own := accepted.alone_statement rest lines positive
    exact Divided.plainNode (.cons test (.cons ⟨own, ih rest⟩ (.cons flat_null.divides .nil)))
  | choice _ _ test _ positive _ negative first second =>
    obtain ⟨front, behind⟩ := infix_append (infix_cons (infix_cons inside))
    obtain ⟨middle, rest⟩ := infix_append (infix_cons behind)
    have test := test.value_divides accepted lines front
    have consequent := accepted.alone_statement middle lines positive
    have alternate := accepted.alone_statement (infix_cons rest) lines negative
    exact Divided.plainNode (.cons test (.cons ⟨consequent, first middle⟩
      (.cons ⟨alternate, second (infix_cons rest)⟩ .nil)))
  | empty => exact Divided.plainNode .nil
  | braces _ _ _ ih =>
    have list := divides_list (ih (infix_append (infix_cons inside)).1)
    rw [← Stmt.encodeList_eq_map] at list
    have none : Flat (.list []) := ⟨rfl, fun _ => trivial⟩
    exact Divided.plainNode (.cons list (.cons none.divides .nil))
  | done => exact fun s member => absurd member List.not_mem_nil
  | more first _ one rest =>
    obtain ⟨front, behind⟩ := infix_append inside
    have own := accepted.alone_statement front lines first
    exact List.forall_mem_cons.2 ⟨⟨own, one front⟩, rest behind⟩

end Phrases

theorem Accepted.divides_program {text : String} {inner : List Token} {last : Token}
    {body : List (Stmt Place)} (accepted : Accepted text inner last body) (lines : LineIndex)
    (length : Nat) : (Value.object (programFields lines length body)).EachNode
      (Fields.Divides text) := by
  have list := divides_list (accepted.forms.divides accepted lines List.infix_rfl)
  rw [← Stmt.encodeList_eq_map] at list
  have nothing : Flat (.list []) := ⟨rfl, fun _ => trivial⟩
  have node : (plainNode lines "Program" ⟨⟨0, length⟩, none⟩ [("sourceType", textValue "script"),
      ("interpreter", .null), ("body", .list (Stmt.encodeList lines body)),
      ("directives", .list [])]).EachNode (Fields.Divides text) :=
    Divided.plainNode (.cons (flat_textValue _).divides (.cons flat_null.divides
      (.cons list (.cons nothing.divides .nil))))
  exact node

end Script

theorem Fields.Divides.step {text : String} {node inner : Fields} (divides : node.Divides text)
    {step : Step} (leads : (step.value? node).bind Value.asNode? = some inner) :
    inner.Alone text ∨ step.field = "property" ∧ node.IsDotted ∧ inner.kind ∉ statementKinds := by
  obtain ⟨value, -, isNode⟩ := Option.bind_eq_some_iff.1 leads
  have kinded := (Value.eq_object_of_asNode? isNode).2
  have asNode : (Value.object inner).asNode? = some inner := by simp [Value.asNode?, kinded]
  rcases Step.get?_of_leads leads with ⟨-, found⟩ | ⟨i, items, -, found, place⟩
  · exact divides _ (Fields.mem_of_get? found) inner (Script.mem_nodes_of_asNode? asNode)
  · exact divides _ (Fields.mem_of_get? found) inner
      (List.mem_filterMap.2 ⟨_, List.mem_of_getElem? place, asNode⟩)

def Path.IsDotName (tree : Fields) (path : Path) : Prop :=
  ∃ (front : Path) (step : Step) (parent : Fields), path = front ++ [step] ∧
    step.field = "property" ∧ front.resolve tree = some parent ∧ parent.IsDotted

/-- The text of a node is the node. In the tree of an accepted text, the text from the start to the
end of a statement is parsed into a program of that statement alone, with all its fields but places;
and the text of an expression, but for the name behind a dot, into a program of one expression
statement with that expression, parentheses apart. -/
theorem parse_text_of_node {text : String} {tree : Fields} (parsed : parseProgram text = .ok tree)
    {path : Path} {node : Fields} (there : path.resolve tree = some node) :
    (node.kind ∈ statementKinds → node.AsStatement text) ∧
      (node.kind ∈ expressionKinds → ¬ path.IsDotName tree → node.AsExpression text) := by
  obtain ⟨inner, last, body, accepted, rfl⟩ := Script.exists_of_parseProgram parsed
  have divides := accepted.divides_program (Script.Source.ofString text).lines
    (Script.Source.ofString text).length
  rcases List.eq_nil_or_concat' path with rfl | ⟨front, step, rfl⟩
  · -- The root is a program.
    cases there
    constructor
    · intro isKind
      exact absurd (show "Program" ∈ statementKinds from isKind) (by decide)
    · intro isKind
      exact absurd (show "Program" ∈ expressionKinds from isKind) (by decide)
  · rw [Path.resolve_append] at there
    obtain ⟨parent, above, leads⟩ := Option.bind_eq_some_iff.1 there
    have family : parent.Divides text := Value.EachField.resolve (divides.1 rfl) divides.2 above
    rcases family.step leads with alone | ⟨property, dotted, other⟩
    · exact ⟨alone.statement, fun isKind _ => alone.expression isKind⟩
    · constructor
      · exact fun isKind => absurd isKind other
      · exact fun _ free => absurd ⟨front, step, parent, rfl, property, above, dotted⟩ free

theorem parse_text_of_node_argument :
    let text := "if (a) f(b.in, (1in\n'\u00e9' /* ) */ + c))\n++d"
    let path : Path := [⟨"body", some 0⟩, ⟨"consequent", none⟩, ⟨"expression", none⟩,
      ⟨"arguments", some 1⟩]
    ∃ tree node, parseProgram text = .ok tree ∧ path.resolve tree = some node ∧
      node.kind = "BinaryExpression" ∧ ¬ path.IsDotName tree ∧ node.AsExpression text := by
  intro text path
  have found : ((parseProgram text).toOption.bind path.resolve).map Fields.kind =
      some "BinaryExpression" := by decide +kernel
  obtain ⟨node, leads, kind⟩ := Option.map_eq_some_iff.1 found
  obtain ⟨tree, read, there⟩ := Option.bind_eq_some_iff.1 leads
  have parsed : parseProgram text = .ok tree := by
    cases result : parseProgram text with
    | error fault => simp [result, Except.toOption] at read
    | ok other => simpa [result, Except.toOption] using read
  have free : ¬ path.IsDotName tree := by
    rintro ⟨front, step, parent, split, property, -⟩
    have last : some (⟨"arguments", some 1⟩ : Step) = some step :=
      (congrArg List.getLast? split).trans List.getLast?_concat
    rw [← Option.some.inj last] at property
    exact absurd property (by decide)
  exact ⟨tree, node, parsed, there, kind, free,
    (parse_text_of_node parsed there).2 (by rw [kind]; decide) free⟩

end Arborist

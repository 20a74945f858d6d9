import Mathlib
import Arborist.Proofs.Script.Normal
import Arborist.Proofs.Script.Registered
import Arborist.Proofs.Script.RoundTrip

/-!
Parsing what was edited and printed. After any edits that the built-in inputs can send, with names
that are names, the tree is compiled, and the code is parsed into the edited tree in its normal form.
The parentheses of the source play no part: the writer sets its own.
-/

namespace Arborist.Script

open Token (Kind)
open Value (Allowance VariesFields AgreesFields)

variable {ι : Type}

section Statements

theorem normal_agrees_name {e : Expr ι} (name : PrintableName e) :
    (e.outline false).normal.Agrees (e.reread.outline false) := by
  cases name with
  | intro spelled free => exact normal_agrees_reread (.name spelled free)

theorem normal_agrees_option {entry : Option (Expr ι)} (printable : ∀ e ∈ entry, PrintableWith Shown e) :
    (Expr.outlineOption false entry).normal.Agrees
      (Expr.outlineOption false (entry.map Expr.reread)) := by
  cases entry with
  | none => rfl
  | some e => exact normal_agrees_reread (printable e rfl)

theorem normal_agrees_block {list : List (Stmt ι)}
    (members : ∀ s ∈ list, (s.outline false).normal.Agrees (s.reread.outline false)) :
    (blockOutline (Stmt.outlineList false list)).normal.Agrees
      (blockOutline (Stmt.outlineList false (Stmt.rereadList list))) := by
  rw [Stmt.rereadList_eq_map, Stmt.outlineList_eq_map, Stmt.outlineList_eq_map, List.map_map]
  exact agrees_normal_node (by decide) (by decide)
    (.cons (agrees_normal_list members) (.cons ⟨[], rfl, rfl⟩ rfl))

/-- A written statement in normal form agrees with what its text is read as. -/
theorem normal_agrees_rereadStmt {s : Stmt ι} (printable : PrintableStmtWith Shown s) :
    (s.outline false).normal.Agrees (s.reread.outline false) := by
  induction printable with
  | declaration _ names values =>
    rw [Stmt.reread, Stmt.outline, Stmt.outline, List.map_map]
    refine agrees_normal_node (by decide) (by decide)
      (.cons (agrees_normal_list fun d member => ?_) (.cons rfl rfl))
    exact agrees_normal_node (by decide) (by decide)
      (.cons (normal_agrees_name (names d member)) (.cons (normal_agrees_option (values d member)) rfl))
  | function name names _ ih =>
    rw [Stmt.reread, Stmt.outline, Stmt.outline, FunctionHead.reread, Expr.outlineList_eq_map,
      Expr.outlineList_eq_map, List.map_map]
    exact agrees_normal_node (by decide) (by decide) (.cons (normal_agrees_name name)
      (.cons rfl (.cons rfl (.cons
        (agrees_normal_list fun e member => normal_agrees_name (names e member))
        (.cons (normal_agrees_block ih) rfl)))))
  | block _ ih => exact normal_agrees_block ih
  | ret inner =>
    exact agrees_normal_node (by decide) (by decide) (.cons (normal_agrees_option inner) rfl)
  | expression inner =>
    exact agrees_normal_node (by decide) (by decide) (.cons (normal_agrees_reread inner) rfl)
  | branch condition _ ih =>
    exact agrees_normal_node (by decide) (by decide)
      (.cons (normal_agrees_reread condition) (.cons ih (.cons rfl rfl)))
  | choice condition _ _ _ positive negative =>
    exact agrees_normal_node (by decide) (by decide)
      (.cons (normal_agrees_reread condition) (.cons positive (.cons negative rfl)))
  | empty => exact agrees_normal_node (by decide) (by decide) rfl

theorem normal_agrees_program {body : List (Stmt ι)}
    (printable : ∀ s ∈ body, PrintableStmtWith Shown s) :
    (programOutline false body).normal.Agrees (programOutline false (body.map Stmt.reread)) := by
  unfold programOutline
  rw [Stmt.outlineList_eq_map, Stmt.outlineList_eq_map, List.map_map]
  exact agrees_normal_node (by decide) (by decide) (.cons rfl (.cons rfl
    (.cons (agrees_normal_list fun s member => normal_agrees_rereadStmt (printable s member))
      (.cons ⟨[], rfl, rfl⟩ rfl))))

end Statements

section Numbers

theorem readNumber_of_spelled {value : Number} {raw : String}
    (spelled : (Kind.number value raw).Spelled) : readNumber raw = value := by
  have scanned : Token.scanNumber raw.toList = some (value, raw.toList.length) := spelled
  simp [readNumber, scanned]

theorem rereadNumber_of_spelled {value : Number} {raw : String}
    (spelled : (Kind.number value raw).Spelled) :
    rereadNumber raw = .number () value (some raw) := by
  obtain ⟨c, cs, chars, head⟩ := number_head spelled
  have unsigned : Text.beginsWith raw "-" = false := by
    rw [← Bool.not_eq_true, beginsWith_iff_head (by decide : "-".toList = ['-']), chars]
    rintro ⟨⟩
    exact absurd head (by decide)
  simp [rereadNumber, unsigned, readNumber_of_spelled spelled]

theorem rereadNumber_signed {value : Number} {raw : String}
    (spelled : (Kind.number value raw).Spelled) :
    rereadNumber ("-" ++ raw) = .unary () .minus (.number () value (some raw)) := by
  have signed : Text.beginsWith ("-" ++ raw) "-" = true := by simp [Text.beginsWith]
  have rest : withoutSign ("-" ++ raw) = raw := by simp [withoutSign]
  simp [rereadNumber, signed, rest, readNumber_of_spelled spelled]

theorem exists_spelled_display (negative : Bool) {m : Nat} {e : Int} (canonical : Canonical m e) :
    ∃ raw, (Kind.number (.finite false m e canonical) raw).Spelled ∧
      Number.display (.finite negative m e canonical) =
        if (Number.finite negative m e canonical).isNegative then "-" ++ raw else raw := by
  obtain ⟨n, valid, shown, reads⟩ := Number.display_text negative canonical
  refine ⟨String.ofList n.text, ?_, ?_⟩
  · have scanned := Numeral.scanNumber_text valid
    rw [reads false] at scanned
    simpa [Kind.Spelled] using scanned
  · apply String.toList_inj.1
    rw [shown, Number.isNegative_finite]
    by_cases signed : negative = true ∧ m ≠ 0
    · simp [signed]
    · have positive : (negative && m != 0) = false := by simpa using signed
      rw [if_neg signed, positive]
      simp

theorem shown_finite {n : Number} (finite : n.isFinite = true) :
    Numeric n none ∧ Shown n none := by
  cases n with
  | nan | infinity => simp [Number.isFinite] at finite
  | finite negative m e canonical =>
    obtain ⟨raw, spelled, display⟩ := exists_spelled_display negative canonical
    unfold Numeric Shown
    rw [Option.getD_none, display, normal_number]
    cases sign : (Number.finite negative m e canonical).isNegative with
    | true =>
      simp only [if_true, rereadNumber_signed spelled]
      exact ⟨⟨raw, _, spelled, .inr rfl⟩,
        agrees_outlineNode (.cons rfl (.cons rfl (.cons
          (agrees_numbers (Number.agrees_self (by simp [Number.abs])) none _) rfl)))⟩
    | false =>
      simp only [Bool.false_eq_true, if_false, rereadNumber_of_spelled spelled]
      refine ⟨⟨raw, _, spelled, .inl rfl⟩, agrees_numbers ?_ none _⟩
      have same := Number.agrees_unsigned negative canonical
      rw [← Number.isNegative_finite negative canonical, sign] at same
      exact same

/-- A number that agrees with the one its spelling was read from keeps that spelling. -/
theorem shown_literal {value next : Number} {raw : Option String} (literal : Literal value raw)
    (same : value.agrees next = true) : Numeric next raw ∧ Shown next raw := by
  obtain ⟨spelling, rfl, spelled, -⟩ := literal
  have positive : next.isNegative = false := by
    rw [← Number.isNegative_eq_of_agrees same]
    exact Token.isNegative_of_scanNumber spelled
  refine ⟨⟨spelling, value, spelled, .inl rfl⟩, ?_⟩
  unfold Shown
  rw [Option.getD_some, normal_number, positive, rereadNumber_of_spelled spelled]
  exact agrees_numbers (Number.agrees_symm same) _ _

end Numbers

/-- The text is, from its first character to its last, one word. -/
def IsWord (text : String) : Prop :=
  ∃ first last, Token.scan text.toList = .ok [first, last] ∧ first.kind = .word text

theorem IsWord.spelled {text : String} (word : IsWord text) : (Kind.word text).Spelled := by
  obtain ⟨first, last, scanned, kind⟩ := word
  obtain ⟨inner, finish, split, -, spelled⟩ := Token.spelled_of_scanFrom scanned
  have shape : [first] ++ [last] = inner ++ [finish] := split
  obtain ⟨same, -⟩ := List.append_inj' shape rfl
  rw [← kind]
  exact spelled first (same ▸ List.mem_singleton.2 rfl)

/-- What the built-in inputs send for a field of a node of a kind. Text that is to become a name has
to be a name. -/
inductive Sends : (kind field : String) → Value → Prop where
  | kind {word : String} (listed : word ∈ InputKind.declarationKinds) :
      Sends "VariableDeclaration" "kind" (.string word)
  | operator {word : String} (listed : word ∈ InputKind.operators) :
      Sends "BinaryExpression" "operator" (.string word)
  | async (flag : Bool) : Sends "FunctionDeclaration" "async" (.bool flag)
  | generator (flag : Bool) : Sends "FunctionDeclaration" "generator" (.bool flag)
  | number {n : Number} (finite : n.isFinite = true) : Sends "NumericLiteral" "value" (.number n)
  | name {text : String} (word : IsWord text) (free : isReserved text = false) :
      Sends "Identifier" "name" (.string text)

/-- The second tree is the first after finitely many edits that inputs can send, each at a node of
the tree as it is by then. -/
inductive Edits (root : Fields) : Fields → Prop where
  | none : Edits root root
  | more {tree changed node : Fields} {target : Target} {value : Value} (before : Edits root tree)
      (there : target.path.resolve tree = some node) (sends : Sends node.kind target.field value)
      (written : target.write? value tree = some changed) : Edits root changed

def valueless : Kind → Bool
  | .number value _ => value = .nan
  | _ => false

abbrev Valued (text : String) : Prop := Lacks valueless text

def sending : Allowance := fun kind field _ other => Sends kind field other

theorem Sends.input {kind field : String} {value : Value} (sends : Sends kind field value) :
    ∃ input, Registry.builtinInput? kind field = some input ∧ input.Takes value := by
  cases sends with
  | kind listed => exact ⟨_, rfl, _, listed, rfl⟩
  | operator listed => exact ⟨_, rfl, _, listed, rfl⟩
  | async flag => exact ⟨_, rfl, flag, rfl⟩
  | generator flag => exact ⟨_, rfl, flag, rfl⟩
  | number finite => exact ⟨_, rfl, _, rfl⟩
  | name word free => exact ⟨_, rfl, _, rfl⟩

theorem Sends.name_of {kind field text : String} (sends : Sends kind field (.string text))
    (identifier : kind = "Identifier") : (Kind.word text).Spelled ∧ isReserved text = false := by
  cases sends with
  | name word free => exact ⟨word.spelled, free⟩
  | kind | operator => exact absurd identifier (by decide)

theorem Sends.number_of {kind field : String} {n : Number} (sends : Sends kind field (.number n)) :
    n.isFinite = true := by
  cases sends with
  | number finite => exact finite

theorem registered_sending : sending.Registered := ⟨Sends.input⟩

theorem readable_sending {numbers : Number → Option String → Prop}
    (kept : ∀ {value next raw}, Literal value raw → value.agrees next = true → numbers next raw)
    (fresh : ∀ {next}, next.isFinite = true → numbers next none) : Readable numbers sending where
  name written := written.name_of rfl
  number {value next raw} literal written := by
    split
    · rename_i same
      exact kept literal same
    · rename_i apart
      rcases written with same | sends
      · cases same
        exact absurd literal.agrees apart
      · exact fresh (Sends.number_of sends)

theorem Edits.varies {root tree : Fields} (complete : (Value.object root).EachNode Fields.Complete)
    (isNode : root.isNode = true) (edits : Edits root tree) :
    VariesFields sending root.kind root tree := by
  induction edits with
  | none => exact Value.variesFields_refl root
  | more before there sends written ih =>
    obtain ⟨input, found, -⟩ := sends.input
    exact variesFields_write registered_sending.flat complete isNode ih there found
      (fun _ => sends) written

theorem Accepted.stable_of_valued {text : String} {inner : List Token} {last : Token}
    {body : List (Stmt Place)} (accepted : Accepted text inner last body) (valued : Valued text) :
    ∀ s ∈ body, s.Stable Literal := by
  refine accepted.forms.stable fun t member => ?_
  have spelled := accepted.spelled t member
  refine ⟨spelled, fun value raw kind => ⟨raw, rfl, kind ▸ spelled, ?_⟩⟩
  have held := valued _ accepted.scanned t (List.mem_append_left _ member)
  simpa [kind, valueless] using held

/-- An edited tree of an accepted text without valueless numbers is compiled, and the code is parsed
into its normal form: all fields but positions and notes agree. -/
theorem parse_compile_edited {text : String} {tree edited : Fields}
    (parsed : parseProgram text = .ok tree) (valued : Valued text) (edits : Edits tree edited)
    (width : Nat) :
    ∃ code again, compile width edited = .ok code ∧ parseProgram code = .ok again ∧
      ((Value.object edited).trim false).normal.Agrees ((Value.object again).trim false) := by
  obtain ⟨inner, last, body, accepted, rfl⟩ := exists_of_parseProgram parsed
  have stable := accepted.stable_of_valued valued
  have varies := edits.varies (complete_program ..) rfl
  obtain ⟨trees, decoded, changed, outline⟩ := decode_program registered_sending
    (fun s member => (stable s member).printable) ⟨edited, rfl, varies⟩
  have same := Stmt.editedList_iff.mpr changed
  have printable : ∀ s ∈ trees, PrintableStmt s :=
    forall_of_editedStmts same fun s member _ => printableStmt_of_edited
      (readable_sending (fun literal same => (shown_literal literal same).1)
        fun finite => (shown_finite finite).1)
      (stable s member).printable
  have shown : ∀ s ∈ trees, PrintableStmtWith Shown s :=
    forall_of_editedStmts same fun s member _ => printableStmt_of_edited
      (readable_sending (fun literal same => (shown_literal literal same).2)
        fun finite => (shown_finite finite).2)
      (stable s member).printable
  obtain ⟨front, finish, again, reads⟩ := readsAs printable width
  refine ⟨_, _, compile_of_decode decoded width, reads.parsed, ?_⟩
  rw [outline, trim_program, ← programOutline_bare again, reads.same]
  exact normal_agrees_program shown

/-- Two edits of `f(2 ** b)`: the base becomes a negative number and the operator a comma. -/
theorem parse_compile_edited_power :
    let first : Target :=
      ⟨[⟨"body", some 0⟩, ⟨"expression", none⟩, ⟨"arguments", some 0⟩, ⟨"left", none⟩], "value"⟩
    let second : Target := ⟨[⟨"body", some 0⟩, ⟨"expression", none⟩, ⟨"arguments", some 0⟩], "operator"⟩
    ∃ tree changed edited, parseProgram "f(2 ** b)" = .ok tree ∧ Valued "f(2 ** b)" ∧
      first.write? (.number .minusOne) tree = some changed ∧
      second.write? (.string ",") changed = some edited ∧ Edits tree edited ∧
      ∃ code again, compile 2 edited = .ok code ∧ parseProgram code = .ok again ∧
        ((Value.object edited).trim false).normal.Agrees ((Value.object again).trim false) := by
  intro first second
  have check : (parseProgram "f(2 ** b)").toOption.any (fun tree =>
      (first.path.resolve tree).any (·.kind == "NumericLiteral") &&
      (first.write? (.number .minusOne) tree).any fun changed =>
        (second.path.resolve changed).any (·.kind == "BinaryExpression") &&
        (second.write? (.string ",") changed).isSome) = true := by decide +kernel
  simp only [Option.any_eq_true, Bool.and_eq_true, beq_iff_eq] at check
  obtain ⟨tree, parsed, ⟨literal, atLiteral, isLiteral⟩, changed, written, ⟨power, atPower, isPower⟩,
    some⟩ := check
  obtain ⟨edited, writtenAgain⟩ := Option.isSome_iff_exists.1 some
  have parsed : parseProgram "f(2 ** b)" = .ok tree := by
    cases result : parseProgram "f(2 ** b)" with
    | error fault => simp [result, Except.toOption] at parsed
    | ok found => simpa [result, Except.toOption] using parsed
  have valued : Valued "f(2 ** b)" := by decide +kernel
  have edits : Edits tree edited :=
    .more (.more .none atLiteral (isLiteral ▸ .number (by decide +kernel)) written) atPower
      (isPower ▸ .operator (by decide)) writtenAgain
  exact ⟨tree, changed, edited, parsed, valued, written, writtenAgain, edits,
    parse_compile_edited parsed valued edits 2⟩

end Arborist.Script

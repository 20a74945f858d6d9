import Mathlib
import Arborist.Proofs.Script.Content
import Arborist.Proofs.Script.Registered
import Arborist.Proofs.Script.Quoted

/-!
What number literals mean. A decimal literal denotes its digits shifted by its exponent, a hexadecimal
one its digits by their places, and the token has the nearest number. Only hexadecimal literals of
more than 64 bits are left without a number. All others are written as they were spelled.
-/

namespace Arborist

namespace Token

/-- The number that the text of a literal denotes. -/
inductive Denotes : List Char → ℚ → Prop where
  | decimal {n : Numeral} (valid : n.Valid) : Denotes n.text n.value.value
  | hexadecimal {mark : Char} {digits : List Char} (marked : mark = 'x' ∨ mark = 'X')
      (hex : digits.all isHexDigit = true) (some : digits ≠ []) :
      Denotes ('0' :: mark :: digits) (Nat.ofDigits 16 (digits.map hexDigitValue).reverse : Nat)

theorem hexValue_eq (digits : List Char) :
    hexValue digits = Nat.ofDigits 16 (digits.map hexDigitValue).reverse := by
  rw [Nat.ofDigits_eq_foldr, List.foldr_reverse, List.foldl_map, hexValue]
  congr 1
  funext n c
  exact Nat.add_comm _ _

theorem hexDigits_marked {mark : Char} (marked : mark = 'x' ∨ mark = 'X') {digits : List Char}
    (hex : digits.all isHexDigit = true) : hexDigits ('0' :: mark :: digits) = digits := by
  have taken : digits.takeWhile isHexDigit = digits :=
    List.takeWhile_eq_self_iff.2 (List.all_eq_true.1 hex)
  rcases marked with rfl | rfl <;> exact taken

/-- A numeral is never hexadecimal, so a text denotes one number. -/
theorem Denotes.unique {cs : List Char} {x y : ℚ} (first : Denotes cs x) (second : Denotes cs y) :
    x = y := by
  have apart {n : Numeral} (valid : n.Valid) {mark : Char} (marked : mark = 'x' ∨ mark = 'X')
      {digits : List Char} (same : n.text = '0' :: mark :: digits) : False := by
    have inside : mark ∈ n.text := by simp [same]
    rcases marked with rfl | rfl
    · exact ne_of_numeral valid (by decide) (by decide) 'x' inside rfl
    · exact ne_of_numeral valid (by decide) (by decide) 'X' inside rfl
  cases first with
  | @decimal n valid =>
    generalize text : n.text = cs at second
    cases second with
    | @decimal k other =>
      have read := Numeral.scan_text_nil valid
      rw [text, Numeral.scan_text_nil other] at read
      simp only [Option.some.injEq, Prod.mk.injEq, and_true] at read
      rw [read]
    | hexadecimal marked _ _ => exact (apart valid marked text).elim
  | hexadecimal marked hex some =>
    generalize text : '0' :: _ :: _ = cs at second
    cases second with
    | decimal valid => exact (apart valid marked text.symm).elim
    | hexadecimal _ _ _ =>
      obtain ⟨-, -, rfl⟩ := text
      rfl

/-- What a scanned number denotes is at least 2^64 and has no value if it is wide, and otherwise its
value is the nearest number. -/
theorem denotes_of_spelled {value : Number} {raw : String} (spelled : (Kind.number value raw).Spelled) :
    ∃ x, Denotes raw.toList x ∧
      if (Kind.number value raw).isWide then value = .nan ∧ 2 ^ 64 ≤ x
      else value ≠ .nan ∧ Rounds x value := by
  have scanned : scanNumber raw.toList = some (value, raw.toList.length) := spelled
  have whole {front rest : List Char} (cut : raw.toList = front ++ rest)
      (length : raw.toList.length = front.length) : raw.toList = front := by
    rw [cut, List.length_append, Nat.add_eq_left, List.length_eq_zero_iff] at length
    rw [cut, length, List.append_nil]
  obtain ⟨n, rest, valid, cut, rfl, length⟩ | ⟨mark, digits, rest, marked, cut, hex, some, rfl, length⟩ :=
    exists_of_scanNumber scanned
  · have text := whole cut length
    have narrow : (Kind.number (n.value.toNumber false) raw).isWide = false := by
      have none : hexDigits n.text = [] := by
        simpa using hexDigits_numeral valid (show ∀ c ∈ ([] : List Char).head?, _ by simp)
      simp only [Kind.isWide, text, none]
      decide
    refine ⟨n.value.value, text ▸ .decimal valid, ?_⟩
    rw [if_neg (by simp [narrow])]
    exact ⟨Decimal.toNumber_ne_nan _ _, Decimal.toNumber_rounds _⟩
  · have text : raw.toList = '0' :: mark :: digits := whole (by simpa using cut) length
    have found : hexDigits raw.toList = digits := by rw [text, hexDigits_marked marked hex]
    have denotes : Denotes raw.toList (hexValue digits : Nat) := by
      rw [text, hexValue_eq]
      exact .hexadecimal marked hex some
    refine ⟨_, denotes, ?_⟩
    have size : ((2 : ℚ) ^ 64) = (wordSize : Nat) := by
      rw [wordSize, cast_twoTo]
    simp only [Kind.isWide, found, decide_eq_true_eq]
    split
    · rename_i wide
      refine ⟨if_neg (Nat.not_lt.2 wide), ?_⟩
      rw [size]
      exact_mod_cast wide
    · rename_i narrow
      have exact : hexNumber digits = .ofNat (hexValue digits) := if_pos (Nat.not_le.1 narrow)
      rw [exact]
      exact ⟨Number.ofRatio_ne_nan _ _ _, Number.ofNat_rounds _⟩

end Token

namespace Script

open Value (EachNode EachField)
open Token (Kind)

structure WrittenAs (node : Fields) (text : String) : Prop where
  inside : ∃ e, Decode.expression node = .ok e ∧ ∀ least ≤ Level.primary, e.textAt least = text
  alone : ∀ statement : Fields, statement.kind = "ExpressionStatement" →
    statement.get? "expression" = some (.object node) →
    ∀ width, compile width statement = .ok (text ++ ";")

structure Plain (text : String) : Prop where
  unsigned : Text.beginsWith text "-" = false
  unbraced : Text.beginsWith text "\x7b" = false
  unnamed : Text.beginsWith text "function" = false

theorem plain_nan : Plain "NaN" := ⟨by decide, by decide, by decide⟩

theorem plain_of_spelled {value : Number} {raw : String} (spelled : (Kind.number value raw).Spelled) :
    Plain raw := by
  have scanned : Token.scanNumber raw.toList = some (value, raw.toList.length) := spelled
  have head {c : Char} (digit : c.isDigit = false) (point : c ≠ '.') (more : List Char) :
      (c :: more).isPrefixOf raw.toList = false := by
    cases shape : raw.toList with
    | nil => rfl
    | cons first rest =>
      rw [shape] at scanned
      have apart : c ≠ first := by
        rintro rfl
        rcases Token.scanNumber_head scanned with isDigit | isPoint
        · rw [digit] at isDigit
          exact absurd isDigit (by decide)
        · exact point isPoint
      simp [List.isPrefixOf, apart]
  exact ⟨head (by decide) (by decide) [], head (by decide) (by decide) [],
    head (by decide) (by decide) "unction".toList⟩

theorem textAt_number {n : Lines} {value : Number} {raw : Option String}
    (plain : Plain (raw.getD value.display)) {least : Level} (le : least ≤ Level.primary) :
    (Expr.number n value raw).textAt least = raw.getD value.display := by
  simp only [Expr.textAt, Expr.write, writeNumber, plain.unsigned, Bool.false_eq_true, if_false]
  exact if_neg (Nat.not_lt.mpr le)

theorem writtenAs_of_decode {node : Fields} {n : Lines} {value : Number} {raw : Option String}
    (plain : Plain (raw.getD value.display)) (isNode : node.isNode = true)
    (read : Decode.expression node = .ok (.number n value raw)) :
    WrittenAs node (raw.getD value.display) where
  inside := ⟨_, read, fun _ le => textAt_number plain le⟩
  alone := by
    intro statement kind held width
    rw [compile_of_decode (decode_expressionStatement kind held isNode read)]
    simp [programText, Stmt.listText, Stmt.text, margin, Text.blanks, expressionStatement,
      textAt_number plain (show Level.sequence ≤ Level.primary by decide), plain.unbraced,
      plain.unnamed]

theorem writtenAs_literal (lines : LineIndex) (place : Place) {value : Number} {raw : String}
    (spelled : (Kind.number value raw).Spelled) {node : Fields}
    (literal : literalNode lines "NumericLiteral" place (.number value) (some raw) = .object node) :
    node.get? "value" = some (.number value) ∧
      WrittenAs node (if (Kind.number value raw).isWide then "NaN" else raw) := by
  have scalar : ∀ other, (Value.number value).Varies Value.nothing other → other = .number value :=
    fun _ same => same
  obtain ⟨_, other, shape, framed, same, spelling⟩ :=
    framed_of_literalNode registered_nothing scalar (Value.varies_refl _)
  obtain rfl := Value.object.inj (literal.symm.trans shape)
  obtain rfl : other = .number value := same.resolve_right fun written => written.elim
  have held : node.get? "value" = some (.number value) := framed.get?_eq (by decide)
  have read : Decode.expression node = .ok (.number (Decode.linesOf node) value
      (if value.agrees value then some raw else none)) := by
    rw [Decode.expression]
    simp only [framed.kind_eq, Decode.required, held, Decode.ok_bind, Decode.numberSpelling?, spelling]
    rfl
  obtain ⟨x, -, exact⟩ := Token.denotes_of_spelled spelled
  refine ⟨held, ?_⟩
  split at exact
  · rename_i wide
    obtain ⟨rfl, -⟩ := exact
    rw [if_pos wide]
    have plain : Plain ((none : Option String).getD Number.nan.display) := plain_nan
    exact writtenAs_of_decode plain framed.isNode read
  · rename_i narrow
    rw [if_pos (Number.agrees_self exact.1)] at read
    rw [if_neg narrow]
    have plain : Plain ((some raw).getD value.display) := plain_of_spelled spelled
    exact writtenAs_of_decode plain framed.isNode read

theorem Accepted.sourced {text : String} {inner : List Token} {last : Token}
    {body : List (Stmt Place)} (accepted : Accepted text inner last body) :
    ∀ s ∈ body, s.Stable fun value raw =>
      ∃ t ∈ inner, ∃ spelling, raw = some spelling ∧ t.kind = .number value spelling := by
  refine accepted.forms.stable fun t member => ⟨accepted.spelled t member, fun value raw kind => ?_⟩
  exact ⟨t, member, raw, rfl, kind⟩

section Throughout

variable {holds : Fields → Prop} {numbers : Number → Option String → Prop} {lines : LineIndex}
  (free : ∀ node : Fields, node.kind ≠ "NumericLiteral" → holds node)
  (number : ∀ place value raw node, numbers value raw →
    literalNode lines "NumericLiteral" place (.number value) raw = .object node → holds node)

include free

theorem eachNode_unlike {kind : String} {place : Place} {fields : Fields}
    (other : kind ≠ "NumericLiteral") (inside : EachField holds fields) :
    (plainNode lines kind place fields).EachNode holds :=
  eachNode_plainNode (free _ (by rwa [(framed_plain lines kind place fields).kind_eq])) inside

theorem PrintableName.eachNode {e : Expr Place} (name : PrintableName e) :
    (e.encode lines).EachNode holds := by
  cases name with
  | intro _ _ => exact eachNode_unlike free (by decide) ⟨trivial, trivial⟩

include number

/-- What holds of every node that is no number literal holds throughout an expression, if it also
holds of its number literals. -/
theorem PrintableWith.eachNode {e : Expr Place} (printable : PrintableWith numbers e) :
    (e.encode lines).EachNode holds := by
  induction printable with
  | name | boolean => exact eachNode_unlike free (by decide) ⟨trivial, trivial⟩
  | null => exact eachNode_unlike free (by decide) trivial
  | number literal => exact eachNode_literalNode (number _ _ _ _ literal rfl) trivial
  | string => exact eachNode_literalNode (free _ (by
      rw [(framed_literal ..).kind_eq]
      decide)) trivial
  | array _ ih =>
    rw [Expr.encode, Expr.encodeElements_some]
    exact eachNode_unlike free (by decide) ⟨Value.eachNode_list ih, trivial⟩
  | @binary _ operator _ _ _ _ first second =>
    rw [Expr.encode]
    exact eachNode_unlike free (by split <;> decide) ⟨first, trivial, second, trivial⟩
  | unary _ ih | update _ ih => exact eachNode_unlike free (by decide) ⟨trivial, trivial, ih, trivial⟩
  | assignment _ _ _ first second =>
    exact eachNode_unlike free (by decide) ⟨trivial, first, second, trivial⟩
  | conditional _ _ _ test first second =>
    exact eachNode_unlike free (by decide) ⟨test, first, second, trivial⟩
  | sequence _ ih =>
    rw [Expr.encode, Expr.encodeList_eq_map]
    exact eachNode_unlike free (by decide) ⟨Value.eachNode_list ih, trivial⟩
  | call _ _ callee ih =>
    rw [Expr.encode, Expr.encodeList_eq_map]
    exact eachNode_unlike free (by decide) ⟨callee, Value.eachNode_list ih, trivial⟩
  | dot _ _ object =>
    exact eachNode_unlike free (by decide)
      ⟨object, trivial, eachNode_unlike free (by decide) ⟨trivial, trivial⟩, trivial⟩
  | bracket _ _ object index =>
    exact eachNode_unlike free (by decide) ⟨object, trivial, index, trivial⟩

theorem eachNode_option {entry : Option (Expr Place)} (each : ∀ e ∈ entry, PrintableWith numbers e) :
    (Expr.encodeOption lines entry).EachNode holds := by
  cases entry with
  | none => trivial
  | some e => exact (each e rfl).eachNode free number

theorem PrintableStmtWith.eachNode {s : Stmt Place} (printable : PrintableStmtWith numbers s) :
    (s.encode lines).EachNode holds := by
  induction printable with
  | declaration _ names values =>
    refine eachNode_unlike free (by decide) ⟨Value.eachNode_list fun d member => ?_, trivial, trivial⟩
    exact eachNode_unlike free (by decide) ⟨(names d member).eachNode free,
      eachNode_option free number (values d member), trivial⟩
  | function name names _ ih =>
    rw [Stmt.encode, Expr.encodeList_eq_map, Stmt.encodeList_eq_map]
    exact eachNode_unlike free (by decide) ⟨name.eachNode free, trivial, trivial,
      Value.eachNode_list fun e member => (names e member).eachNode free,
      eachNode_unlike free (by decide) ⟨Value.eachNode_list ih, trivial, trivial⟩, trivial⟩
  | block _ ih =>
    rw [Stmt.encode, Stmt.encodeList_eq_map]
    exact eachNode_unlike free (by decide) ⟨Value.eachNode_list ih, trivial, trivial⟩
  | ret inner => exact eachNode_unlike free (by decide) ⟨eachNode_option free number inner, trivial⟩
  | expression inner =>
    exact eachNode_unlike free (by decide) ⟨inner.eachNode free number, trivial⟩
  | branch test _ ih =>
    exact eachNode_unlike free (by decide) ⟨test.eachNode free number, ih, trivial, trivial⟩
  | choice test _ _ _ first second =>
    exact eachNode_unlike free (by decide) ⟨test.eachNode free number, first, second, trivial⟩
  | empty => exact eachNode_unlike free (by decide) trivial

theorem eachNode_programFields {body : List (Stmt Place)} (each : ∀ s ∈ body, PrintableStmtWith numbers s)
    (length : Nat) : (Value.object (programFields lines length body)).EachNode holds := by
  have node : (plainNode lines "Program" ⟨⟨0, length⟩, none⟩
      [("sourceType", textValue "script"), ("interpreter", .null),
        ("body", .list (body.map (Stmt.encode lines))), ("directives", .list [])]).EachNode holds :=
    eachNode_unlike free (by decide) ⟨trivial, trivial,
      Value.eachNode_list fun s member => (each s member).eachNode free number, trivial, trivial⟩
  rw [programFields, Stmt.encodeList_eq_map]
  exact node

end Throughout

/-- The value of a number token is the number that is nearest to what its text denotes, and a literal
of a parsed tree is written as the text of its token. Hexadecimal literals of more than 64 bits are
the exception: they have no value and are written as `NaN`. Of a text without them, every number
stands in the code as it was spelled, in the place where it stood. -/
theorem literals_round_unless_wide {source : String} {tokens : List Token}
    (scanned : Token.scan source.toList = .ok tokens) :
    (∀ t ∈ tokens, ∀ value raw, t.kind = .number value raw →
      ∃ x, Token.Denotes raw.toList x ∧
        if t.kind.isWide then value = .nan ∧ 2 ^ 64 ≤ x else value ≠ .nan ∧ Rounds x value) ∧
    ∀ tree, parseProgram source = .ok tree →
      ((Value.object tree).EachNode fun node => node.kind = "NumericLiteral" →
        ∃ t ∈ tokens, ∃ value raw, t.kind = .number value raw ∧
          node.get? "value" = some (.number value) ∧
          WrittenAs node (if t.kind.isWide then "NaN" else raw)) ∧
      ((∀ t ∈ tokens, t.kind.isWide = false) → ∀ width, ∃ code after,
        compile width tree = .ok code ∧ Token.scan code.toList = .ok after ∧
        Token.content after = Token.content tokens) := by
  obtain ⟨inner, last, rfl, finish, spelled⟩ := Token.spelled_of_scanFrom scanned
  refine ⟨fun t member value raw kind => ?_, fun tree parsed => ?_⟩
  · rcases List.mem_append.1 member with inside | ends
    · rw [kind]
      exact Token.denotes_of_spelled (kind ▸ spelled t inside)
    · rw [List.mem_singleton.1 ends, finish] at kind
      exact absurd kind (by simp)
  · obtain ⟨front, stop, body, accepted, rfl⟩ := exists_of_parseProgram parsed
    have same : front ++ [stop] = inner ++ [last] := by
      simpa using accepted.scanned.symm.trans scanned
    obtain ⟨rfl, same⟩ := List.append_inj' same rfl
    obtain rfl : stop = last := by simpa using same
    refine ⟨eachNode_programFields ?_ ?_ (fun s member => (accepted.sourced s member).printable) _, ?_⟩
    · exact fun node other kind => absurd kind other
    · rintro place value raw node ⟨t, inside, spelling, rfl, kind⟩ literal -
      have literal := writtenAs_literal _ place (kind ▸ spelled t inside) literal
      exact ⟨t, List.mem_append_left _ inside, value, spelling, kind, kind ▸ literal⟩
    · intro narrow width
      have narrow : Narrow source := by
        intro tokens again
        rwa [Except.ok.inj (again.symm.trans scanned)]
      exact accepted.content_printed narrow width _ _

theorem literals_round_unless_wide_narrow :
    ∃ tokens tree, Token.scan "a = 0X1f - .5e999;".toList = .ok tokens ∧
      parseProgram "a = 0X1f - .5e999;" = .ok tree ∧
      (∀ t ∈ tokens, ∀ value raw, t.kind = .number value raw →
        ∃ x, Token.Denotes raw.toList x ∧ Rounds x value) ∧
      ∃ code after, compile 2 tree = .ok code ∧ Token.scan code.toList = .ok after ∧
        Token.content after = Token.content tokens := by
  obtain ⟨tokens, scanned⟩ : ∃ tokens, Token.scan "a = 0X1f - .5e999;".toList = .ok tokens :=
    exists_of_isOk (by decide +kernel)
  obtain ⟨tree, parsed⟩ : ∃ tree, parseProgram "a = 0X1f - .5e999;" = .ok tree :=
    exists_of_isOk (by decide +kernel)
  have lacks : Narrow "a = 0X1f - .5e999;" := by decide +kernel
  have narrow := lacks tokens scanned
  obtain ⟨rounds, printed⟩ := literals_round_unless_wide scanned
  refine ⟨tokens, tree, scanned, parsed, fun t member value raw kind => ?_,
    (printed tree parsed).2 narrow 2⟩
  obtain ⟨x, denotes, exact⟩ := rounds t member value raw kind
  rw [narrow t member, if_neg Bool.false_ne_true] at exact
  exact ⟨x, denotes, exact.2⟩

/-- A hexadecimal literal of 65 bits denotes a number within range, and it is lost. -/
theorem wide_literal_lost :
    Token.scan "0x10000000000000000".toList =
      .ok [⟨.number .nan "0x10000000000000000", 0, 19, false⟩, ⟨.finish, 19, 19, false⟩] ∧
    Token.Denotes "0x10000000000000000".toList (2 ^ 64 : Nat) ∧
    Rounds (2 ^ 64 : Nat) (.ofNat (2 ^ 64)) ∧ ¬Rounds (2 ^ 64 : Nat) .nan ∧
    (parseProgram "0x10000000000000000").toOption.map (compile 2) = some (.ok "NaN;") := by
  have denotes : Token.Denotes ('0' :: 'x' :: "10000000000000000".toList) _ :=
    .hexadecimal (.inl rfl) (by decide) (by decide)
  exact ⟨by decide +kernel, denotes, Number.ofNat_rounds _, nofun, by decide +kernel⟩

end Script

end Arborist

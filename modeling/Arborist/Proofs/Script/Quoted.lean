import Mathlib
import Arborist.Proofs.Script.RoundTrip
import Arborist.Proofs.Script.Shape
import Arborist.Proofs.Source.Lossless
import Arborist.Node.Path

/-!
Quoted texts. A string literal is written as it was spelled for as long as the spelling is recorded
for the value that it has; otherwise its value is put in quotes. What stands in quotes is scanned as
one token with that value, wherever it stands, and a literal written so is parsed with its value.
-/

namespace Arborist

/-- A spelled string is scanned off the head of a text, whatever stands behind it. -/
theorem Token.scanFrom_string {value raw : String} (spelled : (Kind.string value raw).Spelled)
    {offset stop : Nat} (stops : offset + Text.byteLength raw.toList = stop) (newline : Bool)
    (after : List Char) :
    scanFrom offset newline (raw.toList ++ after) =
      (scanFrom stop false after).map (⟨.string value raw, offset, stop, newline⟩ :: ·) := by
  obtain ⟨c, cs, shape, cut⟩ := @piece_of_spelled (.string value raw) after spelled trivial
  have shape : raw.toList = c :: cs := shape
  rw [shape] at stops ⊢
  rw [List.cons_append, scanFrom, cut]
  simp only [List.take_left, List.drop_left, stops]
  cases scanFrom stop false after <;> rfl

theorem Value.eq_string_of_asString? {value : Value} {text : String}
    (read : value.asString? = some text) : value = .string text := by
  cases value with
  | string s => exact congrArg Value.string (Option.some.inj read)
  | _ => simp [asString?] at read

namespace Script

/-- A node has `raw` on record as the spelling of a text. -/
def Records (node : Fields) (text raw : String) : Prop :=
  ∃ extra : Fields, node.get? "extra" = some (.object extra) ∧
    extra.get? "rawValue" = some (.string text) ∧ extra.get? "raw" = some (.string raw)

theorem Decode.records_of_stringSpelling? {node : Fields} {text raw : String}
    (spelling : stringSpelling? node text = some raw) : Records node text raw := by
  unfold stringSpelling? spelling? at spelling
  split at spelling
  · rename_i extra held
    split at spelling
    · rename_i value recorded
      cases value with
      | string other =>
        split_ifs at spelling with same
        obtain rfl : other = text := by simpa using same
        obtain ⟨value, found, read⟩ := Option.bind_eq_some_iff.mp spelling
        exact ⟨extra, held, recorded, Value.eq_string_of_asString? read ▸ found⟩
      | _ => simp at spelling
    · simp at spelling
  · simp at spelling

section Literals

variable {node statement : Fields} {text : String}

theorem decode_unrecorded (kind : node.kind = "StringLiteral")
    (held : node.get? "value" = some (.string text)) (unrecorded : ∀ raw, ¬Records node text raw) :
    Decode.expression node = .ok (.string (Decode.linesOf node) text none) := by
  have bare : Decode.stringSpelling? node text = none := Option.eq_none_iff_forall_ne_some.mpr
    fun raw spelling => unrecorded raw (Decode.records_of_stringSpelling? spelling)
  rw [Decode.expression]
  simp only [kind, Decode.required, held, Decode.ok_bind, bare]
  rfl

theorem decode_expressionStatement {e : Expr Lines} (kind : statement.kind = "ExpressionStatement")
    (held : statement.get? "expression" = some (.object node)) (isNode : node.isNode = true)
    (read : Decode.expression node = .ok e) :
    Decode.root statement = .ok [.expression (Decode.linesOf statement) e] := by
  obtain ⟨less, run⟩ := Decode.child_eq_ok held isNode
  rw [Decode.root]
  simp only [kind]
  rw [Decode.statement]
  simp only [kind, run, read, Decode.ok_bind]
  rfl

theorem textAt_string {n : Lines} {least : Level} (le : least ≤ Level.primary) :
    (Expr.string n text none).textAt least = quote text :=
  if_neg (Nat.not_lt.mpr le)

theorem expressionStatement_quote (text : String) :
    expressionStatement (quote text) = quote text ++ ";" := by
  simp [expressionStatement, Text.beginsWith, quote]

theorem programText_quote (n m : Lines) (width : Nat) (text : String) :
    programText width [.expression n (.string m text none)] = quote text ++ ";" := by
  have written : (Expr.string m text none).textAt Level.sequence = quote text :=
    textAt_string (by decide)
  simp [programText, Stmt.listText, Stmt.text, margin, Text.blanks, written,
    expressionStatement_quote]

theorem exists_of_bare_literal {trees : List (Stmt Place)} {raw : String}
    (same : trees.map Stmt.bare = [.expression () (.string () text (some raw))]) :
    ∃ place inner, trees = [.expression place (.string inner text (some raw))] := by
  obtain ⟨s, rfl, here⟩ := List.map_eq_singleton_iff.mp same
  cases s with
  | expression place e =>
    cases e with
    | string inner value spelling =>
      simp only [Stmt.bare_expression, Expr.bare_string, Stmt.expression.injEq, Expr.string.injEq,
        true_and] at here
      obtain ⟨rfl, rfl⟩ := here
      exact ⟨place, inner, rfl⟩
    | _ => simp [Stmt.bare, Stmt.mapNote, Expr.mapNote] at here
  | _ => simp [Stmt.bare, Stmt.mapNote] at here

theorem parseProgram_quote (text : String) :
    ∃ again literal, parseProgram (quote text ++ ";") = .ok again ∧
      Path.resolve [⟨"body", some 0⟩, ⟨"expression", none⟩] again = some literal ∧
      literal.kind = "StringLiteral" ∧ literal.get? "value" = some (.string text) ∧
      Records literal text (quote text) := by
  have printable : ∀ s ∈ [Stmt.expression (⟨none, none⟩ : Lines) (.string ⟨none, none⟩ text none)],
      PrintableStmt s := by
    intro s member
    cases List.mem_singleton.mp member
    exact .expression (.string (spelled_quote text))
  obtain ⟨inner, last, trees, reads⟩ := readsAs printable 0
  have parsed := reads.parsed
  rw [programText_quote] at parsed
  have same : trees.map Stmt.bare = [.expression () (.string () text (some (quote text)))] :=
    reads.same
  obtain ⟨place, inner, rfl⟩ := exists_of_bare_literal same
  exact ⟨_, _, parsed, rfl, rfl, rfl, _, rfl, rfl, rfl⟩

/-- Quoting loses nothing. A text in quotes is scanned as one string token with the text as its
value and the quotes as its spelling, alone or before any other text. A string literal without a
spelling on record for its value is written in quotes wherever it stands, and as a statement it is
parsed again into a literal with its value. -/
theorem quote_survives (text : String) :
    let size := Text.byteLength (quote text).toList
    Token.scan (quote text).toList =
      .ok [⟨.string text (quote text), 0, size, false⟩, ⟨.finish, size, size, false⟩] ∧
    (∀ offset stop, offset + size = stop → ∀ newline after,
      Token.scanFrom offset newline ((quote text).toList ++ after) =
        (Token.scanFrom stop false after).map
          (⟨.string text (quote text), offset, stop, newline⟩ :: ·)) ∧
    ∀ node : Fields, node.kind = "StringLiteral" → node.get? "value" = some (.string text) →
      (∀ raw, ¬Records node text raw) →
      (∃ e, Decode.expression node = .ok e ∧
        ∀ least ≤ Level.primary, e.textAt least = quote text) ∧
      ∀ statement : Fields, statement.kind = "ExpressionStatement" →
        statement.get? "expression" = some (.object node) →
        (∀ width, compile width statement = .ok (quote text ++ ";")) ∧
        ∃ again literal, parseProgram (quote text ++ ";") = .ok again ∧
          Path.resolve [⟨"body", some 0⟩, ⟨"expression", none⟩] again = some literal ∧
          literal.kind = "StringLiteral" ∧ literal.get? "value" = some (.string text) ∧
          Records literal text (quote text) := by
  intro size
  have spelled := spelled_quote text
  refine ⟨Token.scan_spelling spelled, fun _ _ stops => Token.scanFrom_string spelled stops, ?_⟩
  intro node kind held unrecorded
  have decoded := decode_unrecorded kind held unrecorded
  refine ⟨⟨_, decoded, fun least le => textAt_string le⟩, fun statement outer inside =>
    ⟨fun width => ?_, parseProgram_quote text⟩⟩
  have isNode := Fields.isNode_of_kind kind (by decide)
  rw [compile_of_decode (decode_expressionStatement outer inside isNode decoded), programText_quote]

end Literals

/-- The value was changed behind the spelling, to a text that needs every escape. -/
theorem quote_survives_stale :
    let text := "\"\\\n\r\t\x00'"
    let code := "\"\\\"\\\\\\n\\r\\t\\0'\""
    let node : Fields := [("type", .string "StringLiteral"),
      ("extra", .object [("rawValue", .string "old"), ("raw", .string "'old'")]),
      ("value", .string text)]
    let statement : Fields :=
      [("type", .string "ExpressionStatement"), ("expression", .object node)]
    (∀ raw, ¬Records node text raw) ∧ compile 2 statement = .ok (code ++ ";") ∧
      ∃ again literal, parseProgram (code ++ ";") = .ok again ∧
        Path.resolve [⟨"body", some 0⟩, ⟨"expression", none⟩] again = some literal ∧
        literal.kind = "StringLiteral" ∧ literal.get? "value" = some (.string text) ∧
        Records literal text code := by
  intro text code node statement
  have stale : ∀ raw, ¬Records node text raw := by
    rintro raw ⟨extra, held, recorded, -⟩
    have found : node.get? "extra" =
        some (.object [("rawValue", .string "old"), ("raw", .string "'old'")]) := rfl
    obtain rfl := Value.object.inj (Option.some.inj (found.symm.trans held))
    simp [Fields.get?, text] at recorded
  have quoted : quote text = code := by decide +kernel
  obtain ⟨compiled, parsed⟩ := ((quote_survives text).2.2 node rfl rfl stale).2 statement rfl rfl
  rw [quoted] at compiled parsed
  exact ⟨stale, compiled 2, parsed⟩

end Script

end Arborist

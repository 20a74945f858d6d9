import Mathlib
import Arborist.Proofs.Script.PrintedStatements

/-!
Parsed programs can be printed. What was derived from spelled tokens is printable, and its text is
read as the same program: the literals keep their spellings, and a branch that would take an `else`
never stands before one.
-/

namespace Arborist.Script

open Token (Kind)

variable {ι κ : Type}

def Proper (numbers : Number → Option String → Prop) (kind : Kind) : Prop :=
  kind.Spelled ∧ ∀ value raw, kind = .number value raw → numbers value (some raw)

variable {numbers : Number → Option String → Prop}

theorem PrintableWith.withNote {e : Expr ι} (printable : PrintableWith numbers e) (n : ι) :
    PrintableWith numbers (e.withNote n) := by
  cases printable with
  | name spelled free => exact .name spelled free
  | number spelled => exact .number spelled
  | string spelled => exact .string spelled
  | boolean => exact .boolean
  | null => exact .null
  | array members => exact .array members
  | binary first second => exact .binary first second
  | unary inner => exact .unary inner
  | update inner => exact .update inner
  | assignment assignable first second => exact .assignment assignable first second
  | conditional condition positive negative => exact .conditional condition positive negative
  | sequence members => exact .sequence members
  | call inner members => exact .call inner members
  | dot inner spelled => exact .dot inner spelled
  | bracket inner index => exact .bracket inner index

theorem Expr.reread_withNote (e : Expr ι) (n : ι) : (e.withNote n).reread = e.reread := by
  cases e <;> rfl

/-- A printable expression that is read as itself. -/
structure Expr.Stable (numbers : Number → Option String → Prop) (e : Expr ι) : Prop where
  printable : PrintableWith numbers e
  same : e.reread = e.bare

structure Stmt.Stable (numbers : Number → Option String → Prop) (s : Stmt ι) : Prop where
  printable : PrintableStmtWith numbers s
  same : s.reread = s.bare

theorem map_reread_of_stable {list : List (Expr ι)} (stable : ∀ e ∈ list, e.Stable numbers) :
    list.map Expr.reread = list.map Expr.bare :=
  List.map_congr_left fun e member => (stable e member).same

def Phrase.Stable (numbers : Number → Option String → Prop) : Phrase → Prop
  | .expr _ e => e.Stable numbers
  | .items list | .parts list => ∀ e ∈ list, e.Stable numbers

section Derivations

variable {ts us : List Token} {t : Token}

theorem proper_append (proper : ∀ t ∈ ts ++ us, Proper numbers t.kind) :
    (∀ t ∈ ts, Proper numbers t.kind) ∧ ∀ t ∈ us, Proper numbers t.kind :=
  List.forall_mem_append.mp proper

theorem proper_cons (proper : ∀ u ∈ t :: us, Proper numbers u.kind) :
    Proper numbers t.kind ∧ ∀ u ∈ us, Proper numbers u.kind := List.forall_mem_cons.mp proper

theorem stable_number {n : ι} {value : Number} {raw : String}
    (proper : Proper numbers (.number value raw)) :
    (Expr.number n value (some raw)).Stable numbers := by
  have spelled := proper.1
  refine ⟨.number (proper.2 value raw rfl), ?_⟩
  have read : readNumber raw = value := by
    unfold readNumber
    rw [show Token.scanNumber raw.toList = some (value, raw.toList.length) from spelled]
    rfl
  have unsigned : ¬ Text.beginsWith raw "-" = true := by
    rw [beginsWith_iff_head (by decide : "-".toList = ['-'])]
    obtain ⟨c, cs, chars, head⟩ := number_head spelled
    rw [chars, List.head?_cons, Option.some.injEq]
    rintro rfl
    exact absurd head (by decide)
  simp [rereadNumber, unsigned, read]

/-- What is derived from spelled tokens is printable and read as itself. -/
theorem Derives.stable {phrase : Phrase} (derives : Derives phrase ts)
    (proper : ∀ t ∈ ts, Proper numbers t.kind) : phrase.Stable numbers := by
  induction derives with
  | @name t text word free =>
    have word : (Kind.word text).Spelled := word ▸ (proper t List.mem_cons_self).1
    exact ⟨.name word free, rfl⟩
  | @number t value raw literal => exact stable_number (literal ▸ proper t List.mem_cons_self)
  | @string t value raw literal =>
    have literal : (Kind.string value raw).Spelled := literal ▸ (proper t List.mem_cons_self).1
    exact ⟨.string literal, rfl⟩
  | boolean => exact ⟨.boolean, rfl⟩
  | null => exact ⟨.null, rfl⟩
  | paren _ _ _ ih =>
    have inner : Expr.Stable numbers _ := ih (proper_append (proper_cons proper).2).1
    exact ⟨inner.printable.withNote _,
      by rw [Expr.reread_withNote, Expr.bare_withNote, inner.same]⟩
  | array _ _ _ ih =>
    have members : ∀ e ∈ _, Expr.Stable numbers e := ih (proper_append (proper_cons proper).2).1
    refine ⟨.array fun e member => (members e member).printable, ?_⟩
    rw [Expr.reread_array, Expr.bare_array, List.map_map, List.map_map]
    exact congrArg _ (List.map_congr_left fun e member => congrArg some (members e member).same)
  | @dot point word ts object name _ _ property ih =>
    have inner : Expr.Stable numbers _ := ih (proper_append proper).1
    have word : (Kind.word name).Spelled :=
      property ▸ (proper_cons (proper_cons (proper_append proper).2).2).1.1
    exact ⟨.dot inner.printable word, by simp [inner.same]⟩
  | bracket _ _ _ _ object index =>
    have object : Expr.Stable numbers _ := object (proper_append proper).1
    have index : Expr.Stable numbers _ :=
      index (proper_append (proper_cons (proper_append proper).2).2).1
    exact ⟨.bracket object.printable index.printable,
      by simp [object.same, index.same]⟩
  | call _ _ _ _ callee arguments =>
    have callee : Expr.Stable numbers _ := callee (proper_append proper).1
    have members : ∀ e ∈ _, Expr.Stable numbers e :=
      arguments (proper_append (proper_cons (proper_append proper).2).2).1
    exact ⟨.call callee.printable fun e member => (members e member).printable,
      by simp [callee.same, map_reread_of_stable members]⟩
  | updated _ _ _ ih =>
    have inner : Expr.Stable numbers _ := ih (proper_append proper).1
    exact ⟨.update inner.printable, by simp [inner.same]⟩
  | unary _ _ ih =>
    have inner : Expr.Stable numbers _ := ih (proper_cons proper).2
    exact ⟨.unary inner.printable, by simp [inner.same]⟩
  | updating _ _ ih =>
    have inner : Expr.Stable numbers _ := ih (proper_cons proper).2
    exact ⟨.update inner.printable, by simp [inner.same]⟩
  | power _ _ _ base exponent =>
    have left : Expr.Stable numbers _ := base (proper_append proper).1
    have right : Expr.Stable numbers _ := exponent (proper_cons (proper_append proper).2).2
    exact ⟨.binary left.printable right.printable, by simp [left.same, right.same]⟩
  | binary notComma _ _ _ _ first second =>
    have left : Expr.Stable numbers _ := first (proper_append proper).1
    have right : Expr.Stable numbers _ := second (proper_cons (proper_append proper).2).2
    exact ⟨.binary left.printable right.printable,
      by simp [notComma, left.same, right.same]⟩
  | conditional _ _ _ _ _ condition positive negative =>
    have inside := (proper_cons (proper_append proper).2).2
    have test : Expr.Stable numbers _ := condition (proper_append proper).1
    have consequent : Expr.Stable numbers _ := positive (proper_append inside).1
    have alternate : Expr.Stable numbers _ := negative (proper_cons (proper_append inside).2).2
    exact ⟨.conditional test.printable consequent.printable alternate.printable,
      by simp [test.same, consequent.same, alternate.same]⟩
  | assignment _ assignable _ _ left right =>
    have target : Expr.Stable numbers _ := left (proper_append proper).1
    have value : Expr.Stable numbers _ := right (proper_cons (proper_append proper).2).2
    exact ⟨.assignment assignable target.printable value.printable,
      by simp [target.same, value.same]⟩
  | @sequence ts us first rest _ _ some head tail =>
    obtain ⟨second, more, rfl⟩ := List.exists_cons_of_ne_nil some
    have first : Expr.Stable numbers _ := head (proper_append proper).1
    have others : ∀ e ∈ _, Expr.Stable numbers e := tail (proper_append proper).2
    have members := List.forall_mem_cons.mpr ⟨first, others⟩
    refine ⟨.sequence fun e member => (members e member).printable, ?_⟩
    rw [Expr.reread_sequence, Expr.bare_sequence, map_reread_of_stable members]
  | looser _ ih => exact ih proper
  | noItems | noParts => exact fun e member => absurd member List.not_mem_nil
  | oneItem _ ih => exact List.forall_mem_singleton.mpr (ih proper)
  | moreItems _ _ _ item rest =>
    exact List.forall_mem_cons.mpr ⟨item (proper_append proper).1,
      rest (proper_cons (proper_append proper).2).2⟩
  | moreParts _ _ _ part rest =>
    have inside := (proper_cons proper).2
    exact List.forall_mem_cons.mpr ⟨part (proper_append inside).1, rest (proper_append inside).2⟩

theorem Named.stable {e : Expr Place} (named : Named e t) (proper : Proper numbers t.kind) :
    PrintableName e ∧ e.Stable numbers := by
  cases named with
  | intro word free =>
    have spelled := proper.1
    rw [word] at spelled
    exact ⟨.intro spelled free, .name spelled free, rfl⟩

theorem Parameters.stable {list : List (Expr Place)} (parameters : Parameters list ts)
    (proper : ∀ t ∈ ts, Proper numbers t.kind) : ∀ e ∈ list, PrintableName e ∧ e.Stable numbers := by
  induction parameters with
  | none => exact fun e member => absurd member List.not_mem_nil
  | one name => exact List.forall_mem_singleton.mpr (name.stable (proper_cons proper).1)
  | more name _ _ ih =>
    exact List.forall_mem_cons.mpr ⟨name.stable (proper_cons proper).1,
      ih (proper_cons (proper_cons proper).2).2⟩

structure Declarator.Stable (numbers : Number → Option String → Prop) (d : Declarator ι) : Prop where
  name : PrintableName d.target
  value : ∀ e ∈ d.value, PrintableWith numbers e
  same : d.reread = d.bare

theorem Declares.stable {d : Declarator Place} {next : Token} (declares : Declares d ts next)
    (proper : ∀ t ∈ ts, Proper numbers t.kind) : d.Stable numbers := by
  cases declares with
  | plain named =>
    obtain ⟨name, stable⟩ := named.stable (proper_cons proper).1
    exact ⟨name, by simp, by simp [Declarator.reread, Declarator.bare, stable.same]⟩
  | initial named _ inner =>
    obtain ⟨name, stable⟩ := named.stable (proper_cons proper).1
    have value : Expr.Stable numbers _ := inner.stable (proper_cons (proper_cons proper).2).2
    exact ⟨name, by simpa using value.printable,
      by simp [Declarator.reread, Declarator.bare, stable.same, value.same]⟩

theorem DeclaresAll.stable {list : List (Declarator Place)} {next : Token}
    (declares : DeclaresAll list ts next) (proper : ∀ t ∈ ts, Proper numbers t.kind) :
    list ≠ [] ∧ ∀ d ∈ list, d.Stable numbers := by
  induction declares with
  | last one => exact ⟨by simp, List.forall_mem_singleton.mpr (one.stable proper)⟩
  | more one _ _ ih =>
    obtain ⟨front, rest⟩ := proper_append proper
    exact ⟨by simp, List.forall_mem_cons.mpr ⟨one.stable front, (ih (proper_cons rest).2).2⟩⟩

theorem Heads.stable {head : FunctionHead Place} (heads : Heads head ts)
    (proper : ∀ t ∈ ts, Proper numbers t.kind) :
    PrintableName head.name ∧ (∀ e ∈ head.parameters, PrintableName e) ∧
      head.reread = head.bare := by
  cases heads with
  | intro _ _ _ named _ list _ =>
    have behind := (proper_append (proper_cons (proper_append proper).2).2).2
    obtain ⟨name, stable⟩ := named.stable (proper_cons behind).1
    have parameters :=
      list.stable (proper_append (proper_cons (proper_cons behind).2).2).1
    refine ⟨name, fun e member => (parameters e member).1, ?_⟩
    rw [FunctionHead.reread, FunctionHead.bare, stable.same,
      map_reread_of_stable fun e member => (parameters e member).2]

theorem map_reread_of_stableStmts {list : List (Stmt ι)} (stable : ∀ s ∈ list, s.Stable numbers) :
    list.map Stmt.reread = list.map Stmt.bare :=
  List.map_congr_left fun s member => (stable s member).same

def Passage.Stable (numbers : Number → Option String → Prop) (next : Token) : Passage → Prop
  | .statement s => s.Stable numbers ∧ (next.kind = .word "else" → s.dangles = false)
  | .block _ list | .body list => ∀ s ∈ list, s.Stable numbers

theorem Forms.stable {passage : Passage} {next : Token} (forms : Forms passage ts next)
    (proper : ∀ t ∈ ts, Proper numbers t.kind) : passage.Stable numbers next := by
  induction forms with
  | declaration _ declarators _ =>
    obtain ⟨some, all⟩ := declarators.stable (proper_append (proper_cons proper).2).1
    refine ⟨⟨.declaration some (fun d member => (all d member).name)
      (fun d member => (all d member).value), ?_⟩, fun _ => rfl⟩
    rw [Stmt.reread, Stmt.bare_declaration]
    exact congrArg _ (List.map_congr_left fun d member => (all d member).same)
  | function front _ ih =>
    obtain ⟨name, names, same⟩ := front.stable (proper_append proper).1
    have body : ∀ s ∈ _, Stmt.Stable numbers s := ih (proper_append proper).2
    refine ⟨⟨.function name names fun s member => (body s member).printable, ?_⟩, fun _ => rfl⟩
    rw [Stmt.reread, Stmt.bare_function, Stmt.rereadList_eq_map, same,
      map_reread_of_stableStmts body]
  | block _ ih =>
    have body : ∀ s ∈ _, Stmt.Stable numbers s := ih proper
    refine ⟨⟨.block fun s member => (body s member).printable, ?_⟩, fun _ => rfl⟩
    rw [Stmt.reread, Stmt.bare_block, Stmt.rereadList_eq_map, map_reread_of_stableStmts body]
  | leave _ _ => exact ⟨⟨.ret (by simp), by simp [Stmt.reread]⟩, fun _ => rfl⟩
  | ret _ inner _ _ _ =>
    have argument : Expr.Stable numbers _ := inner.stable (proper_append (proper_cons proper).2).1
    exact ⟨⟨.ret (by simpa using argument.printable), by simp [Stmt.reread, argument.same]⟩,
      fun _ => rfl⟩
  | expression inner _ _ =>
    have body : Expr.Stable numbers _ := inner.stable (proper_append proper).1
    exact ⟨⟨.expression body.printable, by simp [Stmt.reread, body.same]⟩, fun _ => rfl⟩
  | branch _ _ condition _ _ bare ih =>
    have inside := (proper_cons (proper_cons proper).2).2
    have test : Expr.Stable numbers _ := condition.stable (proper_append inside).1
    have consequent : Stmt.Stable numbers _ := (ih (proper_cons (proper_append inside).2).2).1
    exact ⟨⟨.branch test.printable consequent.printable,
      by simp [Stmt.reread, Stmt.rereadElse, test.same, consequent.same]⟩,
      fun other => absurd other bare⟩
  | choice _ _ condition _ _ other _ ihPositive ihNegative =>
    have inside := (proper_cons (proper_cons proper).2).2
    have behind := (proper_cons (proper_append inside).2).2
    have test : Expr.Stable numbers _ := condition.stable (proper_append inside).1
    obtain ⟨consequent, closed⟩ : Stmt.Stable numbers _ ∧ _ := ihPositive (proper_append behind).1
    obtain ⟨alternate, ends⟩ : Stmt.Stable numbers _ ∧ _ :=
      ihNegative (proper_cons (proper_append behind).2).2
    exact ⟨⟨.choice test.printable consequent.printable (closed other) alternate.printable,
      by simp [Stmt.reread, Stmt.rereadElse, test.same, consequent.same, alternate.same]⟩, ends⟩
  | empty _ => exact ⟨⟨.empty, by simp [Stmt.reread]⟩, fun _ => rfl⟩
  | braces _ _ _ ih => exact ih (proper_append (proper_cons proper).2).1
  | done => exact fun s member => absurd member List.not_mem_nil
  | more _ _ first rest =>
    exact List.forall_mem_cons.mpr ⟨(first (proper_append proper).1).1,
      rest (proper_append proper).2⟩

end Derivations

end Arborist.Script

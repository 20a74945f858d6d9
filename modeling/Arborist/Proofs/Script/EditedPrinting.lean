import Mathlib
import Arborist.Proofs.Script.Edited
import Arborist.Proofs.Script.Fields
import Arborist.Proofs.Script.Parsed

/-!
Edited trees can be printed. When what is written into names is a name and what is written into
numbers has the text of a number, an edited tree of a parsed text is printable again; when nothing is
written, it is the parsed tree itself.
-/

namespace Arborist

namespace Number

theorem agrees_self {n : Number} (real : n ≠ .nan) : n.agrees n = true := by
  cases n with
  | nan => exact absurd rfl real
  | infinity negative => simp [agrees]
  | finite negative mantissa exponent canonical => simp [agrees, units?]

end Number

namespace Value

def nothing : Allowance := fun _ _ _ _ => False

end Value

namespace Script

open Token (Kind)
open Value (Allowance)

variable {ι κ : Type}

/-- A number with the spelling that it was read from. -/
def Literal (value : Number) (raw : Option String) : Prop :=
  ∃ spelling, raw = some spelling ∧ (Kind.number value spelling).Spelled ∧ value ≠ .nan

theorem Literal.numeric {value : Number} {raw : Option String} (literal : Literal value raw) :
    Numeric value raw := by
  obtain ⟨spelling, rfl, spelled, -⟩ := literal
  exact ⟨spelling, value, spelled, .inl rfl⟩

theorem Literal.agrees {value : Number} {raw : Option String} (literal : Literal value raw) :
    value.agrees value = true := by
  obtain ⟨spelling, -, -, real⟩ := literal
  exact Number.agrees_self real

/-- What is written can be read again: names are names, and numbers are left as asked. -/
structure Readable (numbers : Number → Option String → Prop) (allows : Allowance) : Prop where
  name : ∀ {value text}, allows "Identifier" "name" value (.string text) →
    (Kind.word text).Spelled ∧ isReserved text = false
  number : ∀ {value next raw}, Literal value raw →
    Kept allows "NumericLiteral" "value" (.number value) (.number next) →
    numbers next (if value.agrees next then raw else none)

section Printable

variable {numbers : Number → Option String → Prop} {allows : Allowance}
  (readable : Readable numbers allows)

theorem editedElements_some {list : List (Expr ι)} {others : List (Option (Expr κ))}
    (edited : Expr.EditedElements allows (list.map some) others) :
    ∃ trees, others = trees.map some ∧ Expr.EditedList allows list trees := by
  induction list generalizing others with
  | nil => exact ⟨[], edited, rfl⟩
  | cons e rest ih =>
    obtain ⟨other, more, rfl, one, behind⟩ := edited
    obtain ⟨trees, rfl, all⟩ := ih behind
    exact ⟨other :: trees, rfl, other, trees, rfl, one, all⟩

theorem isAssignable_of_edited {e : Expr ι} {tree : Expr κ} (edited : e.Edited allows tree)
    (assignable : e.isAssignable = true) : tree.isAssignable = true := by
  cases e with
  | name n text =>
    obtain ⟨note, next, rfl, -⟩ := edited
    rfl
  | member n object property computed =>
    obtain ⟨note, first, second, rfl, -⟩ := edited
    rfl
  | _ => simp [Expr.isAssignable] at assignable

theorem EditedList.forall {list : List (Expr ι)} {others : List (Expr κ)} {holds : Expr κ → Prop}
    (edited : Expr.EditedList allows list others)
    (each : ∀ e ∈ list, ∀ {tree}, e.Edited allows tree → holds tree) :
    ∀ tree ∈ others, holds tree := by
  intro tree member
  obtain ⟨e, among, one⟩ := exists_of_forall₂ (Expr.editedList_iff.mp edited) tree member
  exact each e among one

include readable

theorem kept_name {text : String} {next : String} (spelled : (Kind.word text).Spelled)
    (free : isReserved text = false)
    (kept : Kept allows "Identifier" "name" (.string text) (.string next)) :
    (Kind.word next).Spelled ∧ isReserved next = false := by
  rcases kept with same | written
  · cases same
    exact ⟨spelled, free⟩
  · exact readable.name written

theorem printable_of_edited {e : Expr ι} (printable : PrintableWith Literal e) {tree : Expr κ}
    (edited : e.Edited allows tree) : PrintableWith numbers tree := by
  induction printable generalizing tree with
  | name spelled free =>
    obtain ⟨note, next, rfl, kept⟩ := edited
    have names := kept_name readable spelled free kept
    exact .name names.1 names.2
  | number literal =>
    obtain ⟨note, next, rfl, kept⟩ := edited
    exact .number (readable.number literal kept)
  | string spelled =>
    obtain ⟨note, rfl⟩ := edited
    exact .string spelled
  | boolean =>
    obtain ⟨note, rfl⟩ := edited
    exact .boolean
  | null =>
    obtain ⟨note, rfl⟩ := edited
    exact .null
  | array _ ih =>
    obtain ⟨note, others, rfl, inside⟩ := edited
    obtain ⟨trees, rfl, all⟩ := editedElements_some inside
    exact .array (EditedList.forall all ih)
  | binary _ _ first second =>
    obtain ⟨note, next, a, b, rfl, -, left, right⟩ := edited
    exact .binary (first left) (second right)
  | unary _ ih =>
    obtain ⟨note, inner, rfl, inside⟩ := edited
    exact .unary (ih inside)
  | update _ ih =>
    obtain ⟨note, inner, rfl, inside⟩ := edited
    exact .update (ih inside)
  | assignment assignable _ _ first second =>
    obtain ⟨note, a, b, rfl, left, right⟩ := edited
    exact .assignment (isAssignable_of_edited left assignable) (first left) (second right)
  | conditional _ _ _ condition first second =>
    obtain ⟨note, a, b, d, rfl, test, left, right⟩ := edited
    exact .conditional (condition test) (first left) (second right)
  | sequence _ ih =>
    obtain ⟨note, others, rfl, inside⟩ := edited
    have members := EditedList.forall inside ih
    obtain ⟨a, _, rfl, -, b, more, rfl, -, -⟩ := inside
    exact .sequence members
  | call _ _ callee arguments =>
    obtain ⟨note, a, others, rfl, first, inside⟩ := edited
    exact .call (callee first) (EditedList.forall inside arguments)
  | dot _ spelled ih =>
    obtain ⟨note, a, b, rfl, object, property⟩ := edited
    obtain ⟨mark, next, rfl, kept⟩ := property
    refine .dot (ih object) ?_
    rcases kept with same | written
    · cases same
      exact spelled
    · exact (readable.name written).1
  | bracket _ _ object index =>
    obtain ⟨note, a, b, rfl, first, second⟩ := edited
    exact .bracket (object first) (index second)

theorem printableName_of_edited {e : Expr ι} (name : PrintableName e) {tree : Expr κ}
    (edited : e.Edited allows tree) : PrintableName tree := by
  cases name with
  | intro spelled free =>
    obtain ⟨note, next, rfl, kept⟩ := edited
    have names := kept_name readable spelled free kept
    exact .intro names.1 names.2

omit readable in
theorem dangles_of_edited {s : Stmt ι} {tree : Stmt κ} (edited : s.Edited allows tree) :
    tree.dangles = s.dangles := by
  induction s using Stmt.induct generalizing tree with
  | branch n test consequent alternate _ ih =>
    obtain ⟨note, a, b, d, rfl, -, -, other⟩ := edited
    cases alternate with
    | none =>
      obtain rfl : d = none := other
      rfl
    | some inner =>
      obtain ⟨next, rfl, inside⟩ := other
      have same : next.dangles = inner.dangles := ih inner rfl inside
      exact same
  | declaration =>
    obtain ⟨note, a, b, rfl, -⟩ := edited
    rfl
  | function =>
    obtain ⟨note, a, b, d, rfl, -⟩ := edited
    rfl
  | block | ret | expression =>
    obtain ⟨note, a, rfl, -⟩ := edited
    rfl
  | empty =>
    obtain ⟨note, rfl⟩ := edited
    rfl

theorem printableOption_of_edited {entry : Option (Expr ι)} {other : Option (Expr κ)}
    (printable : ∀ e ∈ entry, PrintableWith Literal e)
    (edited : Expr.EditedOption allows entry other) : ∀ e ∈ other, PrintableWith numbers e := by
  cases entry with
  | none =>
    obtain rfl : other = none := edited
    simp
  | some e =>
    obtain ⟨next, rfl, inside⟩ := edited
    simpa using printable_of_edited readable (printable e rfl) inside

omit readable in
theorem forall_of_editedStmts {list : List (Stmt ι)} {others : List (Stmt κ)}
    {holds : Stmt κ → Prop} (edited : Stmt.EditedList allows list others)
    (each : ∀ s ∈ list, ∀ {tree}, s.Edited allows tree → holds tree) :
    ∀ tree ∈ others, holds tree := by
  intro tree member
  obtain ⟨s, among, one⟩ := exists_of_forall₂ (Stmt.editedList_iff.mp edited) tree member
  exact each s among one

theorem printableStmt_of_edited {s : Stmt ι} (printable : PrintableStmtWith Literal s)
    {tree : Stmt κ} (edited : s.Edited allows tree) : PrintableStmtWith numbers tree := by
  induction printable generalizing tree with
  | declaration some names values =>
    obtain ⟨note, next, others, rfl, -, all⟩ := edited
    have each : ∀ other ∈ others,
        PrintableName other.target ∧ ∀ e ∈ other.value, PrintableWith numbers e := by
      intro other member
      obtain ⟨d, among, one⟩ := exists_of_forall₂ all other member
      exact ⟨printableName_of_edited readable (names d among) one.target,
        printableOption_of_edited readable (values d among) one.value⟩
    refine .declaration ?_ (fun d member => (each d member).1) fun d member => (each d member).2
    rintro rfl
    exact some (List.forall₂_nil_right_iff.mp all)
  | function name names _ ih =>
    obtain ⟨note, first, inner, others, rfl, head, inside⟩ := edited
    exact .function (printableName_of_edited readable name head.name)
      (EditedList.forall head.parameters fun e member =>
        printableName_of_edited readable (names e member))
      (forall_of_editedStmts inside ih)
  | block _ ih =>
    obtain ⟨note, others, rfl, inside⟩ := edited
    exact .block (forall_of_editedStmts inside ih)
  | ret inner =>
    obtain ⟨note, other, rfl, inside⟩ := edited
    exact .ret (printableOption_of_edited readable inner inside)
  | expression inner =>
    obtain ⟨note, other, rfl, inside⟩ := edited
    exact .expression (printable_of_edited readable inner inside)
  | branch condition _ ih =>
    obtain ⟨note, a, b, d, rfl, test, positive, rfl⟩ := edited
    exact .branch (printable_of_edited readable condition test) (ih positive)
  | choice condition _ closed _ ihPositive ihNegative =>
    obtain ⟨note, a, b, d, rfl, test, positive, next, rfl, negative⟩ := edited
    exact .choice (printable_of_edited readable condition test) (ihPositive positive)
      (by rw [dangles_of_edited positive, closed]) (ihNegative negative)
  | empty =>
    obtain ⟨note, rfl⟩ := edited
    exact .empty

end Printable

section Nothing

theorem eq_of_kept {kind field : String} {value other : Value}
    (kept : Kept Value.nothing kind field value other) : other = value := by
  rcases kept with same | written
  · exact same
  · exact absurd written id

theorem map_bare_of_edited {list : List (Expr ι)} {others : List (Expr κ)}
    (edited : Expr.EditedList Value.nothing list others)
    (each : ∀ e ∈ list, ∀ {tree : Expr κ}, e.Edited Value.nothing tree → tree.bare = e.bare) :
    others.map Expr.bare = list.map Expr.bare := by
  induction list generalizing others with
  | nil =>
    rw [Expr.EditedList] at edited
    rw [edited]
    rfl
  | cons e rest ih =>
    obtain ⟨other, more, rfl, one, behind⟩ := edited
    obtain ⟨first, after⟩ := List.forall_mem_cons.mp each
    rw [List.map_cons, List.map_cons, first one, ih behind after]

theorem bare_of_edited {e : Expr ι} (printable : PrintableWith Literal e) {tree : Expr κ}
    (edited : e.Edited Value.nothing tree) : tree.bare = e.bare := by
  induction printable generalizing tree with
  | name =>
    obtain ⟨note, next, rfl, kept⟩ := edited
    cases eq_of_kept kept
    rfl
  | number literal =>
    obtain ⟨note, next, rfl, kept⟩ := edited
    obtain ⟨spelling, rfl, -, real⟩ := literal
    cases eq_of_kept kept
    rw [if_pos (Number.agrees_self real)]
    rfl
  | string | boolean | null =>
    obtain ⟨note, rfl⟩ := edited
    rfl
  | array _ ih =>
    obtain ⟨note, others, rfl, inside⟩ := edited
    obtain ⟨trees, rfl, all⟩ := editedElements_some inside
    have same := congrArg (List.map some) (map_bare_of_edited all ih)
    rw [Expr.bare_array, Expr.bare_array, List.map_map, List.map_map]
    rw [List.map_map, List.map_map] at same
    exact congrArg _ same
  | binary _ _ first second =>
    obtain ⟨note, next, a, b, rfl, kept, left, right⟩ := edited
    rcases kept with rfl | ⟨-, -, written⟩
    · rw [Expr.bare_binary, Expr.bare_binary, first left, second right]
    · exact absurd written id
  | unary _ ih =>
    obtain ⟨note, inner, rfl, inside⟩ := edited
    rw [Expr.bare_unary, Expr.bare_unary, ih inside]
  | update _ ih =>
    obtain ⟨note, inner, rfl, inside⟩ := edited
    rw [Expr.bare_update, Expr.bare_update, ih inside]
  | assignment _ _ _ first second =>
    obtain ⟨note, a, b, rfl, left, right⟩ := edited
    rw [Expr.bare_assignment, Expr.bare_assignment, first left, second right]
  | conditional _ _ _ condition first second =>
    obtain ⟨note, a, b, d, rfl, test, left, right⟩ := edited
    rw [Expr.bare_conditional, Expr.bare_conditional, condition test, first left, second right]
  | sequence _ ih =>
    obtain ⟨note, others, rfl, inside⟩ := edited
    rw [Expr.bare_sequence, Expr.bare_sequence, map_bare_of_edited inside ih]
  | call _ _ callee arguments =>
    obtain ⟨note, a, others, rfl, first, inside⟩ := edited
    rw [Expr.bare_call, Expr.bare_call, callee first, map_bare_of_edited inside arguments]
  | dot _ _ ih =>
    obtain ⟨note, a, b, rfl, object, property⟩ := edited
    obtain ⟨mark, next, rfl, kept⟩ := property
    cases eq_of_kept kept
    rw [Expr.bare_member, Expr.bare_member, ih object]
    rfl
  | bracket _ _ object index =>
    obtain ⟨note, a, b, rfl, first, second⟩ := edited
    rw [Expr.bare_member, Expr.bare_member, object first, index second]

theorem bare_of_editedName {e : Expr ι} (name : PrintableName e) {tree : Expr κ}
    (edited : e.Edited Value.nothing tree) : tree.bare = e.bare := by
  cases name with
  | intro =>
    obtain ⟨note, next, rfl, kept⟩ := edited
    cases eq_of_kept kept
    rfl

theorem bareOption_of_edited {entry : Option (Expr ι)} {other : Option (Expr κ)}
    (printable : ∀ e ∈ entry, PrintableWith Literal e)
    (edited : Expr.EditedOption Value.nothing entry other) :
    other.map Expr.bare = entry.map Expr.bare := by
  cases entry with
  | none =>
    obtain rfl : other = none := edited
    rfl
  | some e =>
    obtain ⟨next, rfl, inside⟩ := edited
    exact congrArg some (bare_of_edited (printable e rfl) inside)

theorem map_bareStmt_of_edited {list : List (Stmt ι)} {others : List (Stmt κ)}
    (edited : Stmt.EditedList Value.nothing list others)
    (each : ∀ s ∈ list, ∀ {tree : Stmt κ}, s.Edited Value.nothing tree → tree.bare = s.bare) :
    others.map Stmt.bare = list.map Stmt.bare := by
  induction list generalizing others with
  | nil =>
    rw [Stmt.EditedList] at edited
    rw [edited]
    rfl
  | cons s rest ih =>
    obtain ⟨other, more, rfl, one, behind⟩ := edited
    obtain ⟨first, after⟩ := List.forall_mem_cons.mp each
    rw [List.map_cons, List.map_cons, first one, ih behind after]

theorem bareStmt_of_edited {s : Stmt ι} (printable : PrintableStmtWith Literal s) {tree : Stmt κ}
    (edited : s.Edited Value.nothing tree) : tree.bare = s.bare := by
  induction printable generalizing tree with
  | @declaration n kind list some names values =>
    obtain ⟨note, next, others, rfl, kept, all⟩ := edited
    have same : next = kind := by
      have text := Value.string.inj (eq_of_kept kept)
      have read := congrArg DeclarationKind.ofText? text
      rw [DeclarationKind.ofText?_text, DeclarationKind.ofText?_text] at read
      exact Option.some.inj read
    subst same
    have each : others.map Declarator.bare = list.map Declarator.bare := by
      clear some
      induction all with
      | nil => rfl
      | cons one _ ih =>
        obtain ⟨name, restNames⟩ := List.forall_mem_cons.mp names
        obtain ⟨value, restValues⟩ := List.forall_mem_cons.mp values
        rw [List.map_cons, List.map_cons, ih restNames restValues, Declarator.bare, Declarator.bare,
          bare_of_editedName name one.target, bareOption_of_edited value one.value]
    rw [Stmt.bare_declaration, Stmt.bare_declaration, each]
  | @function n m original body name names _ ih =>
    obtain ⟨note, first, inner, others, rfl, head, inside⟩ := edited
    have same : first.bare = original.bare := by
      unfold FunctionHead.bare
      rw [bare_of_editedName name head.name, map_bare_of_edited head.parameters fun e member =>
        bare_of_editedName (names e member), Value.bool.inj (eq_of_kept head.isAsync),
        Value.bool.inj (eq_of_kept head.isGenerator)]
    rw [Stmt.bare_function, Stmt.bare_function, same, map_bareStmt_of_edited inside ih]
  | block _ ih =>
    obtain ⟨note, others, rfl, inside⟩ := edited
    rw [Stmt.bare_block, Stmt.bare_block, map_bareStmt_of_edited inside ih]
  | ret inner =>
    obtain ⟨note, other, rfl, inside⟩ := edited
    rw [Stmt.bare_ret, Stmt.bare_ret, bareOption_of_edited inner inside]
  | expression inner =>
    obtain ⟨note, other, rfl, inside⟩ := edited
    rw [Stmt.bare_expression, Stmt.bare_expression, bare_of_edited inner inside]
  | branch condition _ ih =>
    obtain ⟨note, a, b, d, rfl, test, positive, rfl⟩ := edited
    rw [Stmt.bare_branch, Stmt.bare_branch, bare_of_edited condition test, ih positive]
    rfl
  | choice condition _ _ _ ihPositive ihNegative =>
    obtain ⟨note, a, b, d, rfl, test, positive, next, rfl, negative⟩ := edited
    rw [Stmt.bare_branch, Stmt.bare_branch, bare_of_edited condition test, ihPositive positive,
      Option.map_some, Option.map_some, ihNegative negative]
  | empty =>
    obtain ⟨note, rfl⟩ := edited
    rfl

end Nothing

end Script

end Arborist

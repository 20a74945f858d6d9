import Mathlib
import Arborist.Proofs.Script.Neighbours
import Arborist.Proofs.Script.Rows

/-!
Literals without a value. A hexadecimal literal of more than 64 bits is read as no number, and a tree
that holds one is written with the word `NaN` in its place. So the tree of any accepted text is
written as another one: all numbers of that one have values, and it is read as itself.
-/

namespace Arborist.Script

open Token (Kind)

variable {ι κ : Type}

/-- A number with the spelling that it was read from, with a value or without. -/
def Spelt (value : Number) (raw : Option String) : Prop :=
  ∃ spelling, raw = some spelling ∧ (Kind.number value spelling).Spelled

theorem exists_on_members {α : Type} {related : α → α → Prop} {list : List α}
    (each : ∀ a ∈ list, ∃ b, related a b) : ∃ f : α → α, ∀ a ∈ list, related a (f a) := by
  have total (a : α) : ∃ b, a ∈ list → related a b := by
    by_cases member : a ∈ list
    · obtain ⟨b, holds⟩ := each a member
      exact ⟨b, fun _ => holds⟩
    · exact ⟨a, fun inside => absurd inside member⟩
  choose f holds using total
  exact ⟨f, holds⟩

namespace Expr

/-- The second expression is written as the first one, and it is read as itself. -/
structure Renders (e other : Expr ι) : Prop where
  stable : other.Stable Literal
  written : other.write = e.write
  parens : other.needsParens = e.needsParens
  assignable : e.isAssignable = true → other.isAssignable = true

theorem Stable.renders {e : Expr ι} (stable : e.Stable Literal) : e.Renders e :=
  ⟨stable, rfl, rfl, id⟩

theorem Stable.rendersAs {e other : Expr ι} (stable : other.Stable Literal)
    (written : other.write = e.write) (number : other.isNumber = e.isNumber)
    (assignable : other.isAssignable = e.isAssignable) : e.Renders other where
  stable := stable
  written := written
  parens := by simp only [needsParens, textAt, number, written]
  assignable := fun target => assignable.trans target

theorem renders_nan (n : ι) : (number n .nan none).Renders (name n "NaN") where
  stable := ⟨.name ⟨'N', ['a', 'N'], rfl, by decide, by decide⟩ (by decide), rfl⟩
  written := rfl
  parens := by
    have unsigned : Text.beginsWith "NaN" "-" = false := by decide
    have letters : "NaN".toList.all Char.isDigit = false := by decide
    have tight : ¬ Level.primary < Level.member := by decide
    simp only [needsParens, isNumber, textAt, write, writeNumber, Number.display, Option.getD_none,
      Written.atLevel, unsigned, letters, tight, if_false, Bool.and_false, Bool.or_false,
      Bool.false_eq_true]
  assignable := by simp [isAssignable]

theorem renders_number (n : ι) {value : Number} {raw : Option String} (spelt : Spelt value raw) :
    ∃ other, (number n value (if value.agrees value then raw else none)).Renders other := by
  obtain ⟨spelling, rfl, spelled⟩ := spelt
  by_cases real : value = .nan
  · subst real
    exact ⟨_, renders_nan n⟩
  · rw [if_pos (Number.agrees_self real)]
    refine ⟨_, (stable_number ⟨spelled, ?_⟩).renders⟩
    rintro _ _ ⟨⟩
    exact ⟨spelling, rfl, spelled, real⟩

theorem writeElements_some (list : List (Expr ι)) :
    writeElements (list.map some) = writeList list := by
  induction list with
  | nil => rfl
  | cons e rest ih => rw [List.map_cons, writeElements, writeList, ih]

theorem writeList_of_renders {list : List (Expr ι)} {f : Expr ι → Expr ι}
    (renders : ∀ e ∈ list, e.Renders (f e)) : writeList (list.map f) = writeList list := by
  refine writeList_congr ?_
  rw [List.map_map]
  exact List.map_congr_left fun e member => (renders e member).written

theorem splice_ne_binary (left right first second : Expr Unit) (operator : BinaryOperator) :
    splice left right ≠ .binary () operator first second := by
  cases left <;> simp [splice]

theorem write_dot (n m : ι) (object : Expr ι) (text : String) :
    (member n object (.name m text) false).write =
      ⟨(if object.needsParens then parenthesized (object.write.atLevel Level.member)
        else object.write.atLevel Level.member) ++ "." ++ text, Level.member⟩ := rfl

namespace Renders

variable {a b d a' b' d' : Expr ι} {list : List (Expr ι)} {f : Expr ι → Expr ι} (n : ι)

theorem array (renders : ∀ e ∈ list, e.Renders (f e)) :
    (Expr.array n (list.map some)).Renders (.array n ((list.map f).map some)) := by
  have stable := List.forall_mem_map.2 fun e member => (renders e member).stable
  refine Stable.rendersAs ⟨.array fun e member => (stable e member).printable, ?_⟩ ?_ rfl rfl
  · rw [reread_array, bare_array, ← map_reread_of_stable stable]
    simp
  · rw [write, write, writeElements_some, writeElements_some, writeList_of_renders renders]

theorem binary {operator : BinaryOperator} (notComma : operator ≠ .comma) (one : a.Renders a')
    (two : b.Renders b') : (Expr.binary n operator a b).Renders (.binary n operator a' b') := by
  refine Stable.rendersAs ⟨.binary one.stable.printable two.stable.printable, ?_⟩ ?_ rfl rfl
  · simp [notComma, one.stable.same, two.stable.same]
  · simp only [write, one.written, two.written]

theorem unary (operator : UnaryOperator) (one : a.Renders a') :
    (Expr.unary n operator a).Renders (.unary n operator a') := by
  refine Stable.rendersAs ⟨.unary one.stable.printable, ?_⟩ ?_ rfl rfl
  · simp [one.stable.same]
  · simp only [write, one.written]

theorem update (operator : UpdateOperator) (before : Bool) (one : a.Renders a') :
    (Expr.update n operator before a).Renders (.update n operator before a') := by
  refine Stable.rendersAs ⟨.update one.stable.printable, ?_⟩ ?_ rfl rfl
  · simp [one.stable.same]
  · simp only [write, one.written]

theorem assignment (operator : AssignmentOperator) (target : a.isAssignable = true)
    (one : a.Renders a') (two : b.Renders b') :
    (Expr.assignment n operator a b).Renders (.assignment n operator a' b') := by
  refine Stable.rendersAs ⟨.assignment (one.assignable target) one.stable.printable
    two.stable.printable, ?_⟩ ?_ rfl rfl
  · simp [one.stable.same, two.stable.same]
  · simp only [write, one.written, two.written]

theorem conditional (one : a.Renders a') (two : b.Renders b') (three : d.Renders d') :
    (Expr.conditional n a b d).Renders (.conditional n a' b' d') := by
  refine Stable.rendersAs ⟨.conditional one.stable.printable two.stable.printable
    three.stable.printable, ?_⟩ ?_ rfl rfl
  · simp [one.stable.same, two.stable.same, three.stable.same]
  · simp only [write, one.written, two.written, three.written]

theorem sequence (renders : ∀ e ∈ a :: b :: list, e.Renders (f e)) :
    (Expr.sequence n (a :: b :: list)).Renders (.sequence n ((a :: b :: list).map f)) := by
  have stable := List.forall_mem_map.2 fun e member => (renders e member).stable
  refine Stable.rendersAs ⟨.sequence fun e member => (stable e member).printable, ?_⟩ ?_ rfl rfl
  · rw [reread_sequence, bare_sequence, map_reread_of_stable stable]
  · rw [write, write, writeList_of_renders renders]

theorem call (one : a.Renders a') (renders : ∀ e ∈ list, e.Renders (f e)) :
    (Expr.call n a list).Renders (.call n a' (list.map f)) := by
  have stable := List.forall_mem_map.2 fun e member => (renders e member).stable
  refine Stable.rendersAs ⟨.call one.stable.printable fun e member => (stable e member).printable,
    ?_⟩ ?_ rfl rfl
  · rw [reread_call, bare_call, one.stable.same, map_reread_of_stable stable]
  · simp only [write, one.written, writeList_of_renders renders]

theorem dot (m : ι) {text : String} (spelled : (Kind.word text).Spelled) (one : a.Renders a') :
    (member n a (.name m text) false).Renders (member n a' (.name m text) false) := by
  refine Stable.rendersAs ⟨.dot one.stable.printable spelled, ?_⟩ ?_ rfl rfl
  · simp [one.stable.same]
  · rw [write_dot, write_dot, one.written, one.parens]

theorem bracket (one : a.Renders a') (two : b.Renders b') :
    (member n a b true).Renders (member n a' b' true) := by
  refine Stable.rendersAs ⟨.bracket one.stable.printable two.stable.printable, ?_⟩ ?_ rfl rfl
  · simp [one.stable.same, two.stable.same]
  · simp only [write, one.written, two.written, if_true]

end Renders

/-- A tree that was read and then left alone is written as one whose numbers have values. -/
theorem exists_renders {e : Expr ι} (printable : PrintableWith Spelt e) (same : e.reread = e.bare)
    {tree : Expr κ} (edited : e.Edited Value.nothing tree) : ∃ other, tree.Renders other := by
  induction printable generalizing tree with
  | name spelled free =>
    obtain ⟨note, next, rfl, kept⟩ := edited
    cases eq_of_kept kept
    exact ⟨_, Stable.renders ⟨.name spelled free, rfl⟩⟩
  | number spelt =>
    obtain ⟨note, next, rfl, kept⟩ := edited
    cases eq_of_kept kept
    exact renders_number note spelt
  | string spelled =>
    obtain ⟨note, rfl⟩ := edited
    exact ⟨_, Stable.renders ⟨.string spelled, same⟩⟩
  | boolean =>
    obtain ⟨note, rfl⟩ := edited
    exact ⟨_, Stable.renders ⟨.boolean, rfl⟩⟩
  | null =>
    obtain ⟨note, rfl⟩ := edited
    exact ⟨_, Stable.renders ⟨.null, rfl⟩⟩
  | array _ ih =>
    obtain ⟨note, others, rfl, inside⟩ := edited
    obtain ⟨trees, rfl, all⟩ := editedElements_some inside
    simp only [reread_array, bare_array, array.injEq, true_and, List.map_map, List.map_inj_left,
      Function.comp_apply, Option.map_some, Option.some.injEq] at same
    obtain ⟨f, renders⟩ :=
      exists_on_members (EditedList.forall all fun e member _ => ih e member (same e member))
    exact ⟨_, .array note renders⟩
  | @binary n operator left right _ _ first second =>
    obtain ⟨note, next, a, b, rfl, kept, editedLeft, editedRight⟩ := edited
    obtain rfl : next = operator := kept.resolve_right fun written => written.2.2
    have notComma : next ≠ .comma := by
      rintro rfl
      rw [reread_binary, if_pos rfl] at same
      exact absurd same (splice_ne_binary _ _ _ _ _)
    simp only [reread_binary, notComma, if_false, bare_binary, binary.injEq, true_and] at same
    obtain ⟨a', one⟩ := first same.1 editedLeft
    obtain ⟨b', two⟩ := second same.2 editedRight
    exact ⟨_, .binary note notComma one two⟩
  | @unary n operator argument _ ih =>
    obtain ⟨note, inner, rfl, inside⟩ := edited
    simp only [reread_unary, bare_unary, unary.injEq, true_and] at same
    obtain ⟨other, one⟩ := ih same inside
    exact ⟨_, .unary note operator one⟩
  | @update n operator before argument _ ih =>
    obtain ⟨note, inner, rfl, inside⟩ := edited
    simp only [reread_update, bare_update, update.injEq, true_and] at same
    obtain ⟨other, one⟩ := ih same inside
    exact ⟨_, .update note operator before one⟩
  | @assignment n operator target value assignable _ _ first second =>
    obtain ⟨note, a, b, rfl, left, right⟩ := edited
    simp only [reread_assignment, bare_assignment, assignment.injEq, true_and] at same
    obtain ⟨a', one⟩ := first same.1 left
    obtain ⟨b', two⟩ := second same.2 right
    exact ⟨_, .assignment note operator (isAssignable_of_edited left assignable) one two⟩
  | conditional _ _ _ condition first second =>
    obtain ⟨note, a, b, d, rfl, test, left, right⟩ := edited
    simp only [reread_conditional, bare_conditional, conditional.injEq, true_and] at same
    obtain ⟨a', one⟩ := condition same.1 test
    obtain ⟨b', two⟩ := first same.2.1 left
    obtain ⟨d', three⟩ := second same.2.2 right
    exact ⟨_, .conditional note one two three⟩
  | sequence _ ih =>
    obtain ⟨note, others, rfl, inside⟩ := edited
    rw [reread_sequence, bare_sequence, sequence.injEq, List.map_inj_left] at same
    obtain ⟨f, renders⟩ :=
      exists_on_members (EditedList.forall inside fun e member _ => ih e member (same.2 e member))
    obtain ⟨a, _, rfl, -, b, more, rfl, -, -⟩ := inside
    exact ⟨_, .sequence note renders⟩
  | call _ _ callee arguments =>
    obtain ⟨note, a, others, rfl, first, inside⟩ := edited
    simp only [reread_call, bare_call, call.injEq, true_and, List.map_inj_left] at same
    obtain ⟨a', one⟩ := callee same.1 first
    obtain ⟨f, renders⟩ := exists_on_members
      (EditedList.forall inside fun e member _ => arguments e member (same.2 e member))
    exact ⟨_, .call note one renders⟩
  | @dot n m object text _ spelled ih =>
    obtain ⟨note, a, b, rfl, first, mark, next, rfl, kept⟩ := edited
    cases eq_of_kept kept
    simp only [reread_member, bare_member, member.injEq, true_and, and_true] at same
    obtain ⟨a', one⟩ := ih same.1 first
    exact ⟨_, .dot note mark spelled one⟩
  | bracket _ _ object index =>
    obtain ⟨note, a, b, rfl, first, second⟩ := edited
    simp only [reread_member, bare_member, member.injEq, true_and, and_true] at same
    obtain ⟨a', one⟩ := object same.1 first
    obtain ⟨b', two⟩ := index same.2 second
    exact ⟨_, .bracket note one two⟩

end Expr

theorem PrintableName.stable {e : Expr ι} (name : PrintableName e)
    (numbers : Number → Option String → Prop) : e.Stable numbers := by
  cases name with
  | intro spelled free => exact ⟨.name spelled free, rfl⟩

structure Declarator.Renders (d other : Declarator ι) : Prop where
  stable : other.Stable Literal
  text : other.text = d.text

theorem Declarator.exists_renders {d : Declarator ι} (stable : d.Stable Spelt) {tree : Declarator κ}
    (edited : d.Edited Value.nothing tree) : ∃ other, tree.Renders other := by
  obtain ⟨note, target, value⟩ := tree
  obtain ⟨m, original, initial⟩ := d
  have name := printableName_of_edited readable_nothing stable.name edited.target
  have same := (name.stable Literal).same
  cases initial with
  | none =>
    obtain rfl : value = none := edited.value
    refine ⟨⟨note, target, none⟩, ⟨name, by simp, ?_⟩, rfl⟩
    simp [Declarator.reread, Declarator.bare, same]
  | some e =>
    obtain ⟨next, rfl, inside⟩ : ∃ next, value = some next ∧ e.Edited Value.nothing next := edited.value
    have again : e.reread = e.bare := by
      simpa [Declarator.reread, Declarator.bare] using (Declarator.mk.inj stable.same).2.2
    obtain ⟨other, one⟩ := Expr.exists_renders (stable.value e rfl) again inside
    refine ⟨⟨note, target, some other⟩, ⟨name, by simpa using one.stable.printable, ?_⟩, ?_⟩
    · simp [Declarator.reread, Declarator.bare, same, one.stable.same]
    · simp only [Declarator.text, Expr.textAt, one.written]

namespace Stmt

/-- The second statement is written as the first one at any depth, with as many statements in it, and
it is read as itself. -/
structure Renders (s other : Stmt Lines) : Prop where
  stable : other.Stable Literal
  noted : Noted id s other
  text : ∀ width depth, other.text width depth = s.text width depth
  dangles : other.dangles = s.dangles
  total : other.total = s.total

section Lists

variable {list : List (Stmt Lines)} {f : Stmt Lines → Stmt Lines}
  (renders : ∀ s ∈ list, s.Renders (f s))

include renders

theorem listText_of_renders (width depth : Nat) (previous : Option Lines) :
    listText width depth previous (list.map f) = listText width depth previous list := by
  induction list generalizing previous with
  | nil => rfl
  | cons s rest ih =>
    obtain ⟨first, others⟩ := List.forall_mem_cons.mp renders
    have note : (f s).note = s.note := first.noted.note
    simp only [List.map_cons, listText, note, first.text, ih others]

theorem pairsList_of_renders : pairsList none (list.map f) = pairsList none list := by
  have noted : List.Forall₂ (Noted id) list (list.map f) :=
    List.forall₂_map_right_iff.2 (List.forall₂_same.2 fun s member => (renders s member).noted)
  simpa using pairsList_noted noted none

theorem totalList_of_renders : totalList (list.map f) = totalList list := by
  induction list with
  | nil => rfl
  | cons s rest ih =>
    obtain ⟨first, others⟩ := List.forall_mem_cons.mp renders
    rw [List.map_cons, totalList, totalList, first.total, ih others]

theorem stable_of_renders : ∀ s ∈ list.map f, s.Stable Literal :=
  List.forall_mem_map.2 fun s member => (renders s member).stable

end Lists

theorem noted_of_eq {s other : Stmt Lines} (note : other.note = s.note) (pairs : other.pairs = s.pairs) :
    Noted id s other := ⟨note, by simpa using pairs⟩

namespace Renders

variable {s other t another : Stmt Lines} {test test' : Expr Lines} (note : Lines)

theorem declaration (kind : DeclarationKind) {list : List (Declarator Lines)}
    {f : Declarator Lines → Declarator Lines} (filled : list ≠ [])
    (renders : ∀ d ∈ list, d.Renders (f d)) :
    (Stmt.declaration note kind list).Renders (.declaration note kind (list.map f)) := by
  have stable := List.forall_mem_map.2 fun d member => (renders d member).stable
  have texts : (list.map f).map Declarator.text = list.map Declarator.text := by
    rw [List.map_map]
    exact List.map_congr_left fun d member => (renders d member).text
  refine ⟨⟨.declaration (by simpa using filled) (fun d member => (stable d member).name)
    (fun d member => (stable d member).value), ?_⟩, ⟨rfl, rfl⟩, fun width depth => ?_, rfl, rfl⟩
  · rw [reread, bare_declaration, List.map_congr_left fun d member => (stable d member).same]
  · rw [Stmt.text, Stmt.text, texts]

theorem function {head : FunctionHead Lines} (inner : Lines) {body : List (Stmt Lines)}
    {f : Stmt Lines → Stmt Lines} (title : PrintableName head.name)
    (titles : ∀ e ∈ head.parameters, PrintableName e) (renders : ∀ s ∈ body, s.Renders (f s)) :
    (Stmt.function note head inner body).Renders (.function note head inner (body.map f)) := by
  have stable := stable_of_renders renders
  refine ⟨⟨.function title titles fun s member => (stable s member).printable, ?_⟩,
    noted_of_eq rfl (pairsList_of_renders renders), fun width depth => ?_, rfl,
    congrArg (· + 1) (totalList_of_renders renders)⟩
  · rw [reread, rereadList_eq_map, bare_function, map_reread_of_stableStmts stable,
      FunctionHead.reread, FunctionHead.bare, (title.stable Literal).same,
      map_reread_of_stable fun e member => (titles e member).stable Literal]
  · rw [Stmt.text, Stmt.text, listText_of_renders renders, List.isEmpty_map]

theorem block {body : List (Stmt Lines)} {f : Stmt Lines → Stmt Lines}
    (renders : ∀ s ∈ body, s.Renders (f s)) :
    (Stmt.block note body).Renders (.block note (body.map f)) := by
  have stable := stable_of_renders renders
  refine ⟨⟨.block fun s member => (stable s member).printable, ?_⟩,
    noted_of_eq rfl (pairsList_of_renders renders), fun width depth => ?_, rfl,
    congrArg (· + 1) (totalList_of_renders renders)⟩
  · rw [reread, rereadList_eq_map, bare_block, map_reread_of_stableStmts stable]
  · rw [Stmt.text, Stmt.text, listText_of_renders renders, List.isEmpty_map]

theorem ret (one : test.Renders test') : (Stmt.ret note (some test)).Renders (.ret note (some test')) := by
  refine ⟨⟨.ret (by simpa using one.stable.printable), ?_⟩, ⟨rfl, rfl⟩, fun width depth => ?_, rfl, rfl⟩
  · rw [reread, bare_ret, Option.map_some, Option.map_some, one.stable.same]
  · rw [Stmt.text, Stmt.text, Expr.textAt, Expr.textAt, one.written]

theorem expression (one : test.Renders test') :
    (Stmt.expression note test).Renders (.expression note test') := by
  refine ⟨⟨.expression one.stable.printable, ?_⟩, ⟨rfl, rfl⟩, fun width depth => ?_, rfl, rfl⟩
  · rw [reread, bare_expression, one.stable.same]
  · rw [Stmt.text, Stmt.text, Expr.textAt, Expr.textAt, one.written]

theorem branch (one : test.Renders test') (two : s.Renders other) :
    (Stmt.branch note test s none).Renders (.branch note test' other none) := by
  refine ⟨⟨.branch one.stable.printable two.stable.printable, ?_⟩, ⟨rfl, ?_⟩,
    fun width depth => ?_, rfl, ?_⟩
  · rw [reread, bare_branch, one.stable.same, two.stable.same]
    rfl
  · rw [pairs, pairs, two.noted.pairs, List.map_append]
    rfl
  · rw [Stmt.text, Stmt.text, Expr.textAt, Expr.textAt, one.written, two.text]
  · rw [Stmt.total, Stmt.total, two.total]

theorem choice (one : test.Renders test') (closed : s.dangles = false) (two : s.Renders other)
    (three : t.Renders another) :
    (Stmt.branch note test s (some t)).Renders (.branch note test' other (some another)) := by
  refine ⟨⟨.choice one.stable.printable two.stable.printable (two.dangles.trans closed)
    three.stable.printable, ?_⟩, ⟨rfl, ?_⟩, fun width depth => ?_, three.dangles, ?_⟩
  · rw [reread, rereadElse, bare_branch, one.stable.same, two.stable.same, three.stable.same]
    rfl
  · rw [pairs, pairs, pairsElse, pairsElse, two.noted.pairs, three.noted.pairs, List.map_append]
  · rw [Stmt.text, Stmt.text, elseText, elseText, Expr.textAt, Expr.textAt, one.written, two.text,
      three.text]
  · rw [Stmt.total, Stmt.total, totalElse, totalElse, two.total, three.total]

end Renders

theorem exists_renders {s : Stmt ι} (printable : PrintableStmtWith Spelt s)
    (same : s.reread = s.bare) {tree : Stmt Lines} (edited : s.Edited Value.nothing tree) :
    ∃ other, tree.Renders other := by
  induction printable generalizing tree with
  | @declaration n kind list some names values =>
    obtain ⟨note, next, trees, rfl, -, all⟩ := edited
    rw [reread, bare_declaration, declaration.injEq, List.map_inj_left] at same
    have filled : trees ≠ [] := by
      rintro rfl
      exact some (List.forall₂_nil_right_iff.mp all)
    have each : ∀ tree ∈ trees, ∃ other, tree.Renders other := by
      intro tree member
      obtain ⟨d, among, one⟩ := exists_of_forall₂ all tree member
      exact Declarator.exists_renders ⟨names d among, values d among, same.2.2 d among⟩ one
    obtain ⟨f, renders⟩ := exists_on_members each
    exact ⟨_, .declaration note next filled renders⟩
  | @function n m original body name names _ ih =>
    obtain ⟨note, head, inner, trees, rfl, front, inside⟩ := edited
    rw [reread, rereadList_eq_map, bare_function, function.injEq, List.map_inj_left] at same
    obtain ⟨f, renders⟩ := exists_on_members
      (forall_of_editedStmts inside fun s member _ => ih s member (same.2.2.2 s member))
    have title := printableName_of_edited readable_nothing name front.name
    have titles : ∀ e ∈ head.parameters, PrintableName e :=
      EditedList.forall front.parameters fun e member =>
        printableName_of_edited readable_nothing (names e member)
    exact ⟨_, .function note inner title titles renders⟩
  | block _ ih =>
    obtain ⟨note, trees, rfl, inside⟩ := edited
    rw [reread, rereadList_eq_map, bare_block, block.injEq, List.map_inj_left] at same
    obtain ⟨f, renders⟩ := exists_on_members
      (forall_of_editedStmts inside fun s member _ => ih s member (same.2 s member))
    exact ⟨_, .block note renders⟩
  | @ret n argument inner =>
    obtain ⟨note, other, rfl, inside⟩ := edited
    cases argument with
    | none =>
      obtain rfl : other = none := inside
      exact ⟨.ret note none, ⟨.ret (by simp), rfl⟩, ⟨rfl, rfl⟩, fun _ _ => rfl, rfl, rfl⟩
    | some e =>
      obtain ⟨tree, rfl, inside⟩ : ∃ tree, other = some tree ∧ e.Edited Value.nothing tree := inside
      rw [reread, bare_ret, ret.injEq, Option.map_some, Option.map_some, Option.some.injEq] at same
      obtain ⟨next, one⟩ := Expr.exists_renders (inner e rfl) same.2 inside
      exact ⟨_, .ret note one⟩
  | expression inner =>
    obtain ⟨note, other, rfl, inside⟩ := edited
    rw [reread, bare_expression, expression.injEq] at same
    obtain ⟨next, one⟩ := Expr.exists_renders inner same.2 inside
    exact ⟨_, .expression note one⟩
  | branch condition _ ih =>
    obtain ⟨note, a, b, d, rfl, test, positive, rfl⟩ := edited
    rw [reread, bare_branch, branch.injEq] at same
    obtain ⟨a', one⟩ := Expr.exists_renders condition same.2.1 test
    obtain ⟨b', two⟩ := ih same.2.2.1 positive
    exact ⟨_, .branch note one two⟩
  | choice condition _ closed _ ihPositive ihNegative =>
    obtain ⟨note, a, b, d, rfl, test, positive, next, rfl, negative⟩ := edited
    rw [reread, rereadElse, bare_branch, branch.injEq, Option.map_some, Option.some.injEq] at same
    obtain ⟨a', one⟩ := Expr.exists_renders condition same.2.1 test
    obtain ⟨b', two⟩ := ihPositive same.2.2.1 positive
    obtain ⟨d', three⟩ := ihNegative same.2.2.2 negative
    exact ⟨_, .choice note one ((dangles_of_edited positive).trans closed) two three⟩
  | empty =>
    obtain ⟨note, rfl⟩ := edited
    exact ⟨.empty note, ⟨.empty, rfl⟩, ⟨rfl, rfl⟩, fun _ _ => rfl, rfl, rfl⟩

end Stmt

end Arborist.Script

import Mathlib
import Arborist.Proofs.Script.Reread
import Arborist.Proofs.Script.Soundness

/-!
The tokens of a written expression derive what it will be read as again. An expression can be
printed when its names are names, its numbers have the text of a number, and its lists have the
members that the grammar asks for; the parentheses are those of the writer.
-/

namespace Arborist.Script

open Token (Kind)
open Chunk (mark blank enclosed separated render endsLine Spells spells_nil spells_blank spells_token
  spells_single spells_append)

variable {ι : Type}

theorem scanString_escape {quote c d : Char} {rest text : List Char} {n : Nat}
    (escaped : Token.escapedChar? c = some d)
    (behind : Token.scanString quote rest = some (text, n)) :
    Token.scanString quote ('\\' :: c :: rest) = some (d :: text, n + 2) := by
  simp only [Token.scanString, escaped, behind]

theorem scanString_quoteChar {rest text : List Char} {n : Nat} (c : Char)
    (behind : Token.scanString '"' rest = some (text, n)) :
    Token.scanString '"' (quoteChar c ++ rest) = some (c :: text, n + (quoteChar c).length) := by
  unfold quoteChar
  split_ifs with mark slash feed ret tab zero
  case neg =>
    rw [List.singleton_append, Token.scanString_cons slash, if_neg mark, if_neg feed, behind]
    rfl
  all_goals
    subst c
    exact scanString_escape rfl behind

theorem spelled_quote (s : String) : (Kind.string s (quote s)).Spelled := by
  have scanned (cs : List Char) : Token.scanString '"' (cs.flatMap quoteChar ++ ['"']) =
      some (cs, (cs.flatMap quoteChar ++ ['"']).length) := by
    induction cs with
    | nil => rfl
    | cons c rest ih =>
      rw [List.flatMap_cons, List.append_assoc, scanString_quoteChar c ih]
      simp only [List.length_append, Option.some.injEq, Prod.mk.injEq, true_and]
      omega
  exact ⟨'"', s.toList.flatMap quoteChar ++ ['"'], by simp [quote], .inl rfl, scanned s.toList⟩
def NumberText (text : String) : Prop :=
  ∃ digits value, (Kind.number value digits).Spelled ∧ (text = digits ∨ text = "-" ++ digits)

/-- The expressions whose text can be read, with the numbers as asked. -/
inductive PrintableWith (numbers : Number → Option String → Prop) : Expr ι → Prop where
  | name {n : ι} {text : String} (spelled : (Kind.word text).Spelled)
      (free : isReserved text = false) : PrintableWith numbers (.name n text)
  | number {n : ι} {value : Number} {raw : Option String}
      (literal : numbers value raw) : PrintableWith numbers (.number n value raw)
  | string {n : ι} {value : String} {raw : Option String}
      (spelled : (Kind.string value (raw.getD (quote value))).Spelled) :
      PrintableWith numbers (.string n value raw)
  | boolean {n : ι} {value : Bool} : PrintableWith numbers (.boolean n value)
  | null {n : ι} : PrintableWith numbers (.null n)
  | array {n : ι} {list : List (Expr ι)} (members : ∀ e ∈ list, PrintableWith numbers e) :
      PrintableWith numbers (.array n (list.map some))
  | binary {n : ι} {operator : BinaryOperator} {left right : Expr ι}
      (first : PrintableWith numbers left) (second : PrintableWith numbers right) :
      PrintableWith numbers (.binary n operator left right)
  | unary {n : ι} {operator : UnaryOperator} {argument : Expr ι}
      (inner : PrintableWith numbers argument) : PrintableWith numbers (.unary n operator argument)
  | update {n : ι} {operator : UpdateOperator} {before : Bool} {argument : Expr ι}
      (inner : PrintableWith numbers argument) :
      PrintableWith numbers (.update n operator before argument)
  | assignment {n : ι} {operator : AssignmentOperator} {target value : Expr ι}
      (assignable : target.isAssignable = true) (first : PrintableWith numbers target)
      (second : PrintableWith numbers value) :
      PrintableWith numbers (.assignment n operator target value)
  | conditional {n : ι} {test consequent alternate : Expr ι} (condition : PrintableWith numbers test)
      (positive : PrintableWith numbers consequent) (negative : PrintableWith numbers alternate) :
      PrintableWith numbers (.conditional n test consequent alternate)
  | sequence {n : ι} {first second : Expr ι} {rest : List (Expr ι)}
      (members : ∀ e ∈ first :: second :: rest, PrintableWith numbers e) :
      PrintableWith numbers (.sequence n (first :: second :: rest))
  | call {n : ι} {callee : Expr ι} {arguments : List (Expr ι)} (inner : PrintableWith numbers callee)
      (members : ∀ e ∈ arguments, PrintableWith numbers e) :
      PrintableWith numbers (.call n callee arguments)
  | dot {n m : ι} {object : Expr ι} {text : String} (inner : PrintableWith numbers object)
      (spelled : (Kind.word text).Spelled) :
      PrintableWith numbers (.member n object (.name m text) false)
  | bracket {n : ι} {object property : Expr ι} (inner : PrintableWith numbers object)
      (index : PrintableWith numbers property) :
      PrintableWith numbers (.member n object property true)

theorem PrintableWith.imp {numbers others : Number → Option String → Prop}
    (weaker : ∀ {value raw}, numbers value raw → others value raw) {e : Expr ι}
    (printable : PrintableWith numbers e) : PrintableWith others e := by
  induction printable with
  | name spelled free => exact .name spelled free
  | number literal => exact .number (weaker literal)
  | string spelled => exact .string spelled
  | boolean => exact .boolean
  | null => exact .null
  | array _ ih => exact .array ih
  | binary _ _ first second => exact .binary first second
  | unary _ ih => exact .unary ih
  | update _ ih => exact .update ih
  | assignment assignable _ _ first second => exact .assignment assignable first second
  | conditional _ _ _ first second third => exact .conditional first second third
  | sequence _ ih => exact .sequence ih
  | call _ _ inner ih => exact .call inner ih
  | dot _ spelled ih => exact .dot ih spelled
  | bracket _ _ inner index => exact .bracket inner index

def Numeric (value : Number) (raw : Option String) : Prop := NumberText (raw.getD value.display)

abbrev Printable (e : Expr ι) : Prop := PrintableWith Numeric e

theorem Printable.endsInLine {e : Expr ι} (printable : Printable e) :
    Chunk.EndsInLine e.layout := by
  induction printable with
  | name | string | boolean | null =>
    exact Chunk.endsInLine_token _
  | number =>
    rw [layout_number, numberLayout]
    split
    · exact (Chunk.endsInLine_token _).cons _
    · exact Chunk.endsInLine_token _
  | array =>
    rw [layout_array]
    exact ((Chunk.endsInLine_token _).append _).cons _
  | binary _ _ _ right =>
    rw [layout_binary]
    exact (right.enclosed _).append _
  | unary _ ih =>
    rw [layout_unary]
    exact (ih.enclosed _).append _
  | @update n operator before argument _ ih =>
    rw [layout_update]
    cases before with
    | true => exact (ih.enclosed _).cons _
    | false => exact (Chunk.endsInLine_token _).append _
  | assignment _ _ _ _ value =>
    rw [layout_assignment]
    exact (((value.enclosed _).cons _).cons _).cons _ |>.append _
  | conditional _ _ _ _ _ negative =>
    rw [layout_conditional]
    exact (((((negative.enclosed _).cons _).cons _).cons _).append _).cons _ |>.cons _ |>.cons _
      |>.append _
  | @sequence n first second rest _ ih =>
    rw [layout_sequence, layoutList_eq_map]
    refine Chunk.endsInLine_separated (by simp) fun part member => ?_
    obtain ⟨e, inside, rfl⟩ := List.mem_map.mp member
    exact (ih e inside).enclosed _
  | call =>
    rw [layout_call]
    exact ((Chunk.endsInLine_token _).append _).cons _ |>.append _
  | dot =>
    rw [layout_dot]
    exact ((Chunk.endsInLine_token _).cons _).append _
  | bracket =>
    rw [layout_bracket]
    exact ((Chunk.endsInLine_token _).append _).cons _ |>.append _

def Unfolds (tree : Expr Place) (ts : List Token) : Prop :=
  ∃ place first rest us vs, tree = .sequence place (first :: rest) ∧ ts = us ++ vs ∧
    Derives (.expr Level.assignment first) us ∧ Derives (.parts rest) vs

/-- The tokens derive what the expression is read as, at the level at which it is written. -/
def Derivable (e : Expr ι) (ts : List Token) : Prop :=
  ∃ tree, tree.bare = e.reread ∧ Derives (.expr e.write.level tree) ts ∧
    (e.write.level = Level.sequence → Unfolds tree ts)

theorem Derivable.of_tight {e : Expr ι} {tree : Expr Place} {ts : List Token} (level : Level)
    (written : e.write.level = level) (tight : level ≠ Level.sequence)
    (derives : Derives (.expr level tree) ts) (same : tree.bare = e.reread) : Derivable e ts :=
  ⟨tree, same, written ▸ derives, fun loose => absurd (written.symm.trans loose) tight⟩

theorem Derives.enclosed {least : Level} (le : least ≤ Level.primary) {tree : Expr Place}
    {a b : Token} {ts : List Token} (opening : a.kind = .mark .openParen)
    (inner : Derives (.expr Level.sequence tree) ts) (closing : b.kind = .mark .closeParen) :
    ∃ outer, outer.bare = tree.bare ∧ Derives (.expr least outer) (a :: (ts ++ [b])) :=
  ⟨_, Expr.bare_withNote _ _, (Derives.paren opening inner closing).lower le⟩

theorem derives_enclosed {e : Expr Unit} {least : Level} (level : Level) (le : least ≤ Level.primary)
    {needs : Bool} (fine : needs = false → least ≤ level) {chunks : List Chunk}
    (inner : ∀ {us newline}, Spells us newline chunks →
      ∃ tree, tree.bare = e ∧ Derives (.expr level tree) us) {ts : List Token} {newline : Bool}
    (spells : Spells ts newline (enclosed needs chunks)) :
    ∃ tree, tree.bare = e ∧ Derives (.expr least tree) ts := by
  cases needs with
  | false =>
    obtain ⟨tree, same, derives⟩ := inner spells
    exact ⟨tree, same, derives.lower (fine rfl)⟩
  | true =>
    obtain ⟨a, us, rfl, opening, -, spells⟩ := spells_token.mp spells
    obtain ⟨us, vs, rfl, spelled, last⟩ := spells_append.mp spells
    obtain ⟨b, ws, rfl, closing, -, none⟩ := spells_token.mp last
    rw [spells_nil] at none
    subst none
    obtain ⟨tree, same, derives⟩ := inner spelled
    obtain ⟨outer, bare, whole⟩ :=
      Derives.enclosed le opening (derives.lower (Nat.zero_le level)) closing
    exact ⟨outer, bare.trans same, whole⟩

theorem derives_at {e : Expr ι}
    (derivable : ∀ {us newline}, Spells us newline e.layout → Derivable e us) {least : Level}
    (le : least ≤ Level.primary) {ts : List Token} {newline : Bool}
    (spells : Spells ts newline (e.layoutAt least)) :
    ∃ tree, tree.bare = e.reread ∧ Derives (.expr least tree) ts := by
  refine derives_enclosed e.write.level le ?_ ?_ spells
  · simp
  · intro us newline spelled
    obtain ⟨tree, same, derives, -⟩ := derivable spelled
    exact ⟨tree, same, derives⟩

section Members

variable {list : List (Expr ι)}
  (members : ∀ e ∈ list, ∀ {us newline}, Spells us newline e.layout → Derivable e us)

include members

theorem derives_items {ts : List Token} {newline : Bool}
    (spells : Spells ts newline (separated (list.map (Expr.layoutAt · Level.assignment)))) :
    ∃ trees : List (Expr Place), trees.map Expr.bare = list.map Expr.reread ∧
      Derives (.items trees) ts := by
  induction list generalizing ts newline with
  | nil =>
    rw [List.map_nil, separated, spells_nil] at spells
    exact ⟨[], rfl, spells ▸ .noItems⟩
  | cons e rest ih =>
    have first := fun {us : List Token} {newline : Bool}
      (spelled : Spells us newline (e.layoutAt Level.assignment)) =>
        derives_at (members e List.mem_cons_self) (by decide) spelled
    cases rest with
    | nil =>
      obtain ⟨tree, same, derives⟩ := first spells
      exact ⟨[tree], by simp [same], .oneItem derives⟩
    | cons next more =>
      obtain ⟨us, vs, rfl, spelled, others⟩ := spells_append.mp spells
      obtain ⟨t, ws, rfl, comma, -, others⟩ := spells_token.mp others
      obtain ⟨tree, same, derives⟩ := first spelled
      obtain ⟨trees, sames, items⟩ := ih
        (fun inner member => members inner (List.mem_cons_of_mem e member)) (spells_blank.mp others)
      exact ⟨tree :: trees, by rw [List.map_cons, List.map_cons, same, sames],
        .moreItems derives comma items⟩

theorem derives_parts (some : list ≠ []) {ts : List Token} {newline : Bool}
    (spells : Spells ts newline
      (mark .comma :: blank :: separated (list.map (Expr.layoutAt · Level.assignment)))) :
    ∃ trees : List (Expr Place), trees.map Expr.bare = list.map Expr.reread ∧
      Derives (.parts trees) ts := by
  induction list generalizing ts newline with
  | nil => exact absurd rfl some
  | cons e rest ih =>
    have first := fun {us : List Token} {newline : Bool}
      (spelled : Spells us newline (e.layoutAt Level.assignment)) =>
        derives_at (members e List.mem_cons_self) (by decide) spelled
    obtain ⟨t, ws, rfl, comma, -, others⟩ := spells_token.mp spells
    rw [spells_blank] at others
    cases rest with
    | nil =>
      obtain ⟨tree, same, derives⟩ := first others
      refine ⟨[tree], by simp [same], ?_⟩
      simpa using Derives.moreParts comma derives .noParts
    | cons next more =>
      obtain ⟨us, vs, rfl, spelled, others⟩ := spells_append.mp others
      obtain ⟨tree, same, derives⟩ := first spelled
      obtain ⟨trees, sames, parts⟩ := ih
        (fun inner member => members inner (List.mem_cons_of_mem e member)) (by simp) others
      exact ⟨tree :: trees, by rw [List.map_cons, List.map_cons, same, sames],
        .moreParts comma derives parts⟩

end Members

theorem number_head {value : Number} {raw : String} (spelled : (Kind.number value raw).Spelled) :
    ∃ c cs, raw.toList = c :: cs ∧ (c.isDigit = true ∨ c = '.') := by
  have scanned : Token.scanNumber raw.toList = some (value, raw.toList.length) := spelled
  cases chars : raw.toList with
  | nil =>
    rw [chars] at scanned
    exact absurd (Token.scanNumber_take scanned).1 (by simp)
  | cons c cs =>
    rw [chars] at scanned
    exact ⟨c, cs, rfl, Token.scanNumber_head scanned⟩

theorem numberText_cases {text : String} (spelled : NumberText text) :
    (Text.beginsWith text "-" = false ∧ (Kind.number (readNumber text) text).Spelled) ∨
    (Text.beginsWith text "-" = true ∧
      (Kind.number (readNumber (withoutSign text)) (withoutSign text)).Spelled) := by
  obtain ⟨digits, value, spelled, shape⟩ := spelled
  have read : readNumber digits = value := by
    unfold readNumber
    rw [show Token.scanNumber digits.toList = some (value, digits.toList.length) from spelled]
    rfl
  rcases shape with rfl | rfl
  · refine .inl ⟨?_, read ▸ spelled⟩
    rw [← Bool.not_eq_true, beginsWith_iff_head (by decide : "-".toList = ['-'])]
    intro sign
    obtain ⟨c, cs, chars, head⟩ := number_head spelled
    rw [chars, List.head?_cons, Option.some.injEq] at sign
    subst sign
    rcases head with digit | point
    · exact absurd digit (by decide)
    · exact absurd point (by decide)
  · refine .inr ⟨by simp [Text.beginsWith], ?_⟩
    have rest : withoutSign ("-" ++ digits) = digits := by simp [withoutSign]
    rw [rest, read]
    exact spelled

section Cases

variable {ts : List Token} {newline : Bool}

theorem derivable_number {n : ι} {value : Number} {raw : Option String}
    (spelled : NumberText (raw.getD value.display))
    (spells : Spells ts newline (Expr.number n value raw).layout) :
    Derivable (.number n value raw) ts := by
  rw [layout_number, numberLayout] at spells
  rcases numberText_cases spelled with ⟨positive, -⟩ | ⟨negative, -⟩
  · rw [positive] at spells
    obtain ⟨t, rfl, literal, -⟩ := spells_single.mp spells
    exact .of_tight Level.primary (by simp [write_number, writeNumber, positive]) (by decide)
      (.number literal)
      (by simp [rereadNumber, positive])
  · rw [negative] at spells
    obtain ⟨t, us, rfl, mark, -, spells⟩ := spells_token.mp spells
    obtain ⟨u, rfl, literal, -⟩ := spells_single.mp spells
    have sign : t.kind = UnaryOperator.minus.kind := mark
    exact .of_tight Level.unary (by simp [write_number, writeNumber, negative]) (by decide)
      (.unary sign ((Derives.number literal).lower (by decide)))
      (by simp [rereadNumber, negative])

theorem derivable_array {n : ι} {list : List (Expr ι)}
    (members : ∀ e ∈ list, ∀ {us newline}, Spells us newline e.layout → Derivable e us)
    (spells : Spells ts newline (Expr.array n (list.map some)).layout) :
    Derivable (.array n (list.map some)) ts := by
  rw [layout_array, layoutElements_some] at spells
  obtain ⟨a, us, rfl, opening, -, spells⟩ := spells_token.mp spells
  obtain ⟨us, vs, rfl, inside, last⟩ := spells_append.mp spells
  obtain ⟨b, rfl, closing, -⟩ := spells_single.mp last
  obtain ⟨trees, sames, items⟩ := derives_items members inside
  refine .of_tight Level.primary rfl (by decide) (.array opening items closing) ?_
  rw [Expr.bare_array, sames, Expr.reread_array, List.map_map, List.map_map]
  rfl

theorem Derives.parts_append {first second : List (Expr Place)} {us vs : List Token}
    (front : Derives (.parts first) us) (back : Derives (.parts second) vs) :
    Derives (.parts (first ++ second)) (us ++ vs) := by
  generalize same : Phrase.parts first = phrase at front
  induction front generalizing first with
  | noParts =>
    cases same
    exact back
  | @moreParts t e es ts us comma part rest ihPart ih =>
    cases same
    simpa using Derives.moreParts comma part (ih rfl)
  | _ => cases same

section Operands

variable {n : ι} {left right : Expr ι}
  (first : ∀ {us newline}, Spells us newline left.layout → Derivable left us)
  (second : ∀ {us newline}, Spells us newline right.layout → Derivable right us)

include first second

theorem derivable_comma (spells : Spells ts newline (Expr.binary n .comma left right).layout) :
    Derivable (.binary n .comma left right) ts := by
  have level : (Expr.binary n .comma left right).write.level = Level.sequence := by
    rw [level_binary]
    rfl
  have reread : (Expr.binary n .comma left right).reread = splice left.reread right.reread := rfl
  rw [layout_binary, List.append_assoc] at spells
  obtain ⟨us, vs, rfl, spelled, spells⟩ := spells_append.mp spells
  obtain ⟨t, ws, rfl, comma, -, spells⟩ := spells_token.mp spells
  obtain ⟨b, sameRight, derivesRight⟩ := derives_at second
    (by decide : Level.assignment ≤ Level.primary) (spells_blank.mp spells)
  have last : Derives (.parts [b]) (t :: ws) := by
    simpa using Derives.moreParts comma derivesRight .noParts
  have bare : left.layoutAt (Level.operands .comma).1 = left.layout := by
    simp [Expr.layoutAt, enclosed, Level.operands, Level.ofBinary, BinaryOperator.precedence,
      Level.sequence]
  rw [bare] at spelled
  obtain ⟨a, sameLeft, derivesLeft, unfolds⟩ := first spelled
  by_cases loose : left.write.level = Level.sequence
  · obtain ⟨place, head, rest, us, xs, rfl, rfl, derivesHead, parts⟩ := unfolds loose
    have whole := parts.parts_append last
    rw [Derivable, level, reread]
    refine ⟨.sequence (Place.over (us ++ (xs ++ t :: ws))) (head :: (rest ++ [b])), ?_, ?_, ?_⟩
    · rw [← sameLeft, ← sameRight]
      simp [splice]
    · rw [List.append_assoc]
      exact .sequence derivesHead whole (by simp)
    · intro _
      exact ⟨_, head, rest ++ [b], us, xs ++ t :: ws, rfl, by simp, derivesHead, whole⟩
  · have tight : Level.assignment ≤ left.write.level := Nat.pos_of_ne_zero loose
    rw [Derivable, level, reread, Expr.splice_reread loose]
    refine ⟨.sequence (Place.over (us ++ t :: ws)) [a, b], by simp [sameLeft, sameRight], ?_, ?_⟩
    · exact .sequence (derivesLeft.lower tight) last (by simp)
    · intro _
      exact ⟨_, a, [b], us, t :: ws, rfl, rfl, derivesLeft.lower tight, last⟩

theorem derivable_binary {operator : BinaryOperator} (notComma : operator ≠ .comma)
    (spells : Spells ts newline (Expr.binary n operator left right).layout) :
    Derivable (.binary n operator left right) ts := by
  rw [layout_binary, operatorLayout, if_neg notComma, List.append_assoc] at spells
  obtain ⟨us, vs, rfl, spelled, spells⟩ := spells_append.mp spells
  obtain ⟨t, ws, rfl, mark, -, spells⟩ := spells_token.mp (spells_blank.mp spells)
  have rest := spells_blank.mp spells
  have bounds := BinaryOperator.level_bounds notComma
  have tight : Level.ofBinary operator ≠ Level.sequence := by
    intro loose
    exact absurd (loose ▸ bounds.1) (by decide)
  by_cases isPower : operator = .power
  · subst isPower
    obtain ⟨a, sameLeft, base⟩ :=
      derives_at first (by decide : Level.postfixed ≤ Level.primary) spelled
    obtain ⟨b, sameRight, exponent⟩ :=
      derives_at second (by decide : Level.ofBinary .power ≤ Level.primary) rest
    exact .of_tight _ rfl tight (.power (base.lower (by decide)) mark exponent)
      (by simp [sameLeft, sameRight])
  · have levels : Level.operands operator =
        (Level.ofBinary operator, Level.ofBinary operator + 1) := by
      rw [Level.operands, if_neg isPower]
    rw [levels] at spelled rest
    obtain ⟨a, sameLeft, leftDerives⟩ :=
      derives_at first (bounds.2.le.trans (by decide)) spelled
    obtain ⟨b, sameRight, rightDerives⟩ :=
      derives_at second (le_trans (Nat.succ_le_of_lt bounds.2) (by decide)) rest
    exact .of_tight _ rfl tight (.binary notComma isPower leftDerives mark rightDerives)
      (by simp [notComma, sameLeft, sameRight])

theorem derivable_assignment {operator : AssignmentOperator} (assignable : left.isAssignable = true)
    (spells : Spells ts newline (Expr.assignment n operator left right).layout) :
    Derivable (.assignment n operator left right) ts := by
  rw [layout_assignment] at spells
  obtain ⟨us, vs, rfl, spelled, spells⟩ := spells_append.mp spells
  obtain ⟨t, ws, rfl, mark, -, spells⟩ := spells_token.mp (spells_blank.mp spells)
  obtain ⟨a, sameLeft, target⟩ := derives_at first (by decide : Level.member ≤ Level.primary) spelled
  obtain ⟨b, sameRight, value⟩ :=
    derives_at second (by decide : Level.assignment ≤ Level.primary) (spells_blank.mp spells)
  have keeps : a.isAssignable = true := by
    rw [← Expr.isAssignable_bare, sameLeft]
    exact Expr.isAssignable_reread assignable
  exact .of_tight Level.assignment rfl (by decide)
    (.assignment (target.lower (by decide)) keeps mark value)
    (by simp [sameLeft, sameRight])

theorem derivable_bracket (spells : Spells ts newline (Expr.member n left right true).layout) :
    Derivable (.member n left right true) ts := by
  rw [layout_bracket] at spells
  obtain ⟨us, vs, rfl, spelled, spells⟩ := spells_append.mp spells
  obtain ⟨t, ws, rfl, opening, -, spells⟩ := spells_token.mp spells
  obtain ⟨ws, xs, rfl, index, last⟩ := spells_append.mp spells
  obtain ⟨u, rfl, closing, -⟩ := spells_single.mp last
  obtain ⟨a, sameLeft, object⟩ := derives_at first (by decide : Level.member ≤ Level.primary) spelled
  obtain ⟨b, sameRight, property⟩ :=
    derives_at second (by decide : Level.sequence ≤ Level.primary) index
  exact .of_tight Level.member rfl (by decide) (.bracket object opening property closing)
    (by simp [sameLeft, sameRight])

end Operands

section Operand

variable {n : ι} {e : Expr ι}
  (inner : ∀ {us newline}, Spells us newline e.layout → Derivable e us)

include inner

theorem derivable_unary {operator : UnaryOperator}
    (spells : Spells ts newline (Expr.unary n operator e).layout) :
    Derivable (.unary n operator e) ts := by
  rw [layout_unary, frontLayout] at spells
  -- a blank behind the operator makes no difference to the tokens
  have split : ∃ t us, ts = t :: us ∧ t.kind = operator.kind ∧
      Spells us false (e.layoutAt Level.unary) := by
    split at spells
    · obtain ⟨t, us, rfl, mark, -, spells⟩ := spells_token.mp spells
      exact ⟨t, us, rfl, mark, spells_blank.mp spells⟩
    · obtain ⟨t, us, rfl, mark, -, spells⟩ := spells_token.mp spells
      exact ⟨t, us, rfl, mark, spells⟩
  obtain ⟨t, us, rfl, mark, spelled⟩ := split
  obtain ⟨a, same, derives⟩ := derives_at inner (by decide : Level.unary ≤ Level.primary) spelled
  exact .of_tight Level.unary rfl (by decide) (.unary mark derives)
    (by simp [same])

theorem derivable_update {operator : UpdateOperator} {before : Bool} (ends : Chunk.EndsInLine e.layout)
    (spells : Spells ts newline (Expr.update n operator before e).layout) :
    Derivable (.update n operator before e) ts := by
  rw [layout_update] at spells
  cases before with
  | true =>
    obtain ⟨t, us, rfl, mark, -, spelled⟩ := spells_token.mp spells
    obtain ⟨a, same, derives⟩ := derives_at inner (by decide : Level.member ≤ Level.primary) spelled
    exact .of_tight Level.unary rfl (by decide) (.updating mark (derives.lower (by decide)))
      (by simp [same])
  | false =>
    obtain ⟨us, vs, rfl, spelled, last⟩ := spells_append.mp spells
    obtain ⟨t, rfl, mark, line⟩ := spells_single.mp last
    obtain ⟨a, same, derives⟩ := derives_at inner (by decide : Level.member ≤ Level.primary) spelled
    have sameLine : t.newlineBefore = false := line.trans (ends.enclosed _ newline)
    exact .of_tight Level.postfixed rfl (by decide) (.updated derives mark sameLine)
      (by simp [same])

theorem derivable_call {list : List (Expr ι)}
    (members : ∀ e ∈ list, ∀ {us newline}, Spells us newline e.layout → Derivable e us)
    (spells : Spells ts newline (Expr.call n e list).layout) : Derivable (.call n e list) ts := by
  rw [layout_call, layoutList_eq_map] at spells
  obtain ⟨us, vs, rfl, spelled, spells⟩ := spells_append.mp spells
  obtain ⟨t, ws, rfl, opening, -, spells⟩ := spells_token.mp spells
  obtain ⟨ws, xs, rfl, inside, last⟩ := spells_append.mp spells
  obtain ⟨u, rfl, closing, -⟩ := spells_single.mp last
  obtain ⟨a, same, callee⟩ := derives_at inner (by decide : Level.member ≤ Level.primary) spelled
  obtain ⟨trees, sames, items⟩ := derives_items members inside
  exact .of_tight Level.member rfl (by decide) (.call callee opening items closing)
    (by simp [same, sames])

theorem derivable_dot {m : ι} {text : String}
    (spells : Spells ts newline (Expr.member n e (.name m text) false).layout) :
    Derivable (.member n e (.name m text) false) ts := by
  rw [layout_dot] at spells
  obtain ⟨us, vs, rfl, spelled, spells⟩ := spells_append.mp spells
  obtain ⟨t, ws, rfl, mark, -, spells⟩ := spells_token.mp spells
  obtain ⟨u, rfl, word, -⟩ := spells_single.mp spells
  obtain ⟨a, same, object⟩ := derives_enclosed Level.member
    (by decide : Level.member ≤ Level.primary) (fun _ => le_refl _)
    (fun inside => derives_at inner (by decide) inside) spelled
  exact .of_tight Level.member rfl (by decide) (.dot object mark word)
    (by simp [same])

end Operand

theorem derivable_conditional {n : ι} {test consequent alternate : Expr ι}
    (condition : ∀ {us newline}, Spells us newline test.layout → Derivable test us)
    (positive : ∀ {us newline}, Spells us newline consequent.layout → Derivable consequent us)
    (negative : ∀ {us newline}, Spells us newline alternate.layout → Derivable alternate us)
    (spells : Spells ts newline (Expr.conditional n test consequent alternate).layout) :
    Derivable (.conditional n test consequent alternate) ts := by
  rw [layout_conditional] at spells
  obtain ⟨us, vs, rfl, spelled, spells⟩ := spells_append.mp spells
  obtain ⟨t, ws, rfl, question, -, spells⟩ := spells_token.mp (spells_blank.mp spells)
  obtain ⟨ws, xs, rfl, first, spells⟩ := spells_append.mp (spells_blank.mp spells)
  obtain ⟨u, ys, rfl, colon, -, second⟩ := spells_token.mp (spells_blank.mp spells)
  obtain ⟨a, sameTest, derivesTest⟩ :=
    derives_at condition (by decide : Level.conditional + 1 ≤ Level.primary) spelled
  obtain ⟨b, samePositive, derivesPositive⟩ :=
    derives_at positive (by decide : Level.assignment ≤ Level.primary) first
  obtain ⟨d, sameNegative, derivesNegative⟩ :=
    derives_at negative (by decide : Level.assignment ≤ Level.primary) (spells_blank.mp second)
  exact .of_tight Level.conditional rfl (by decide)
    (.conditional derivesTest question derivesPositive colon derivesNegative)
    (by simp [sameTest, samePositive, sameNegative])

theorem derivable_sequence {n : ι} {first second : Expr ι} {rest : List (Expr ι)}
    (members : ∀ e ∈ first :: second :: rest,
      ∀ {us newline}, Spells us newline e.layout → Derivable e us)
    (spells : Spells ts newline (Expr.sequence n (first :: second :: rest)).layout) :
    Derivable (.sequence n (first :: second :: rest)) ts := by
  rw [layout_sequence, layoutList_eq_map] at spells
  obtain ⟨us, vs, rfl, spelled, others⟩ := spells_append.mp spells
  obtain ⟨a, same, head⟩ := derives_at (members first List.mem_cons_self)
    (by decide : Level.assignment ≤ Level.primary) spelled
  obtain ⟨trees, sames, parts⟩ := derives_parts
    (fun e member => members e (List.mem_cons_of_mem first member)) (by simp) others
  have some : trees ≠ [] := by
    rintro rfl
    simp at sames
  have level : (Expr.sequence n (first :: second :: rest)).write.level = Level.sequence := by
    rw [level_sequence]
  refine ⟨.sequence (Place.over (us ++ vs)) (a :: trees), ?_, ?_, ?_⟩
  · simp only [Expr.bare_sequence, Expr.reread_sequence, List.map_cons, same]
    rw [sames, List.map_cons]
  · rw [level]
    exact .sequence head parts some
  · intro _
    exact ⟨_, a, trees, us, vs, rfl, rfl, head, parts⟩

end Cases

/-- The tokens of a printable expression derive what it is read as. -/
theorem Printable.derivable {e : Expr ι} (printable : Printable e) {ts : List Token} {newline : Bool}
    (spells : Spells ts newline e.layout) : Derivable e ts := by
  induction printable generalizing ts newline with
  | name _ free =>
    rw [layout_name] at spells
    obtain ⟨t, rfl, word, -⟩ := spells_single.mp spells
    exact .of_tight Level.primary rfl (by decide) (.name word free) rfl
  | number spelled => exact derivable_number spelled spells
  | string _ =>
    rw [layout_string] at spells
    obtain ⟨t, rfl, literal, -⟩ := spells_single.mp spells
    exact .of_tight Level.primary rfl (by decide) (.string literal) rfl
  | boolean =>
    rw [layout_boolean] at spells
    obtain ⟨t, rfl, word, -⟩ := spells_single.mp spells
    exact .of_tight Level.primary rfl (by decide) (.boolean word) rfl
  | null =>
    rw [layout_null] at spells
    obtain ⟨t, rfl, word, -⟩ := spells_single.mp spells
    exact .of_tight Level.primary rfl (by decide) (.null word) rfl
  | array _ ih => exact derivable_array ih spells
  | @binary n operator left right _ _ first second =>
    by_cases comma : operator = .comma
    · subst comma
      exact derivable_comma first second spells
    · exact derivable_binary first second comma spells
  | unary _ ih => exact derivable_unary ih spells
  | update inner ih => exact derivable_update ih (Printable.endsInLine inner) spells
  | assignment assignable _ _ first second =>
    exact derivable_assignment first second assignable spells
  | conditional _ _ _ test positive negative =>
    exact derivable_conditional test positive negative spells
  | sequence _ ih => exact derivable_sequence ih spells
  | call _ _ callee arguments => exact derivable_call callee arguments spells
  | dot _ _ ih => exact derivable_dot ih spells
  | bracket _ _ object index => exact derivable_bracket object index spells

end Arborist.Script

import Mathlib
import Arborist.Proofs.Script.Notes
import Arborist.Proofs.Script.StatementCompleteness
import Arborist.Proofs.Source.Rescan

/-!
Phrases read in another place. The tokens of a phrase that stands alone are those it had in a longer
text, nearer to the start, and the first of them has nothing before it. They are read as the same
tree, every node of which has moved with its tokens; for the end of a statement, the end of the text
is as good as whatever came next.
-/

namespace Arborist.Script

open Token (Kind moveAll)

def Place.moved (k : Nat) (place : Place) : Place :=
  ⟨⟨place.span.start - k, place.span.stop - k⟩, place.paren.map (· - k)⟩

abbrev Expr.moved (k : Nat) (e : Expr Place) : Expr Place := e.mapNote (Place.moved k)

abbrev Declarator.moved (k : Nat) (d : Declarator Place) : Declarator Place :=
  d.mapNote (Place.moved k)

abbrev FunctionHead.moved (k : Nat) (head : FunctionHead Place) : FunctionHead Place :=
  head.mapNote (Place.moved k)

abbrev Stmt.moved (k : Nat) (s : Stmt Place) : Stmt Place := s.mapNote (Place.moved k)

section Tokens

variable {k : Nat} {leads : Bool}

theorem moveAll_behind (k : Nat) (front rest : List Token) :
    moveAll k false (front ++ rest) = moveAll k false front ++ moveAll k false rest := by
  cases front with
  | nil => rfl
  | cons t more => exact Token.moveAll_append k false (by simp) rest

theorem map_moveAll {β : Type} {f g : Token → β} (same : ∀ t first, f (t.moved k first) = g t)
    (ts : List Token) : (moveAll k leads ts).map f = ts.map g := by
  induction ts generalizing leads with
  | nil => rfl
  | cons t rest ih => rw [moveAll, List.map_cons, same, ih, List.map_cons]

theorem live_moveAll {ts : List Token} (live : ∀ t ∈ ts, t.kind ≠ .finish) :
    ∀ t ∈ moveAll k leads ts, t.kind ≠ .finish := by
  intro t member
  have among : t.kind ∈ (moveAll k leads ts).map Token.kind := List.mem_map_of_mem member
  rw [map_moveAll fun _ _ => rfl] at among
  obtain ⟨u, inside, same⟩ := List.mem_map.1 among
  exact same ▸ live u inside

theorem Place.over_moveAll (k : Nat) (leads : Bool) (ts : List Token) :
    Place.over (moveAll k leads ts) = (Place.over ts).moved k := by
  have starts : (moveAll k leads ts).map Token.start = (ts.map Token.start).map (· - k) := by
    rw [List.map_map]
    exact map_moveAll (fun _ _ => rfl) ts
  have stops : (moveAll k leads ts).map Token.stop = (ts.map Token.stop).map (· - k) := by
    rw [List.map_map]
    exact map_moveAll (fun _ _ => rfl) ts
  have start : startOf (moveAll k leads ts) = startOf ts - k := by
    have heads := congrArg List.head? starts
    simp only [List.head?_map] at heads
    rw [startOf, heads, startOf]
    cases ts <;> simp
  have stop : stopOf (moveAll k leads ts) = stopOf ts - k := by
    have lasts := congrArg List.getLast? stops
    simp only [List.getLast?_map] at lasts
    rw [stopOf, lasts, stopOf]
    cases ts.getLast? <;> simp
  simp only [Place.over, Place.moved, start, stop, Option.map_none, Place.mk.injEq, Span.mk.injEq,
    and_true, true_and]
  omega

theorem endsInUpdate_moveAll (ts : List Token) :
    endsInUpdate (moveAll k leads ts) = endsInUpdate ts := by
  have lasts := congrArg List.getLast? (@map_moveAll k leads _ Token.kind _ (fun _ _ => rfl) ts)
  simp only [List.getLast?_map] at lasts
  unfold endsInUpdate
  cases here : ts.getLast? <;> cases there : (moveAll k leads ts).getLast? <;> simp_all

end Tokens

@[simp] theorem Expr.note_mapNote {ι κ : Type} (f : ι → κ) (e : Expr ι) :
    (e.mapNote f).note = f e.note := by
  cases e <;> rfl

theorem Expr.mapNote_withNote {ι κ : Type} (f : ι → κ) (e : Expr ι) (n : ι) :
    (e.withNote n).mapNote f = (e.mapNote f).withNote (f n) := by
  cases e <;> rfl

def Phrase.moved (k : Nat) : Phrase → Phrase
  | .expr least e => .expr least (e.moved k)
  | .items list => .items (list.map (Expr.moved k))
  | .parts list => .parts (list.map (Expr.moved k))

theorem Derives.moved {k : Nat} {phrase : Phrase} {ts : List Token} (derives : Derives phrase ts)
    (leads : Bool) : Derives (phrase.moved k) (moveAll k leads ts) := by
  induction derives generalizing leads with
  | @name t text word free =>
    have here := Place.over_moveAll k leads [t]
    rw [Phrase.moved, Expr.moved, Expr.mapNote, ← here]
    exact .name word free
  | @number t value raw literal =>
    have here := Place.over_moveAll k leads [t]
    rw [Phrase.moved, Expr.moved, Expr.mapNote, ← here]
    exact .number literal
  | @string t value raw literal =>
    have here := Place.over_moveAll k leads [t]
    rw [Phrase.moved, Expr.moved, Expr.mapNote, ← here]
    exact .string literal
  | @boolean t value word =>
    have here := Place.over_moveAll k leads [t]
    rw [Phrase.moved, Expr.moved, Expr.mapNote, ← here]
    exact .boolean word
  | @null t word =>
    have here := Place.over_moveAll k leads [t]
    rw [Phrase.moved, Expr.moved, Expr.mapNote, ← here]
    exact .null word
  | @paren a b ts e opening inner closing ih =>
    have enclosed :=
      @Derives.paren (a.moved k leads) (b.moved k false) _ _ opening (ih false) closing
    rw [Expr.note_mapNote] at enclosed
    rw [Phrase.moved, Expr.moved, Expr.mapNote_withNote, moveAll, moveAll_behind]
    exact enclosed
  | @array a b ts es opening _ closing ih =>
    have elements : (es.map some).map (Option.map (Expr.moved k)) =
        (es.map (Expr.moved k)).map some := by simp
    rw [Phrase.moved, Expr.moved, Expr.mapNote, ← Place.over_moveAll k leads, moveAll,
      moveAll_behind, Expr.mapNoteElements_eq_map, elements]
    exact .array opening (ih false) closing
  | @dot point word ts object name inner mark property ih =>
    rw [Phrase.moved, Expr.moved, Expr.mapNote, Expr.mapNote, ← Place.over_moveAll k leads,
      ← Place.over_moveAll k false, Token.moveAll_append k leads inner.ne_nil]
    exact .dot (ih leads) mark property
  | bracket inner opening index closing first second =>
    rw [Phrase.moved, Expr.moved, Expr.mapNote, ← Place.over_moveAll k leads,
      Token.moveAll_append k leads inner.ne_nil, moveAll, moveAll_behind]
    exact .bracket (first leads) opening (second false) closing
  | call inner opening arguments closing first second =>
    rw [Phrase.moved, Expr.moved, Expr.mapNote, ← Place.over_moveAll k leads,
      Token.moveAll_append k leads inner.ne_nil, moveAll, moveAll_behind, Expr.mapNoteList_eq_map]
    exact .call (first leads) opening (second false) closing
  | updated inner mark sameLine ih =>
    rw [Phrase.moved, Expr.moved, Expr.mapNote, ← Place.over_moveAll k leads,
      Token.moveAll_append k leads inner.ne_nil]
    exact .updated (ih leads) mark (by simp [Token.moved, sameLine])
  | unary mark inner ih =>
    rw [Phrase.moved, Expr.moved, Expr.mapNote, ← Place.over_moveAll k leads]
    exact .unary mark (ih false)
  | updating mark inner ih =>
    rw [Phrase.moved, Expr.moved, Expr.mapNote, ← Place.over_moveAll k leads]
    exact .updating mark (ih false)
  | power base mark exponent first second =>
    rw [Phrase.moved, Expr.moved, Expr.mapNote, ← Place.over_moveAll k leads,
      Token.moveAll_append k leads base.ne_nil]
    exact .power (first leads) mark (second false)
  | binary notComma notPower left mark right first second =>
    rw [Phrase.moved, Expr.moved, Expr.mapNote, ← Place.over_moveAll k leads,
      Token.moveAll_append k leads left.ne_nil]
    exact .binary notComma notPower (first leads) mark (second false)
  | conditional condition question positive colon negative first second third =>
    rw [Phrase.moved, Expr.moved, Expr.mapNote, ← Place.over_moveAll k leads,
      Token.moveAll_append k leads condition.ne_nil, moveAll, moveAll_behind]
    exact .conditional (first leads) question (second false) colon (third false)
  | assignment left assignable mark right first second =>
    rw [Phrase.moved, Expr.moved, Expr.mapNote, ← Place.over_moveAll k leads,
      Token.moveAll_append k leads left.ne_nil]
    exact .assignment (first leads) (by simpa using assignable) mark (second false)
  | sequence head tail some first second =>
    rw [Phrase.moved, Expr.moved, Expr.mapNote, ← Place.over_moveAll k leads,
      Token.moveAll_append k leads head.ne_nil, Expr.mapNoteList_eq_map]
    exact .sequence (first leads) (second false) (by simpa using some)
  | looser _ ih => exact .looser (ih leads)
  | noItems => exact .noItems
  | oneItem _ ih => exact .oneItem (ih leads)
  | moreItems item comma _ first rest =>
    rw [Token.moveAll_append k leads item.ne_nil]
    exact .moreItems (first leads) comma (rest false)
  | noParts => exact .noParts
  | moreParts comma _ _ part rest =>
    rw [moveAll, moveAll_behind]
    exact .moreParts comma (part false) (rest false)

theorem Named.moved {k : Nat} {e : Expr Place} {t : Token} (named : Named e t) (leads : Bool) :
    Named (e.moved k) (t.moved k leads) := by
  cases named with
  | intro word free =>
    rw [Expr.moved, Expr.mapNote, ← Place.over_moveAll k leads]
    exact .intro word free

theorem Parameters.moved {k : Nat} {list : List (Expr Place)} {ts : List Token}
    (parameters : Parameters list ts) :
    Parameters (list.map (Expr.moved k)) (moveAll k false ts) := by
  induction parameters with
  | none => exact .none
  | one name => exact .one (name.moved false)
  | more name comma _ ih => exact .more (name.moved false) comma ih

/-- What may come next in the new place: the same token, or nothing more. -/
def Succeeds (k : Nat) (next other : Token) : Prop :=
  other = next.moved k false ∨ other.kind = .finish

section Succeeds

variable {k : Nat} {leads : Bool} {next other : Token}

theorem Succeeds.headD (succeeds : Succeeds k next other) (us : List Token) :
    Succeeds k (us.headD next) ((moveAll k false us).headD other) := by
  cases us with
  | nil => exact succeeds
  | cons t rest => exact .inl rfl

theorem Succeeds.kind_ne (succeeds : Succeeds k next other) {kind : Kind} (ne : next.kind ≠ kind)
    (inner : kind ≠ .finish) : other.kind ≠ kind := by
  rcases succeeds with rfl | ends
  · exact ne
  · rw [ends]
    exact inner.symm

theorem Stops.moved {ts : List Token} {least : Level} (stops : Stops ts next least)
    (succeeds : Succeeds k next other) : Stops (moveAll k leads ts) other least := by
  rcases succeeds with rfl | ends
  · have same : binds (moveAll k leads ts) (next.moved k false) = binds ts next := by
      simp only [binds, endsInUpdate_moveAll, Token.moved, Bool.not_false, Bool.and_true]
    rw [Stops, same]
    exact stops
  · simp [Stops, binds, ends]

theorem Terminated.moved {us : List Token} (ends : Terminated us next)
    (succeeds : Succeeds k next other) : Terminated (moveAll k false us) other := by
  cases ends with
  | semicolon mark => exact .semicolon mark
  | free bare ends =>
    refine .free (succeeds.kind_ne bare (by simp)) ?_
    rcases succeeds with rfl | finish
    · simpa [MayEnd, Token.moved] using ends
    · exact .inr (.inl finish)

theorem Declares.moved {d : Declarator Place} {ts : List Token} (declares : Declares d ts next)
    (succeeds : Succeeds k next other) : Declares (d.moved k) (moveAll k false ts) other := by
  cases declares with
  | plain name bare =>
    rw [Declarator.moved, Declarator.mapNote, ← Place.over_moveAll k false]
    exact .plain (name.moved false) (succeeds.kind_ne bare (by simp))
  | initial name mark inner stops =>
    rw [Declarator.moved, Declarator.mapNote, ← Place.over_moveAll k false]
    exact .initial (name.moved false) mark (inner.moved false) (stops.moved succeeds)

theorem Declares.ne_nil {d : Declarator Place} {ts : List Token} (declares : Declares d ts next) :
    ts ≠ [] := by
  cases declares <;> simp

theorem DeclaresAll.moved {list : List (Declarator Place)} {ts : List Token}
    (declares : DeclaresAll list ts next) (succeeds : Succeeds k next other) :
    DeclaresAll (list.map (Declarator.moved k)) (moveAll k false ts) other := by
  induction declares with
  | last one ends => exact .last (one.moved succeeds) (succeeds.kind_ne ends (by simp))
  | more one comma _ ih =>
    rw [moveAll_behind]
    exact .more (one.moved (.inl rfl)) comma (ih succeeds)

theorem Heads.moved {head : FunctionHead Place} {ts : List Token} (heads : Heads head ts)
    (leads : Bool) : Heads (head.moved k) (moveAll k leads ts) := by
  cases heads with
  | @intro f a b n front star ts isAsync isGenerator name parameters async word generator named
      opening list closing =>
    have behind : ∀ first, moveAll k first (f :: (star ++ n :: a :: (ts ++ [b]))) =
        f.moved k first :: (moveAll k false star ++ n.moved k false :: a.moved k false ::
          (moveAll k false ts ++ [b.moved k false])) := by
      intro first
      rw [moveAll, moveAll_behind, moveAll, moveAll, moveAll_behind]
      rfl
    have star : if isGenerator then ∃ t : Token, moveAll k false star = [t] ∧
        t.kind = .mark .times else moveAll k false star = [] := by
      cases isGenerator with
      | true =>
        obtain ⟨t, rfl, mark⟩ : ∃ t : Token, star = [t] ∧ t.kind = .mark .times := generator
        exact ⟨t.moved k false, rfl, mark⟩
      | false =>
        obtain rfl : star = [] := generator
        rfl
    cases isAsync with
    | true =>
      obtain ⟨t, rfl, spelled, sameLine⟩ : ∃ t : Token, front = [t] ∧ t.kind = .word "async" ∧
        f.newlineBefore = false := async
      rw [List.singleton_append, moveAll, behind]
      exact @Heads.intro _ _ _ _ [t.moved k leads] _ _ true _ _ _
        ⟨_, rfl, spelled, by simp [Token.moved, sameLine]⟩ word star (named.moved false) opening
        list.moved closing
    | false =>
      obtain rfl : front = [] := async
      rw [List.nil_append, behind]
      exact @Heads.intro _ _ _ _ [] _ _ false _ _ _ rfl word star (named.moved false) opening
        list.moved closing

theorem Heads.ne_nil {head : FunctionHead Place} {ts : List Token} (heads : Heads head ts) :
    ts ≠ [] := by
  cases heads
  simp

end Succeeds

def Passage.moved (k : Nat) : Passage → Passage
  | .statement s => .statement (s.moved k)
  | .block place list => .block (place.moved k) (list.map (Stmt.moved k))
  | .body list => .body (list.map (Stmt.moved k))

theorem Forms.moved {k : Nat} {passage : Passage} {ts : List Token} {next other : Token}
    (forms : Forms passage ts next) (succeeds : Succeeds k next other) (leads : Bool) :
    Forms (passage.moved k) (moveAll k leads ts) other := by
  induction forms generalizing leads other with
  | declaration word declarators ends =>
    rw [Passage.moved, Stmt.moved, Stmt.mapNote, ← Place.over_moveAll k leads, moveAll,
      moveAll_behind]
    exact .declaration word (declarators.moved (succeeds.headD _)) (ends.moved succeeds)
  | function front _ ih =>
    rw [Passage.moved, Stmt.moved, Stmt.mapNote, ← Place.over_moveAll k leads,
      Token.moveAll_append k leads front.ne_nil, Stmt.mapNoteList_eq_map]
    exact .function (front.moved leads) (ih succeeds false)
  | block _ ih =>
    rw [Passage.moved, Stmt.moved, Stmt.mapNote, Stmt.mapNoteList_eq_map]
    exact .block (ih succeeds leads)
  | leave word ends =>
    rw [Passage.moved, Stmt.moved, Stmt.mapNote, ← Place.over_moveAll k leads, moveAll]
    exact .leave word (ends.moved succeeds)
  | ret word inner sameLine stops ends =>
    rw [Passage.moved, Stmt.moved, Stmt.mapNote, ← Place.over_moveAll k leads, moveAll,
      moveAll_behind]
    refine .ret word (inner.moved false) ?_ (stops.moved (succeeds.headD _)) (ends.moved succeeds)
    obtain ⟨first, rest, rfl⟩ := List.exists_cons_of_ne_nil inner.ne_nil
    simpa [moveAll, Token.moved] using sameLine first rfl
  | expression inner stops ends =>
    rw [Passage.moved, Stmt.moved, Stmt.mapNote, ← Place.over_moveAll k leads,
      Token.moveAll_append k leads inner.ne_nil]
    exact .expression (inner.moved leads) (stops.moved (succeeds.headD _)) (ends.moved succeeds)
  | branch word opening condition closing _ bare ih =>
    rw [Passage.moved, Stmt.moved, Stmt.mapNote, ← Place.over_moveAll k leads, moveAll, moveAll,
      moveAll_behind]
    exact .branch word opening (condition.moved false) closing (ih succeeds false)
      (succeeds.kind_ne bare (by simp))
  | choice word opening condition closing _ another _ first second =>
    rw [Passage.moved, Stmt.moved, Stmt.mapNote, ← Place.over_moveAll k leads, moveAll, moveAll,
      moveAll_behind, moveAll, moveAll_behind]
    exact .choice word opening (condition.moved false) closing (first (.inl rfl) false) another
      (second succeeds false)
  | empty mark =>
    rw [Passage.moved, Stmt.moved, Stmt.mapNote, ← Place.over_moveAll k leads]
    exact .empty mark
  | braces opening _ closing ih =>
    rw [Passage.moved, ← Place.over_moveAll k leads, moveAll, moveAll_behind]
    exact .braces opening (ih (.inl rfl) false) closing
  | done => exact .done
  | more first _ one rest =>
    obtain ⟨t, others, rfl, -⟩ := first.head_ne
    rw [Token.moveAll_append k leads (List.cons_ne_nil t others)]
    exact .more (one (succeeds.headD _) leads) (rest succeeds false)

theorem Forms.alone {s : Stmt Place} {ts : List Token} {next last : Token}
    (forms : Forms (.statement s) ts next) (k : Nat) (finish : last.kind = .finish) :
    Forms (.body [s.moved k]) (moveAll k true ts) last := by
  have one : Forms (.statement (s.moved k)) (moveAll k true ts) last :=
    forms.moved (.inr finish) true
  have program := @Forms.more last _ [] _ [] one .done
  rwa [List.append_nil] at program

end Arborist.Script

import Mathlib
import Arborist.Proofs.Script.Soundness

/-!
A parser of expressions that fails has passed over tokens that some expression begins with. Whatever
it was in the middle of, a name and the marks that are still open complete it, so that the token at
which it stops is the first that does not fit. The completion is named by its kinds: any tokens of
these kinds will do, wherever they stand.
-/

namespace Arborist.Script

open Token (Kind)
open Cursor (Passes)

/-- What a phrase is completed by. -/
inductive Filler where
  | name
  | mark (m : Mark)

def Filler.kind : Filler → Kind
  | .name => .word "a"
  | .mark m => .mark m

abbrev Supplies (missing : List Filler) (us : List Token) : Prop :=
  List.Forall₂ (fun filler t => t.kind = filler.kind) missing us

/-- Something is missing behind the tokens, and it can be any tokens of the right kinds. -/
def Completes (wanted : List Token → Prop) (ts : List Token) : Prop :=
  ∃ missing, ∀ us, Supplies missing us → wanted (ts ++ us)

/-- If a run from the cursor fails, then at a token before which something was missing, the tokens
before the cursor counted in. -/
def Mendable {α : Type} (wanted : List Token → Prop) (front : List Token) (c : Cursor)
    (run : Except Surprise (α × Cursor)) : Prop :=
  ∀ surprise, run = .error surprise →
    ∃ ts d, Passes c d ts ∧ surprise.found = d.current ∧ Completes wanted (front ++ ts)

namespace Mendable

variable {α β : Type} {part whole : List Token → Prop} {front ts : List Token} {c d : Cursor}
  {run : Except Surprise (α × Cursor)} {next : α × Cursor → Except Surprise (β × Cursor)}

theorem ok {r : α × Cursor} : Mendable whole front c (.ok r) := by
  intro surprise failed
  exact absurd failed (by simp)

theorem missing (fillers : List Filler) {expected : Expectation}
    (completed : ∀ us, Supplies fillers us → whole (front ++ us)) :
    Mendable whole front c (.error ⟨expected, c.current⟩ : Except Surprise (α × Cursor)) := by
  intro surprise failed
  obtain rfl := Except.error.inj failed
  exact ⟨[], c, .refl c, rfl, fillers, by simpa using completed⟩

theorem bind (first : Mendable whole front c run)
    (rest : ∀ a d, run = .ok (a, d) → Mendable whole front c (next (a, d))) :
    Mendable whole front c (run >>= next) := by
  intro surprise failed
  cases same : run with
  | error found =>
    rw [same, Parser.error_bind, Except.error.injEq] at failed
    exact failed ▸ first found same
  | ok r =>
    rw [same, Parser.ok_bind] at failed
    exact rest r.1 r.2 same surprise failed

theorem behind (passes : Passes c d ts) (rest : Mendable whole (front ++ ts) d run) :
    Mendable whole front c run := by
  intro surprise failed
  obtain ⟨us, e, further, found, completes⟩ := rest surprise failed
  exact ⟨ts ++ us, e, passes.trans further, found, by rwa [← List.append_assoc]⟩

theorem inside (fillers : List Filler) (inner : Mendable part [] c run)
    (completed : ∀ us vs, part us → Supplies fillers vs → whole (front ++ (us ++ vs))) :
    Mendable whole front c run := by
  intro surprise failed
  obtain ⟨ts, d, passes, found, missing, parts⟩ := inner surprise failed
  refine ⟨ts, d, passes, found, missing ++ fillers, fun us fills => ?_⟩
  obtain ⟨first, second⟩ : Supplies missing (us.take missing.length) ∧
      Supplies fillers (us.drop missing.length) := by
    have split := List.forall₂_take_append _ _ _ (List.Forall₂.flip fills)
    have rest := List.forall₂_drop_append _ _ _ (List.Forall₂.flip fills)
    exact ⟨split.flip, rest.flip⟩
  have all := completed _ _ (parts _ first) second
  rwa [List.nil_append, List.append_assoc, List.take_append_drop, ← List.append_assoc] at all

theorem last (inner : Mendable part [] c run) (completed : ∀ us, part us → whole (front ++ us)) :
    Mendable whole front c run := by
  refine inner.inside [] fun us vs parts fills => ?_
  obtain - | - := fills
  simpa using completed us parts

theorem followedBy {m : Mark} (more : List Filler) (inner : Mendable part [] c run)
    (read : ∀ a d, run = .ok (a, d) → ∃ ts, Passes c d ts ∧ part ts)
    (completed : ∀ us t vs, part us → t.kind = .mark m → Supplies more vs →
      whole (front ++ (us ++ t :: vs)))
    (rest : ∀ a d, run = .ok (a, d) → d.current.kind = .mark m →
      Mendable whole front c (next (a, d))) :
    Mendable whole front c (run >>= fun r =>
      if r.2.isMark m then next r else .error ⟨.mark m, r.2.current⟩) := by
  refine .bind (inner.inside (.mark m :: more) ?_) fun a d same => ?_
  · rintro us vs parts (- | ⟨mark, fills⟩)
    exact completed us _ _ parts mark fills
  · dsimp only
    split
    · rename_i stands
      exact rest a d same (Cursor.isMark_iff.1 stands)
    · obtain ⟨ts, passes, parts⟩ := read a d same
      refine .behind passes (.missing (.mark m :: more) ?_)
      rintro vs (- | ⟨mark, fills⟩)
      rw [List.append_assoc]
      exact completed ts _ _ parts mark fills

theorem orNothing (inner : Mendable part [] c run) (without : whole front)
    (completed : ∀ us, us.head? = some c.current → part us → whole (front ++ us)) :
    Mendable whole front c run := by
  intro surprise failed
  obtain ⟨ts, d, passes, found, missing, parts⟩ := inner surprise failed
  refine ⟨ts, d, passes, found, ?_⟩
  cases ts with
  | nil =>
    refine ⟨[], fun us fills => ?_⟩
    obtain - | - := fills
    simpa using without
  | cons t ts =>
    refine ⟨missing, fun us fills => ?_⟩
    rw [List.append_assoc]
    exact completed _ (by simp [passes.current_eq]) (parts us fills)

end Mendable

def Phrased (least : Level) (us : List Token) : Prop := ∃ e, Derives (.expr least e) us

def PhrasedItems (us : List Token) : Prop := ∃ list, Derives (.items list) us

def PhrasedParts (us : List Token) : Prop := ∃ list, Derives (.parts list) us

theorem Phrased.lower {more least : Level} {us : List Token} (reads : Phrased more us)
    (le : least ≤ more) : Phrased least us :=
  reads.imp fun _ derives => derives.lower le

theorem named_of_filler {t : Token} (name : t.kind = Filler.name.kind) :
    Named (.name (Place.over [t]) "a") t := .intro name (by decide)

theorem phrased_of_filler {t : Token} (name : t.kind = Filler.name.kind) :
    Phrased Level.primary [t] := ⟨_, .name name (by decide)⟩

theorem mendable_phrased {least : Level} (le : least ≤ Level.primary) (c : Cursor) :
    Mendable (Phrased least) [] c
      (.error ⟨.expression, c.current⟩ : Except Surprise (Expr Place × Cursor)) := by
  refine .missing [.name] ?_
  rintro us (- | ⟨name, - | -⟩)
  exact (phrased_of_filler name).lower le

theorem Phrased.sequence {ts us : List Token} (first : Phrased Level.assignment ts)
    (rest : PhrasedParts us) : Phrased Level.sequence (ts ++ us) := by
  obtain ⟨e, head⟩ := first
  obtain ⟨list, tail⟩ := rest
  cases list with
  | nil =>
    obtain - | - := tail
    rw [List.append_nil]
    exact ⟨e, head.lower (by decide)⟩
  | cons => exact ⟨_, .sequence head tail (by simp)⟩

theorem mendable_identifier (c : Cursor) :
    Mendable (fun us => ∃ t e, us = [t] ∧ Named e t) [] c (Parser.identifier c) := by
  have lacking : Mendable (fun us => ∃ t e, us = [t] ∧ Named e t) [] c
      (.error ⟨.identifier, c.current⟩ : Except Surprise (Expr Place × Cursor)) := by
    refine .missing [.name] ?_
    rintro us (- | ⟨name, - | -⟩)
    exact ⟨_, _, rfl, named_of_filler name⟩
  rw [Parser.identifier_run]
  split
  · split
    · exact lacking
    · exact .ok
  · exact lacking

section Accepted

variable {fuel : Nat} {c d : Cursor}

theorem read_expression {e : Expr Place} (ended : c.Ended)
    (h : Parser.expression fuel c = .ok (e, d)) :
    ∃ ts, Passes c d ts ∧ Phrased Level.sequence ts := by
  obtain ⟨ts, passes, derives, -⟩ := (sound fuel).expression ended h
  exact ⟨ts, passes, e, derives⟩

theorem read_assignment {e : Expr Place} (ended : c.Ended)
    (h : Parser.assignment fuel c = .ok (e, d)) :
    ∃ ts, Passes c d ts ∧ Phrased Level.assignment ts := by
  obtain ⟨ts, passes, derives, -⟩ := (sound fuel).assignment ended h
  exact ⟨ts, passes, e, derives⟩

theorem read_items {closing : Mark} {list : List (Expr Place)} (ended : c.Ended)
    (h : Parser.items fuel closing c = .ok (list, d)) :
    ∃ ts, Passes c d ts ∧ PhrasedItems ts := by
  obtain ⟨ts, passes, derives⟩ := (sound fuel).items ended h
  exact ⟨ts, passes, list, derives⟩

end Accepted

structure Viable (fuel : Nat) : Prop where
  expression {c : Cursor} (ended : c.Ended) :
    Mendable (Phrased Level.sequence) [] c (Parser.expression fuel c)
  commaParts {c : Cursor} (ended : c.Ended) :
    Mendable PhrasedParts [] c (Parser.commaParts fuel c)
  assignment {c : Cursor} (ended : c.Ended) :
    Mendable (Phrased Level.assignment) [] c (Parser.assignment fuel c)
  conditional {c : Cursor} (ended : c.Ended) :
    Mendable (Phrased Level.conditional) [] c (Parser.conditional fuel c)
  binary {c : Cursor} {least : Nat} (ended : c.Ended) (pos : 1 ≤ least) (le : least ≤ 11) :
    Mendable (Phrased (least + 2)) [] c (Parser.binary fuel least c)
  binaryFrom {c d : Cursor} {least : Nat} {left : Expr Place} {front : List Token}
    (ended : d.Ended) (pos : 1 ≤ least) (le : least ≤ 11) (leads : Leads c d least left front) :
    Mendable (Phrased (least + 2)) front d (Parser.binaryFrom fuel c.current.start least left d)
  unary {c : Cursor} (ended : c.Ended) :
    Mendable (Phrased Level.unary) [] c (Parser.unary fuel c)
  chain {c : Cursor} (ended : c.Ended) :
    Mendable (Phrased Level.member) [] c (Parser.chain fuel c)
  chainFrom {c d : Cursor} {inner : Expr Place} {front : List Token} (ended : d.Ended)
    (passes : Passes c d front) (derives : Derives (.expr Level.member inner) front) :
    Mendable (Phrased Level.member) front d (Parser.chainFrom fuel c.current.start inner d)
  items {c : Cursor} {closing : Mark} (ended : c.Ended) :
    Mendable PhrasedItems [] c (Parser.items fuel closing c)
  primary {c : Cursor} (ended : c.Ended) :
    Mendable (Phrased Level.primary) [] c (Parser.primary fuel c)

namespace Viable

variable {fuel : Nat} {c d : Cursor} {inner left : Expr Place} {front : List Token}

theorem expression_succ (ih : Viable fuel) (ended : c.Ended) :
    Mendable (Phrased Level.sequence) [] c (Parser.expression (fuel + 1) c) := by
  rw [Parser.expression_succ]
  refine .bind ((ih.assignment ended).last fun us first => first.lower (by decide))
    fun first b read => ?_
  obtain ⟨ts, passes, derives, -⟩ := (sound fuel).assignment ended read
  split
  · refine .bind (.behind passes ((ih.commaParts (passes.ended ended)).last fun us rest => ?_))
      fun _ _ _ => .ok
    exact Phrased.sequence ⟨first, derives⟩ rest
  · exact .ok

theorem commaParts_succ (ih : Viable fuel) (ended : c.Ended) :
    Mendable PhrasedParts [] c (Parser.commaParts (fuel + 1) c) := by
  rw [Parser.commaParts_succ]
  simp only [Cursor.isMark_iff]
  split
  · rename_i comma
    have one := ended.passes_advance (by simp [comma])
    have here := one.ended ended
    refine .behind one (.bind ((ih.assignment here).last ?_) fun part b read => ?_)
    · rintro us ⟨e, part⟩
      exact ⟨[e], by simpa using Derives.moreParts comma part .noParts⟩
    · obtain ⟨ts, passes, part, -⟩ := (sound fuel).assignment here read
      refine .bind (.behind passes ((ih.commaParts (passes.ended here)).last ?_)) fun _ _ _ => .ok
      rintro us ⟨list, rest⟩
      exact ⟨_, .moreParts comma part rest⟩
  · exact .ok

theorem assignment_succ (ih : Viable fuel) (ended : c.Ended) :
    Mendable (Phrased Level.assignment) [] c (Parser.assignment (fuel + 1) c) := by
  rw [Parser.assignment_succ]
  refine .bind ((ih.conditional ended).last fun us target => target.lower (by decide))
    fun target b read => ?_
  obtain ⟨ts, passes, derives, -⟩ := (sound fuel).conditional ended read
  have here := passes.ended ended
  cases found : b.assignmentOperator? with
  | none => exact .ok
  | some operator =>
    have mark := Cursor.assignmentOperator?_eq_some.mp found
    dsimp only
    split
    · rename_i assignable
      have one := here.passes_advance (by simp [mark, operator.kind_ne_finish])
      refine .bind (.behind (passes.trans one) ((ih.assignment (one.ended here)).last ?_))
        fun _ _ _ => .ok
      rintro us ⟨value, right⟩
      exact ⟨_, by simpa using Derives.assignment derives assignable mark right⟩
    · -- what cannot be assigned to is complete without the operator
      refine .behind passes (.missing [] ?_)
      rintro us (- | -)
      exact ⟨target, by simpa using derives.lower (by decide)⟩

theorem conditional_succ (ih : Viable fuel) (ended : c.Ended) :
    Mendable (Phrased Level.conditional) [] c (Parser.conditional (fuel + 1) c) := by
  rw [Parser.conditional_succ]
  refine .bind ((ih.binary ended (by decide) (by decide)).last fun us test =>
    test.lower (by decide)) fun test b read => ?_
  obtain ⟨ts, passes, condition, -⟩ := (sound fuel).binary ended (by decide) (by decide) read
  have here := passes.ended ended
  dsimp only
  split
  · rename_i asks
    have question := Cursor.isMark_iff.1 asks
    have one := here.passes_advance (by simp [question])
    have there := one.ended here
    refine .behind (passes.trans one) ((ih.assignment there).followedBy [.name]
      (fun e g => read_assignment there) ?_ fun consequent g readPositive colon => ?_)
    · rintro us t vs ⟨consequent, positive⟩ colon (- | ⟨name, - | -⟩)
      obtain ⟨alternate, negative⟩ :=
        (phrased_of_filler name).lower (by decide : Level.assignment ≤ _)
      exact ⟨_, by simpa using Derives.conditional condition question positive colon negative⟩
    · obtain ⟨us, further, positive, -⟩ := (sound fuel).assignment there readPositive
      have beyond := further.ended there
      have two := beyond.passes_advance (by simp [colon])
      refine .behind (further.trans two)
        (.bind ((ih.assignment (two.ended beyond)).last ?_) fun _ _ _ => .ok)
      rintro vs ⟨alternate, negative⟩
      exact ⟨_, by simpa using Derives.conditional condition question positive colon negative⟩
  · exact .ok

theorem binary_succ (ih : Viable fuel) {least : Nat} (ended : c.Ended) (pos : 1 ≤ least)
    (le : least ≤ 11) : Mendable (Phrased (least + 2)) [] c (Parser.binary (fuel + 1) least c) := by
  have loose : least + 2 ≤ Level.unary := Nat.add_le_add_right (le.trans (by decide)) 2
  rw [Parser.binary_succ]
  refine .bind ((ih.unary ended).last fun us operand => operand.lower loose) fun left b read => ?_
  obtain ⟨ts, passes, derives, stops⟩ := (sound fuel).unary ended read
  refine .behind passes (ih.binaryFrom (passes.ended ended) pos le
    ⟨passes, derives.lower loose, ?_, stops⟩)
  intro operator notComma _ _
  refine derives.lower ?_
  unfold leftLevel
  split
  · exact le_refl _
  · exact (BinaryOperator.level_bounds notComma).2.le

theorem binaryFrom_succ (ih : Viable fuel) {least : Nat} (ended : d.Ended) (pos : 1 ≤ least)
    (le : least ≤ 11) (leads : Leads c d least left front) :
    Mendable (Phrased (least + 2)) front d
      (Parser.binaryFrom (fuel + 1) c.current.start least left d) := by
  rw [Parser.binaryFrom_succ]
  cases found : d.binaryOperator? with
  | none => exact .ok
  | some operator =>
    obtain ⟨notComma, mark⟩ := Cursor.binaryOperator?_eq_some.mp found
    dsimp only
    split
    · exact .ok
    · rename_i high
      have most := Nat.le_of_not_lt high
      have one := ended.passes_advance (by simp [mark, operator.kind_ne_finish])
      have here := one.ended ended
      obtain ⟨atLeast, atMost⟩ := rightLeast_bounds notComma
      refine .bind (.behind one ((ih.binary here atLeast atMost).last ?_)) fun right b read => ?_
      · rintro us ⟨right, second⟩
        have whole := Derives.joined notComma (leads.ready operator notComma mark most) mark second
        have loose : least + 2 ≤ Level.ofBinary operator := by
          rw [(BinaryOperator.level_eq notComma).1]
          exact Nat.add_le_add_right most 2
        exact ⟨_, by simpa using whole.lower loose⟩
      · obtain ⟨us, further, second, stops⟩ := (sound fuel).binary here atLeast atMost read
        have all := leads.passes.trans (one.trans further)
        have whole := leads.binary notComma mark most all second stops
        rw [all.place_of_ne_nil (by simp)]
        exact .behind (one.trans further) (ih.binaryFrom (further.ended here) pos le whole)

theorem unary_succ (ih : Viable fuel) (ended : c.Ended) :
    Mendable (Phrased Level.unary) [] c (Parser.unary (fuel + 1) c) := by
  rw [Parser.unary_succ]
  cases found : c.unaryOperator? with
  | some operator =>
    have mark := Cursor.unaryOperator?_eq_some.mp found
    have one := ended.passes_advance (by simp [mark, operator.kind_ne_finish])
    refine .bind (.behind one ((ih.unary (one.ended ended)).last ?_)) fun _ _ _ => .ok
    rintro us ⟨argument, derives⟩
    exact ⟨_, .unary mark derives⟩
  | none =>
  cases prior : c.updateOperator? with
  | some operator =>
    have mark := Cursor.updateOperator?_eq_some.mp prior
    have one := ended.passes_advance (by simp [mark, operator.kind_ne_finish])
    refine .bind (.behind one ((ih.unary (one.ended ended)).last ?_)) fun _ _ _ => .ok
    rintro us ⟨argument, derives⟩
    exact ⟨_, .updating mark derives⟩
  | none =>
    refine .bind ((ih.chain ended).last fun us argument => argument.lower (by decide))
      fun argument b _ => ?_
    dsimp only
    split
    · split
      · exact .ok
      · exact .ok
    · exact .ok

theorem chain_succ (ih : Viable fuel) (ended : c.Ended) :
    Mendable (Phrased Level.member) [] c (Parser.chain (fuel + 1) c) := by
  rw [Parser.chain_succ]
  refine .bind ((ih.primary ended).last fun us first => first.lower (by decide))
    fun first b read => ?_
  obtain ⟨ts, passes, derives⟩ := (sound fuel).primary ended read
  exact .behind passes (ih.chainFrom (passes.ended ended) passes (derives.lower (by decide)))

theorem chainFrom_succ (ih : Viable fuel) (ended : d.Ended) (passes : Passes c d front)
    (derives : Derives (.expr Level.member inner) front) :
    Mendable (Phrased Level.member) front d
      (Parser.chainFrom (fuel + 1) c.current.start inner d) := by
  rw [Parser.chainFrom_succ]
  split
  · rename_i dots
    have dot := Cursor.isMark_iff.1 dots
    have one := ended.passes_advance (by simp [dot])
    have here := one.ended ended
    refine .behind one ?_
    split
    · rename_i name word
      have two := here.passes_advance (by simp [word])
      have all := passes.trans (one.trans two)
      rw [all.place_of_ne_nil (by simp), two.place_of_ne_nil (by simp)]
      refine .behind two ?_
      rw [List.append_assoc]
      exact ih.chainFrom (two.ended here) all (.dot derives dot word)
    · refine .missing [.name] ?_
      rintro us (- | ⟨name, - | -⟩)
      exact ⟨_, by simpa using Derives.dot derives dot name⟩
  split
  · rename_i opens
    have opening := Cursor.isMark_iff.1 opens
    have one := ended.passes_advance (by simp [opening])
    have here := one.ended ended
    refine .behind one ((ih.expression here).followedBy [] (fun e b => read_expression here) ?_
      fun property b read closing => ?_)
    · rintro us t vs ⟨property, index⟩ closing (- | -)
      exact ⟨_, by simpa using Derives.bracket derives opening index closing⟩
    · obtain ⟨ts, further, index, -⟩ := (sound fuel).expression here read
      have two := (further.ended here).passes_advance (by simp [closing])
      have all := passes.trans (one.trans (further.trans two))
      rw [all.place_of_ne_nil (by simp)]
      refine .behind (further.trans two) ?_
      rw [List.append_assoc]
      exact ih.chainFrom (two.ended (further.ended here)) all
        (.bracket derives opening index closing)
  split
  · rename_i opens
    have opening := Cursor.isMark_iff.1 opens
    have one := ended.passes_advance (by simp [opening])
    have here := one.ended ended
    refine .behind one ((ih.items here).followedBy [] (fun list b => read_items here) ?_
      fun arguments b read closing => ?_)
    · rintro us t vs ⟨arguments, list⟩ closing (- | -)
      exact ⟨_, by simpa using Derives.call derives opening list closing⟩
    · obtain ⟨ts, further, list⟩ := (sound fuel).items here read
      have two := (further.ended here).passes_advance (by simp [closing])
      have all := passes.trans (one.trans (further.trans two))
      rw [all.place_of_ne_nil (by simp)]
      refine .behind (further.trans two) ?_
      rw [List.append_assoc]
      exact ih.chainFrom (two.ended (further.ended here)) all (.call derives opening list closing)
  · exact .ok

theorem items_succ (ih : Viable fuel) {closing : Mark} (ended : c.Ended) :
    Mendable PhrasedItems [] c (Parser.items (fuel + 1) closing c) := by
  rw [Parser.items_succ]
  split
  · exact .ok
  · refine .bind ((ih.assignment ended).last ?_) fun item b read => ?_
    · rintro us ⟨item, derives⟩
      exact ⟨[item], .oneItem derives⟩
    · obtain ⟨ts, passes, derives, -⟩ := (sound fuel).assignment ended read
      have here := passes.ended ended
      simp only [Cursor.isMark_iff]
      split
      · rename_i comma
        have one := here.passes_advance (by simp [comma])
        refine .bind (.behind (passes.trans one) ((ih.items (one.ended here)).last ?_))
          fun _ _ _ => .ok
        rintro us ⟨list, rest⟩
        exact ⟨_, by simpa using Derives.moreItems derives comma rest⟩
      · exact .ok

theorem primary_succ (ih : Viable fuel) (ended : c.Ended) :
    Mendable (Phrased Level.primary) [] c (Parser.primary (fuel + 1) c) := by
  rw [Parser.primary_succ]
  split
  · exact .ok
  · exact .ok
  · split
    · exact .ok
    · split
      · exact .ok
      · refine (mendable_identifier c).last ?_
        rintro us ⟨t, e, rfl, named⟩
        cases named with
        | intro word free => exact ⟨_, .name word free⟩
  · rename_i opening
    have one := ended.passes_advance (by simp [opening])
    have here := one.ended ended
    refine .behind one ((ih.expression here).followedBy [] (fun e b => read_expression here) ?_
      fun _ _ _ _ => .ok)
    rintro us t vs ⟨inner, derives⟩ closing (- | -)
    exact ⟨_, .paren opening derives closing⟩
  · rename_i opening
    have one := ended.passes_advance (by simp [opening])
    have here := one.ended ended
    refine .behind one ((ih.items here).followedBy [] (fun list b => read_items here) ?_
      fun _ _ _ _ => .ok)
    rintro us t vs ⟨elements, list⟩ closing (- | -)
    exact ⟨_, .array opening list closing⟩
  · exact mendable_phrased (by decide) c

end Viable

/-- Without fuel a parser fails where it stands, and what it was to read is completed from there. -/
theorem viable_zero : Viable 0 := by
  constructor <;> intros <;>
    simp only [Parser.expression, Parser.commaParts, Parser.assignment, Parser.conditional,
      Parser.binary, Parser.binaryFrom, Parser.unary, Parser.chain, Parser.chainFrom, Parser.items,
      Parser.primary, Parser.fail]
  case binary le => exact mendable_phrased (Nat.add_le_add_right (le.trans (by decide)) 2) _
  case commaParts => exact .missing [] fun us fills => ⟨[], by cases fills; exact .noParts⟩
  case items => exact .missing [] fun us fills => ⟨[], by cases fills; exact .noItems⟩
  case binaryFrom leads =>
    exact .missing [] fun us fills => ⟨_, by cases fills; simpa using leads.derives⟩
  case chainFrom derives =>
    exact .missing [] fun us fills => ⟨_, by cases fills; simpa using derives⟩
  all_goals exact mendable_phrased (by decide) _

theorem viable (fuel : Nat) : Viable fuel := by
  induction fuel with
  | zero => exact viable_zero
  | succ fuel ih =>
    exact ⟨ih.expression_succ, ih.commaParts_succ, ih.assignment_succ, ih.conditional_succ,
      ih.binary_succ, ih.binaryFrom_succ, ih.unary_succ, ih.chain_succ, ih.chainFrom_succ,
      ih.items_succ, ih.primary_succ⟩

end Arborist.Script

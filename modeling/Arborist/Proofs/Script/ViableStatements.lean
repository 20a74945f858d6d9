import Mathlib
import Arborist.Proofs.Script.StatementLockstep
import Arborist.Proofs.Script.Viable

/-!
A parser of statements that fails has passed over tokens that some statements begin with. A
statement that is broken off is completed as its expressions are and then ended by what closes the
block or the text; one that has not begun is left out.
-/

namespace Arborist.Script

open Token (Kind)
open Cursor (Passes)

def Shuts (next : Token) : Prop := next.kind = .finish ∨ next.kind = .mark .closeBrace

section Shuts

variable {next other : Token}

theorem Shuts.kind_ne (shuts : Shuts next) {kind : Kind} (inner : kind ≠ .finish)
    (brace : kind ≠ .mark .closeBrace) : next.kind ≠ kind := by
  rcases shuts with ends | ends
  · exact ends ▸ inner.symm
  · exact ends ▸ brace.symm

theorem Shuts.stops (shuts : Shuts next) (phrase : List Token) (least : Level) :
    Stops phrase next least := by
  have free : binds phrase next = none := by
    rcases shuts with ends | ends
    · rw [binds, ends]
    · rw [binds, ends]
      rfl
  simp [Stops, free]

theorem Shuts.terminated (shuts : Shuts next) : Terminated [] next :=
  .free (shuts.kind_ne (by simp) (by simp)) (.inr shuts)

theorem Declares.shut {d : Declarator Place} {ts : List Token} (declares : Declares d ts next)
    (shuts : Shuts other) : Declares d ts other := by
  cases declares with
  | plain name => exact .plain name (shuts.kind_ne (by simp) (by simp))
  | initial name mark inner => exact .initial name mark inner (shuts.stops _ _)

theorem DeclaresAll.shut {list : List (Declarator Place)} {ts : List Token}
    (declares : DeclaresAll list ts next) (shuts : Shuts other) : DeclaresAll list ts other := by
  induction declares with
  | last one => exact .last (one.shut shuts) (shuts.kind_ne (by simp) (by simp))
  | more one comma _ ih => exact .more one comma ih

theorem Forms.shut {passage : Passage} {ts : List Token} (forms : Forms passage ts next)
    (shuts : Shuts other) : Forms passage ts other := by
  induction forms with
  | declaration word declarators ends =>
    cases ends with
    | semicolon mark => exact .declaration word declarators (.semicolon mark)
    | free => exact .declaration word (declarators.shut shuts) shuts.terminated
  | function front _ ih => exact .function front ih
  | block _ ih => exact .block ih
  | leave word ends =>
    cases ends with
    | semicolon mark => exact .leave word (.semicolon mark)
    | free => exact .leave word shuts.terminated
  | ret word inner sameLine stops ends =>
    cases ends with
    | semicolon mark => exact .ret word inner sameLine stops (.semicolon mark)
    | free => exact .ret word inner sameLine (shuts.stops _ _) shuts.terminated
  | expression inner stops ends =>
    cases ends with
    | semicolon mark => exact .expression inner stops (.semicolon mark)
    | free => exact .expression inner (shuts.stops _ _) shuts.terminated
  | branch word opening condition closing _ _ ih =>
    exact .branch word opening condition closing ih (shuts.kind_ne (by simp) (by simp))
  | choice word opening condition closing positive another _ _ ih =>
    exact .choice word opening condition closing positive another ih
  | empty mark => exact .empty mark
  | braces opening inner closing => exact .braces opening inner closing
  | done => exact .done
  | @more _ _ us _ _ first _ one rest =>
    cases us with
    | nil => exact .more one rest
    | cons => exact .more first rest

end Shuts

def Lists (us : List Token) : Prop := ∃ list, Parameters list us

def Introduces (us : List Token) : Prop := ∀ next, Shuts next → ∃ list, DeclaresAll list us next

def Announces (us : List Token) : Prop := ∃ head, Heads head us

def States (us : List Token) : Prop := ∀ next, Shuts next → ∃ s, Forms (.statement s) us next

def Encloses (us : List Token) : Prop := ∀ next, ∃ place list, Forms (.block place list) us next

def Contains (us : List Token) : Prop := ∀ next, Shuts next → ∃ list, Forms (.body list) us next

theorem contains_nil : Contains [] := fun _ _ => ⟨[], .done⟩

theorem States.contains {us : List Token} (states : States us) : Contains us := by
  intro next shuts
  obtain ⟨s, one⟩ := states next shuts
  exact ⟨[s], by simpa using @Forms.more next us [] s [] one .done⟩

theorem Contains.cons {s : Stmt Place} {ts us : List Token} {t : Token}
    (first : Forms (.statement s) ts t) (head : us.head? = some t) (rest : Contains us) :
    Contains (ts ++ us) := by
  intro next shuts
  obtain ⟨list, others⟩ := rest next shuts
  refine ⟨s :: list, .more ?_ others⟩
  rwa [List.headD_eq_head?_getD, head, Option.getD_some]

theorem contains_of_forms {s : Stmt Place} {ts : List Token} {t : Token}
    (first : Forms (.statement s) ts t) : Contains ts :=
  States.contains fun _ shuts => ⟨s, first.shut shuts⟩

theorem encloses_of_fillers {us : List Token}
    (fills : Supplies [.mark .openBrace, .mark .closeBrace] us) : Encloses us := by
  obtain - | ⟨opening, - | ⟨closing, - | -⟩⟩ := fills
  exact fun next => ⟨_, [], by simpa using Forms.braces opening .done closing⟩

/-- Where a semicolon is missing, the end will do. -/
theorem Mendable.unended {α : Type} {whole : List Token → Prop} {front : List Token} {c : Cursor}
    {a b : α × Cursor} (completed : whole front) :
    Mendable whole front c (if c.isMark .semicolon then .ok a
      else if c.endsStatement then .ok b else .error ⟨.mark .semicolon, c.current⟩) := by
  split
  · exact .ok
  split
  · exact .ok
  · refine .missing [] ?_
    rintro us (- | -)
    simpa using completed

theorem mendable_parameters (fuel : Nat) {c : Cursor} (ended : c.Ended) :
    Mendable Lists [] c (Parser.parameters fuel c) := by
  induction fuel generalizing c with
  | zero =>
    rw [Parser.parameters]
    refine .missing [] ?_
    rintro us (- | -)
    exact ⟨[], .none⟩
  | succ fuel ih =>
    rw [Parser.parameters_succ]
    split
    · exact .ok
    · refine .bind ((mendable_identifier c).last ?_) fun name b read => ?_
      · rintro us ⟨t, e, rfl, named⟩
        exact ⟨[e], .one named⟩
      · obtain ⟨t, passes, named⟩ := named_of_identifier ended read
        have here := passes.ended ended
        simp only [Cursor.isMark_iff]
        split
        · rename_i comma
          have one := here.passes_advance (by simp [comma])
          refine .bind (.behind (passes.trans one) ((ih (one.ended here)).last ?_))
            fun _ _ _ => .ok
          rintro us ⟨list, rest⟩
          exact ⟨_, .more named comma rest⟩
        · exact .ok

theorem introduces_of_named {e : Expr Place} {t : Token} (named : Named e t) : Introduces [t] :=
  fun _ shuts => ⟨_, .last (.plain named (shuts.kind_ne (by simp) (by simp)))
    (shuts.kind_ne (by simp) (by simp))⟩

theorem mendable_initial {fuel : Nat} {b : Cursor} {name : Expr Place} {t : Token} (ended : b.Ended)
    (named : Named name t) : Mendable Introduces [t] b (Parser.initial fuel b) := by
  simp only [Parser.initial, Cursor.isMark_iff]
  split
  · rename_i mark
    have one := ended.passes_advance (by simp [mark])
    refine .bind (.behind one (((viable fuel).assignment (one.ended ended)).last ?_))
      fun _ _ _ => .ok
    rintro us ⟨value, inner⟩ next shuts
    exact ⟨_, .last (.initial named mark inner (shuts.stops _ _))
      (shuts.kind_ne (by simp) (by simp))⟩
  · exact .ok

theorem mendable_declarators (fuel : Nat) {c : Cursor} (ended : c.Ended) :
    Mendable Introduces [] c (Parser.declarators fuel c) := by
  induction fuel generalizing c with
  | zero =>
    rw [Parser.declarators]
    refine .missing [.name] ?_
    rintro us (- | ⟨name, - | -⟩)
    exact introduces_of_named (named_of_filler name)
  | succ fuel ih =>
    rw [Parser.declarators_succ]
    refine .bind ((mendable_identifier c).last ?_) fun name b read => ?_
    · rintro us ⟨t, e, rfl, named⟩
      exact introduces_of_named named
    obtain ⟨t, first, named⟩ := named_of_identifier ended read
    have here := first.ended ended
    refine .bind (.behind first (mendable_initial here named)) fun value g initial => ?_
    obtain ⟨ts, -, passes, declares⟩ := declares_of_initial here first named initial
    have there := passes.ended ended
    simp only [Cursor.isMark_iff]
    split
    · rename_i comma
      have one := there.passes_advance (by simp [comma])
      refine .bind (.behind (passes.trans one) ((ih (one.ended there)).last ?_)) fun _ _ _ => .ok
      intro us rest next shuts
      obtain ⟨list, others⟩ := rest next shuts
      exact ⟨_, by simpa using DeclaresAll.more declares comma others⟩
    · exact .ok

theorem mendable_declaration {fuel : Nat} {kind : DeclarationKind} {c : Cursor} (ended : c.Ended)
    (word : c.current.kind = .word kind.text) :
    Mendable States [] c (Parser.declaration fuel kind c) := by
  have one := ended.passes_advance (by simp [word])
  have here := one.ended ended
  have completed : ∀ us, Introduces us → States (c.current :: us) := by
    intro us introduces next shuts
    obtain ⟨list, declarators⟩ := introduces next shuts
    exact ⟨_, by simpa using @Forms.declaration _ next us [] _ _ word declarators shuts.terminated⟩
  have atWord : c.atWord = true := by rw [Cursor.atWord, word]
  rw [Parser.declaration_run, if_pos atWord]
  refine .behind one (.bind ((mendable_declarators fuel here).last completed) fun list b read => ?_)
  obtain ⟨ts, passes, declarators⟩ := declarators_sound fuel here read
  exact .behind passes (.unended (completed ts fun _ shuts => ⟨list, declarators.shut shuts⟩))

section Functions

variable {fuel : Nat} {c d : Cursor} {f : Token} {front star : List Token}
  {isAsync isGenerator : Bool}

theorem mendable_named
    (async : if isAsync then ∃ t : Token, front = [t] ∧ t.kind = .word "async" ∧
      f.newlineBefore = false else front = [])
    (word : f.kind = .word "function")
    (generator : if isGenerator then ∃ t : Token, star = [t] ∧ t.kind = .mark .times
      else star = []) (ended : d.Ended) :
    Mendable Announces (front ++ f :: star) d (Parser.named isAsync isGenerator fuel d) := by
  refine (mendable_identifier d).followedBy [.mark .closeParen] (fun e b read => ?_) ?_
    fun e b read opening => ?_
  · obtain ⟨t, passes, named⟩ := named_of_identifier ended read
    exact ⟨[t], passes, t, e, rfl, named⟩
  · rintro us a vs ⟨t, e, rfl, named⟩ opening (- | ⟨closing, - | -⟩)
    exact ⟨_, by simpa using Heads.intro async word generator named opening .none closing⟩
  · obtain ⟨t, passes, named⟩ := named_of_identifier ended read
    have here := passes.ended ended
    have one := here.passes_advance (by simp [opening])
    refine .behind (passes.trans one) ((mendable_parameters fuel (one.ended here)).followedBy []
      (fun list g read => ?_) ?_ fun _ _ _ _ => .ok)
    · obtain ⟨ts, further, parameters⟩ := parameters_sound fuel (one.ended here) read
      exact ⟨ts, further, list, parameters⟩
    · rintro us b vs ⟨list, parameters⟩ closing (- | -)
      exact ⟨_, by simpa using Heads.intro async word generator named opening parameters closing⟩

theorem mendable_headed (ended : d.Ended)
    (async : if isAsync then ∃ t : Token, front = [t] ∧ t.kind = .word "async" ∧
      d.current.newlineBefore = false else front = [])
    (word : d.current.kind = .word "function") :
    Mendable Announces front d (Parser.headed isAsync fuel d) := by
  have one := ended.passes_advance (by simp [word])
  have here := one.ended ended
  rw [Parser.headed, if_pos (Cursor.isWord_iff.2 word)]
  refine .behind one ?_
  rw [Parser.starred]
  split
  · rename_i times
    have mark := Cursor.isMark_iff.1 times
    have two := here.passes_advance (by simp [mark])
    refine .behind two ?_
    rw [List.append_assoc]
    exact mendable_named async word (by simpa using mark) (two.ended here)
  · exact mendable_named async word (by simp) here

theorem mendable_functionHead (ended : c.Ended) (starts : c.startsFunction = true) :
    Mendable Announces [] c (Parser.functionHead fuel c) := by
  rw [Parser.functionHead_eq]
  split
  · rename_i isAsync
    have async := Cursor.isWord_iff.1 isAsync
    have one := ended.passes_advance (by simp [async])
    rw [Cursor.startsFunction_of_async ended isAsync, Bool.and_eq_true, Bool.not_eq_true'] at starts
    exact .behind one (mendable_headed (one.ended ended) (by simp [async, starts.2])
      (Cursor.isWord_iff.1 starts.1))
  · rename_i other
    rw [Cursor.startsFunction_of_not_async (by simpa using other)] at starts
    exact mendable_headed ended (by simp) (Cursor.isWord_iff.1 starts)

end Functions

structure ViableStatements (fuel : Nat) : Prop where
  statement {c : Cursor} (ended : c.Ended) : Mendable States [] c (Parser.statement fuel c)
  block {c : Cursor} (ended : c.Ended) : Mendable Encloses [] c (Parser.block fuel c)
  blockBody {c : Cursor} (ended : c.Ended) : Mendable Contains [] c (Parser.blockBody fuel c)

namespace ViableStatements

variable {fuel : Nat} {c d : Cursor}

theorem leaving {start : Nat} (ended : c.Ended) (word : c.current.kind = .word "return") :
    Mendable States [] c (Parser.leaving fuel start c.advance) := by
  have one := ended.passes_advance (by simp [word])
  have here := one.ended ended
  refine .behind one ?_
  rw [Parser.leaving]
  split
  · exact .ok
  split
  · exact .ok
  · rename_i going
    have sameLine : c.advance.current.newlineBefore = false := by
      simp only [Cursor.endsStatement_iff, MayEnd, not_or] at going
      simpa using going.1
    have completed : ∀ us, us.head? = some c.advance.current → Phrased Level.sequence us →
        States (c.current :: us) := by
      rintro us head ⟨argument, inner⟩ next shuts
      have leads : ∀ first ∈ us.head?, first.newlineBefore = false := by simpa [head] using sameLine
      have whole := @Forms.ret _ next us [] _ word inner leads (shuts.stops _ _) shuts.terminated
      exact ⟨_, by simpa using whole⟩
    refine .bind (((viable fuel).expression here).orNothing ?_ completed) fun argument b read => ?_
    · exact fun next shuts => ⟨_, .leave word shuts.terminated⟩
    · obtain ⟨ts, passes, inner, -⟩ := (sound fuel).expression here read
      obtain ⟨t, rest, rfl⟩ := List.exists_cons_of_ne_nil inner.ne_nil
      exact .behind passes
        (.unended (completed (t :: rest) (by simp [passes.current_eq]) ⟨argument, inner⟩))

theorem stating (ended : c.Ended) : Mendable States [] c (Parser.stating fuel c) := by
  have completed : ∀ us, Phrased Level.sequence us → States us := by
    rintro us ⟨e, inner⟩ next shuts
    have whole := @Forms.expression next us [] _ inner (shuts.stops _ _) shuts.terminated
    exact ⟨_, by simpa using whole⟩
  refine .bind (((viable fuel).expression ended).last completed) fun e b read => ?_
  obtain ⟨ts, passes, inner, -⟩ := (sound fuel).expression ended read
  exact .behind passes (.unended (completed ts ⟨e, inner⟩))

theorem branch_of_empty {t a b u next : Token} {ts : List Token} {test : Expr Place}
    (word : t.kind = .word "if") (opening : a.kind = .mark .openParen)
    (condition : Derives (.expr Level.sequence test) ts) (closing : b.kind = .mark .closeParen)
    (mark : u.kind = .mark .semicolon) (shuts : Shuts next) :
    Forms (.statement (.branch (Place.over (t :: a :: (ts ++ [b, u]))) test
      (.empty (Place.over [u])) none)) (t :: a :: (ts ++ [b, u])) next :=
  .branch word opening condition closing (.empty mark) (shuts.kind_ne (by simp) (by simp))

theorem branching (ih : ViableStatements fuel) {start : Nat} (ended : c.Ended)
    (word : c.current.kind = .word "if") :
    Mendable States [] c (Parser.branching fuel start c.advance) := by
  have one := ended.passes_advance (by simp [word])
  have here := one.ended ended
  refine .behind one ?_
  rw [Parser.branching]
  split
  · rename_i opens
    have opening := Cursor.isMark_iff.1 opens
    have two := here.passes_advance (by simp [opening])
    have there := two.ended here
    refine .behind two (((viable fuel).expression there).followedBy [.mark .semicolon]
      (fun e b => read_expression there) ?_ fun test b read closing => ?_)
    · rintro us t vs ⟨test, condition⟩ closing (- | ⟨mark, - | -⟩) next shuts
      have whole := branch_of_empty word opening condition closing mark shuts
      exact ⟨_, by simpa using whole⟩
    · obtain ⟨ts, passes, condition, -⟩ := (sound fuel).expression there read
      have three := (passes.ended there).passes_advance (by simp [closing])
      have beyond := three.ended (passes.ended there)
      refine .behind (passes.trans three) (.bind ((ih.statement beyond).last ?_)
        fun consequent g positively => ?_)
      · intro us positive next shuts
        obtain ⟨consequent, positive⟩ := positive next shuts
        have whole := Forms.branch word opening condition closing positive
          (shuts.kind_ne (by simp) (by simp))
        exact ⟨_, by simpa using whole⟩
      · obtain ⟨us, -, further, positive⟩ := (statementsSound fuel).statement beyond positively
        simp only [Cursor.isWord_iff]
        split
        · rename_i other
          have four := (further.ended beyond).passes_advance (by simp [other])
          refine .behind (further.trans four) (.bind
            ((ih.statement (four.ended (further.ended beyond))).last ?_) fun _ _ _ => .ok)
          intro vs negative next shuts
          obtain ⟨alternate, negative⟩ := negative next shuts
          have whole := Forms.choice word opening condition closing positive other negative
          exact ⟨_, by simpa using whole⟩
        · exact .ok
  · refine .missing [.mark .openParen, .name, .mark .closeParen, .mark .semicolon] ?_
    rintro us (- | ⟨opening, - | ⟨name, - | ⟨closing, - | ⟨mark, - | -⟩⟩⟩⟩) next shuts
    obtain ⟨test, condition⟩ := (phrased_of_filler name).lower (by decide : Level.sequence ≤ _)
    have whole := branch_of_empty word opening condition closing mark shuts
    exact ⟨_, by simpa using whole⟩

theorem functioning (ih : ViableStatements fuel) (ended : c.Ended)
    (starts : c.startsFunction = true) :
    Mendable States [] c (Parser.functioning fuel c) := by
  refine .bind ((mendable_functionHead ended starts).inside
    [.mark .openBrace, .mark .closeBrace] ?_) fun head b read => ?_
  · rintro us vs ⟨head, front⟩ fills next shuts
    obtain ⟨place, body, inner⟩ := encloses_of_fillers fills next
    have whole := Forms.function front inner
    exact ⟨_, whole⟩
  · obtain ⟨ts, -, passes, front⟩ := functionHead_sound ended starts read
    refine .bind (.behind passes ((ih.block (passes.ended ended)).last ?_)) fun _ _ _ => .ok
    intro us encloses next shuts
    obtain ⟨place, body, inner⟩ := encloses next
    exact ⟨_, .function front inner⟩

theorem statement_succ (ih : ViableStatements fuel) (ended : c.Ended) :
    Mendable States [] c (Parser.statement (fuel + 1) c) := by
  rw [Parser.statement_eq]
  cases declares : c.declarationKind? with
  | some kind => exact mendable_declaration ended (Cursor.declarationKind?_eq_some.mp declares)
  | none =>
  dsimp only
  split
  · rename_i starts
    exact ih.functioning ended starts
  rw [Parser.acting]
  split
  · rename_i returns
    exact leaving ended (Cursor.isWord_iff.1 returns)
  split
  · rename_i branches
    exact ih.branching ended (Cursor.isWord_iff.1 branches)
  split
  · refine .bind ((ih.block ended).last ?_) fun _ _ _ => .ok
    intro us encloses next shuts
    obtain ⟨place, body, inner⟩ := encloses next
    exact ⟨_, .block inner⟩
  split
  · exact .ok
  · exact stating ended

theorem block_succ (ih : ViableStatements fuel) (ended : c.Ended) :
    Mendable Encloses [] c (Parser.block (fuel + 1) c) := by
  rw [Parser.block_succ]
  split
  · rename_i opens
    have opening := Cursor.isMark_iff.1 opens
    have one := ended.passes_advance (by simp [opening])
    have here := one.ended ended
    refine .behind one ((ih.blockBody here).followedBy [] (fun list b read => ?_) ?_
      fun _ _ _ _ => .ok)
    · obtain ⟨ts, passes, inner⟩ := (statementsSound fuel).blockBody here read
      exact ⟨ts, passes, fun next shuts => ⟨list, inner.shut shuts⟩⟩
    · rintro us t vs contains closing (- | -) next
      obtain ⟨list, inner⟩ := contains t (.inr closing)
      exact ⟨_, list, .braces opening inner closing⟩
  · exact .missing [.mark .openBrace, .mark .closeBrace] fun _ => encloses_of_fillers

theorem following {rest : Cursor → Except Surprise (List (Stmt Place) × Cursor)} (ended : c.Ended)
    (first : Mendable States [] c (Parser.statement fuel c))
    (others : ∀ {d : Cursor}, d.Ended → Mendable Contains [] d (rest d)) :
    Mendable Contains [] c (Parser.statement fuel c >>= fun r =>
      rest r.2 >>= fun s => .ok (r.1 :: s.1, s.2)) := by
  refine .bind (first.last fun us states => states.contains) fun s b read => ?_
  obtain ⟨ts, -, passes, one⟩ := (statementsSound fuel).statement ended read
  refine .bind (.behind passes ((others (passes.ended ended)).orNothing ?_ ?_)) fun _ _ _ => .ok
  · exact contains_of_forms one
  · exact fun us head contains => contains.cons one head

theorem blockBody_succ (ih : ViableStatements fuel) (ended : c.Ended) :
    Mendable Contains [] c (Parser.blockBody (fuel + 1) c) := by
  rw [Parser.blockBody_succ]
  split
  · exact .ok
  split
  · refine .missing [] ?_
    rintro us (- | -)
    exact contains_nil
  · exact following ended (ih.statement ended) ih.blockBody

end ViableStatements

theorem viableStatements (fuel : Nat) : ViableStatements fuel := by
  induction fuel with
  | zero =>
    constructor <;> intros <;>
      simp only [Parser.statement, Parser.block, Parser.blockBody, Parser.fail]
    case statement =>
      refine .missing [.mark .semicolon] ?_
      rintro us (- | ⟨mark, - | -⟩) next shuts
      exact ⟨_, .empty mark⟩
    case block => exact .missing [.mark .openBrace, .mark .closeBrace] fun _ => encloses_of_fillers
    case blockBody => exact .missing [] fun us supplies => by cases supplies; exact contains_nil
  | succ fuel ih => exact ⟨ih.statement_succ, ih.block_succ, ih.blockBody_succ⟩

theorem mendable_body (fuel : Nat) {c : Cursor} (ended : c.Ended) :
    Mendable Contains [] c (Parser.body fuel c) := by
  induction fuel generalizing c with
  | zero =>
    rw [Parser.body]
    refine .missing [] ?_
    rintro us (- | -)
    exact contains_nil
  | succ fuel ih =>
    rw [Parser.body_succ]
    split
    · exact .ok
    · exact ViableStatements.following ended ((viableStatements fuel).statement ended) ih

/-- The tokens before the one at which a program is refused begin some program. -/
theorem completes_of_refused {text : List Char} {front rest : List Token} {surprise : Surprise}
    (scanned : Token.scan text = .ok (front ++ surprise.found :: rest))
    (refused : Parser.program (front ++ surprise.found :: rest) = .error surprise) :
    Completes Contains front := by
  obtain ⟨ready, here⟩ := ready_of_scan scanned
  obtain ⟨ts, d, passes, stops, completes⟩ :=
    mendable_body _ ready.ended surprise (body_of_refused refused)
  have standing : Passes (Cursor.ofTokens (front ++ surprise.found :: rest))
      ⟨_, surprise.found, rest⟩ front := ⟨here, rfl⟩
  obtain ⟨rfl, -⟩ := passes.unique standing ready.apart stops.symm
  exact completes

end Arborist.Script

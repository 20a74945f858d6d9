import Mathlib
import Arborist.Proofs.Script.RoundTrip

/-!
How many lines the code of a program takes. Tokens and the gaps inside an expression stay on one line,
so line feeds stand before statements and at braces only: there are at most four for each statement.
A text has no more statements than characters.
-/

namespace Arborist

theorem Token.length_le_of_scanFrom {offset : Nat} {newline : Bool} {text : List Char}
    {tokens : List Token} (scanned : scanFrom offset newline text = .ok tokens) :
    tokens.length ≤ text.length + 1 := by
  fun_induction scanFrom offset newline text generalizing tokens with
  | case1 =>
    simp only [Except.ok.injEq] at scanned
    simp [← scanned]
  | case2 =>
    rename_i ih
    have := ih scanned
    simp at this ⊢
    omega
  | case3 =>
    rename_i rest read ih
    simp only [Except.ok.injEq] at scanned
    have := ih read
    simp [← scanned] at this ⊢
    omega
  | case4 => simp at scanned
  | case5 => simp at scanned

namespace Chunk

def breaks : List Chunk → Nat
  | [] => 0
  | .gap blanks :: rest => blanks.count '\n' + breaks rest
  | .token _ :: rest => breaks rest

@[simp] theorem breaks_nil : breaks [] = 0 := rfl

@[simp] theorem breaks_gap (blanks : List Char) (rest : List Chunk) :
    breaks (.gap blanks :: rest) = blanks.count '\n' + breaks rest := rfl

@[simp] theorem breaks_token (kind : Token.Kind) (rest : List Chunk) :
    breaks (.token kind :: rest) = breaks rest := rfl

@[simp] theorem breaks_mark (m : Mark) (rest : List Chunk) : breaks (mark m :: rest) = breaks rest := rfl

@[simp] theorem breaks_blank (rest : List Chunk) : breaks (blank :: rest) = breaks rest := by
  simp [blank]

@[simp] theorem breaks_append (front rest : List Chunk) :
    breaks (front ++ rest) = breaks front + breaks rest := by
  induction front with
  | nil => simp
  | cons chunk more ih => cases chunk <;> simp [ih, Nat.add_assoc]

@[simp] theorem breaks_enclosed (needs : Bool) (chunks : List Chunk) :
    breaks (enclosed needs chunks) = breaks chunks := by
  cases needs <;> simp [enclosed]

theorem breaks_separated {parts : List (List Chunk)} (flat : ∀ part ∈ parts, breaks part = 0) :
    breaks (separated parts) = 0 := by
  fun_induction separated parts with
  | case1 => rfl
  | case2 part => exact flat part List.mem_cons_self
  | case3 part rest _ ih =>
    obtain ⟨first, others⟩ := List.forall_mem_cons.mp flat
    simp [first, ih others]

theorem count_render {chunks : List Chunk} {after : List Char} (fits : Fits chunks after) :
    (render chunks).count '\n' = breaks chunks := by
  induction chunks with
  | nil => rfl
  | cons chunk rest ih =>
    cases chunk with
    | gap blanks => rw [render_cons, List.count_append, ih fits.2, breaks_gap, text]
    | token kind =>
      obtain ⟨spelled, -, others⟩ := fits
      rw [render_cons, List.count_append, ih others, breaks_token, text,
        List.count_eq_zero.2 (Token.Kind.Spelled.feed_notMem spelled), Nat.zero_add]

end Chunk

namespace Script

open Chunk (breaks breaks_gap breaks_token breaks_mark breaks_blank breaks_append breaks_enclosed
  breaks_separated separated count_render)

variable {ι κ : Type}

theorem breaks_layoutList {list : List (Expr ι)} (members : ∀ e ∈ list, breaks e.layout = 0) :
    breaks (separated (layoutList list)) = 0 := by
  rw [layoutList_eq_map]
  refine breaks_separated (List.forall_mem_map.2 fun e member => ?_)
  rw [Expr.layoutAt, breaks_enclosed, members e member]

theorem breaks_layoutElements {list : List (Option (Expr ι))}
    (members : ∀ e, some e ∈ list → breaks e.layout = 0) :
    breaks (separated (layoutElements list)) = 0 := by
  refine breaks_separated ?_
  induction list with
  | nil => simp [layoutElements]
  | cons entry rest ih =>
    have others := ih fun e member => members e (List.mem_cons_of_mem _ member)
    cases entry with
    | none => exact List.forall_mem_cons.2 ⟨rfl, others⟩
    | some e =>
      refine List.forall_mem_cons.2 ⟨?_, others⟩
      rw [breaks_enclosed, members e List.mem_cons_self]

theorem breaks_operatorLayout (operator : BinaryOperator) : breaks (operatorLayout operator) = 0 := by
  unfold operatorLayout
  split <;> rfl

theorem breaks_frontLayout (operator : UnaryOperator) (argument : String) :
    breaks (frontLayout operator argument) = 0 := by
  unfold frontLayout
  split <;> rfl

theorem breaks_layout (e : Expr ι) : breaks e.layout = 0 := by
  induction e using Expr.induct with
  | name | string | boolean | null => rfl
  | number =>
    rw [layout_number, numberLayout]
    split <;> rfl
  | array n elements ih => simp [Expr.layout, breaks_layoutElements ih]
  | binary n operator left right first second =>
    simp [Expr.layout, breaks_operatorLayout, first, second]
  | unary n operator argument ih => simp [Expr.layout, breaks_frontLayout, ih]
  | update n operator before argument ih => cases before <;> simp [Expr.layout, ih]
  | assignment n operator target value first second => simp [Expr.layout, first, second]
  | conditional n test consequent alternate first second third =>
    simp [Expr.layout, first, second, third]
  | sequence n parts ih => exact breaks_layoutList ih
  | call n callee arguments first ih => simp [Expr.layout, first, breaks_layoutList ih]
  | member n object property computed first second =>
    cases computed <;> simp [Expr.layout, first, second]

@[simp] theorem breaks_layoutAt (e : Expr ι) (least : Level) : breaks (e.layoutAt least) = 0 := by
  rw [Expr.layoutAt, breaks_enclosed, breaks_layout]

theorem breaks_declarators (list : List (Declarator ι)) :
    breaks (separated (list.map Declarator.layout)) = 0 := by
  refine breaks_separated (List.forall_mem_map.2 fun d _ => ?_)
  unfold Declarator.layout
  split <;> simp

theorem breaks_head (head : FunctionHead ι) : breaks head.layout = 0 := by
  have parameters : breaks (separated (head.parameters.map (Expr.layoutAt · Level.assignment))) = 0 :=
    breaks_separated (List.forall_mem_map.2 fun e _ => breaks_layoutAt e _)
  unfold FunctionHead.layout
  cases head.isAsync <;> cases head.isGenerator <;> simp [parameters, word]

namespace Stmt

mutual

def total : Stmt ι → Nat
  | .function _ _ _ body => totalList body + 1
  | .block _ body => totalList body + 1
  | .branch _ _ consequent alternate => consequent.total + totalElse alternate + 1
  | _ => 1

def totalElse : Option (Stmt ι) → Nat
  | none => 0
  | some alternate => alternate.total

def totalList : List (Stmt ι) → Nat
  | [] => 0
  | s :: rest => s.total + totalList rest

end

theorem count_marginGap (width depth : Nat) : (marginGap width depth).count '\n' = 0 :=
  List.count_eq_zero.2 fun member => absurd (List.eq_of_mem_replicate member) (by decide)

theorem count_feeds (previous : Option Lines) (next : Lines) : (feeds previous next).count '\n' ≤ 2 := by
  cases previous with
  | none => simp [feeds]
  | some lines =>
    rw [feeds]
    split <;> decide

theorem breaks_listLayout {width depth : Nat} {list : List (Stmt Lines)}
    (members : ∀ s ∈ list, breaks (s.layout width depth) + 2 ≤ 4 * s.total)
    (previous : Option Lines) : breaks (listLayout width depth previous list) ≤ 4 * totalList list := by
  induction list generalizing previous with
  | nil => simp [listLayout, totalList]
  | cons s rest ih =>
    obtain ⟨first, others⟩ := List.forall_mem_cons.mp members
    have behind := ih others (some s.note)
    have gap := count_feeds previous s.note
    simp only [listLayout, totalList, breaks_gap, breaks_append, count_marginGap]
    omega

theorem breaks_braced {width depth : Nat} {body : List (Stmt Lines)}
    (members : ∀ s ∈ body, breaks (s.layout width (depth + 1)) + 2 ≤ 4 * s.total) :
    breaks (bracedLayout width depth body.isEmpty (listLayout width (depth + 1) none body)) ≤
      4 * totalList body + 2 := by
  have inside := breaks_listLayout members none
  unfold bracedLayout
  split
  · simp
  · simp [count_marginGap]
    omega

/-- A statement has at most four line feeds for each statement in it, with two left for the gap
before it. -/
theorem breaks_layout_le (s : Stmt Lines) (width depth : Nat) :
    breaks (s.layout width depth) + 2 ≤ 4 * s.total := by
  induction s using Stmt.induct generalizing depth with
  | declaration n kind list => simp [layout, total, word, breaks_declarators]
  | function n head block body ih =>
    have inside := breaks_braced fun s member => ih s member (depth + 1)
    simp only [layout, total, breaks_append, breaks_head, breaks_blank]
    omega
  | block n body ih =>
    have inside := breaks_braced fun s member => ih s member (depth + 1)
    simp only [layout, total]
    omega
  | ret n argument => cases argument <;> simp [layout, total, word]
  | expression n e => simp [layout, total]
  | branch n test consequent alternate first second =>
    have positive := first depth
    have negative : breaks (elseLayout width depth alternate) ≤ 4 * totalElse alternate := by
      cases alternate with
      | none => simp [elseLayout]
      | some other =>
        have := second other rfl depth
        simp only [elseLayout, totalElse, word, breaks_blank, breaks_token]
        omega
    simp only [layout, total, word, breaks_blank, breaks_token, breaks_mark, breaks_append,
      breaks_layoutAt]
    omega
  | empty n => simp [layout, total]

end Stmt

theorem count_programText {body : List (Stmt Lines)} (printable : ∀ s ∈ body, PrintableStmt s)
    (width : Nat) : (programText width body).toList.count '\n' ≤ 4 * Stmt.totalList body := by
  have fits := fits_listLayout (fun s member => (printable s member).fits width 0) none []
  rw [← render_program, count_render fits]
  exact Stmt.breaks_listLayout (fun s _ => s.breaks_layout_le width 0) none

def Passage.total : Passage → Nat
  | .statement s => s.total
  | .block _ list => Stmt.totalList list + 1
  | .body list => Stmt.totalList list

theorem Forms.total_le {passage : Passage} {ts : List Token} {next : Token}
    (forms : Forms passage ts next) : passage.total ≤ ts.length := by
  induction forms with
  | declaration | leave | ret | empty => simp [Passage.total, Stmt.total]
  | expression inner =>
    have := List.length_pos_iff.mpr inner.ne_nil
    simp only [Passage.total, Stmt.total, List.length_append]
    omega
  | function _ _ ih =>
    simp only [Passage.total, Stmt.total, List.length_append] at ih ⊢
    omega
  | block _ ih => exact ih
  | branch _ _ _ _ _ _ ih =>
    simp only [Passage.total, Stmt.total, Stmt.totalElse, List.length_append, List.length_cons] at ih ⊢
    omega
  | choice _ _ _ _ _ _ _ positive negative =>
    simp only [Passage.total, Stmt.total, Stmt.totalElse, List.length_append,
      List.length_cons] at positive negative ⊢
    omega
  | braces _ _ _ ih =>
    simp only [Passage.total, List.length_append, List.length_cons] at ih ⊢
    omega
  | done => simp [Passage.total, Stmt.totalList]
  | more _ _ first rest =>
    simp only [Passage.total, Stmt.totalList, List.length_append] at first rest ⊢
    omega

theorem Accepted.total_le {text : String} {inner : List Token} {last : Token}
    {body : List (Stmt Place)} (accepted : Accepted text inner last body) :
    Stmt.totalList body ≤ text.length := by
  have tokens := Token.length_le_of_scanFrom accepted.scanned
  have statements : Stmt.totalList body ≤ inner.length := accepted.forms.total_le
  rw [List.length_append, List.length_singleton, String.length_toList] at tokens
  omega

section Edited

variable {allows : Value.Allowance}

theorem totalList_of_edited {list : List (Stmt ι)} {trees : List (Stmt κ)}
    (members : ∀ s ∈ list, ∀ {tree : Stmt κ}, s.Edited allows tree → tree.total = s.total)
    (edited : Stmt.EditedList allows list trees) : Stmt.totalList trees = Stmt.totalList list := by
  induction list generalizing trees with
  | nil =>
    rw [Stmt.EditedList] at edited
    rw [edited]
    rfl
  | cons s rest ih =>
    obtain ⟨other, more, rfl, one, behind⟩ := edited
    obtain ⟨first, others⟩ := List.forall_mem_cons.mp members
    rw [Stmt.totalList, Stmt.totalList, first one, ih others behind]

theorem total_of_edited {s : Stmt ι} {tree : Stmt κ} (edited : s.Edited allows tree) :
    tree.total = s.total := by
  induction s using Stmt.induct generalizing tree with
  | declaration n kind list =>
    obtain ⟨note, a, b, rfl, -⟩ := edited
    rfl
  | function n head block body ih =>
    obtain ⟨note, a, b, trees, rfl, -, inside⟩ := edited
    rw [Stmt.total, Stmt.total, totalList_of_edited ih inside]
  | block n body ih =>
    obtain ⟨note, trees, rfl, inside⟩ := edited
    rw [Stmt.total, Stmt.total, totalList_of_edited ih inside]
  | ret n argument | expression n e =>
    obtain ⟨note, a, rfl, -⟩ := edited
    rfl
  | branch n test consequent alternate first second =>
    obtain ⟨note, a, b, d, rfl, -, positive, other⟩ := edited
    rw [Stmt.total, Stmt.total, first positive]
    cases alternate with
    | none =>
      obtain rfl : d = none := other
      rfl
    | some s =>
      obtain ⟨next, rfl, negative⟩ : ∃ next, d = some next ∧ s.Edited allows next := other
      rw [Stmt.totalElse, Stmt.totalElse, second s rfl negative]
  | empty n =>
    obtain ⟨note, rfl⟩ := edited
    rfl

end Edited

end Script

end Arborist

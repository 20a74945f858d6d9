import Mathlib
import Arborist.Proofs.Script.Layout

/-!
Written statements as chunks. The line feeds between statements and the margins before them are gaps
like the blanks inside a line.
-/

namespace Arborist.Script

open Token (Kind)
open Chunk (mark blank enclosed separated render render_cons render_append)

variable {ι : Type}

def word (name : String) : Chunk := .token (.word name)

def Declarator.layout (d : Declarator ι) : List Chunk :=
  match d.value with
  | none => d.target.layoutAt Level.primary
  | some value =>
    d.target.layoutAt Level.primary ++ blank :: mark .assign :: blank :: value.layoutAt Level.assignment

def FunctionHead.layout (head : FunctionHead ι) : List Chunk :=
  (if head.isAsync then [word "async", blank] else []) ++ word "function" ::
    ((if head.isGenerator then [mark .times] else []) ++ blank ::
      (head.name.layoutAt Level.primary ++ mark .openParen ::
        (separated (head.parameters.map (Expr.layoutAt · Level.assignment)) ++ [mark .closeParen])))

def marginGap (width depth : Nat) : List Char := List.replicate (width * depth) ' '

def bracedLayout (width depth : Nat) (isEmpty : Bool) (inner : List Chunk) : List Chunk :=
  if isEmpty then [mark .openBrace, mark .closeBrace]
  else mark .openBrace :: .gap ['\n'] ::
    (inner ++ [.gap ('\n' :: marginGap width depth), mark .closeBrace])

/-- Whether the text of an expression looks like another statement. -/
def looksOther (text : String) : Bool :=
  Text.beginsWith text "\x7b" || Text.beginsWith text "function"

def feeds (previous : Option Lines) (next : Lines) : List Char :=
  match previous with
  | none => []
  | some lines => if lines.apart next then ['\n', '\n'] else ['\n']

namespace Stmt

mutual

def layout (width depth : Nat) : Stmt Lines → List Chunk
  | .declaration _ kind declarators =>
    word kind.text :: blank :: (separated (declarators.map Declarator.layout) ++ [mark .semicolon])
  | .function _ head _ body =>
    head.layout ++ blank ::
      bracedLayout width depth body.isEmpty (listLayout width (depth + 1) none body)
  | .block _ body => bracedLayout width depth body.isEmpty (listLayout width (depth + 1) none body)
  | .ret _ none => [word "return", mark .semicolon]
  | .ret _ (some argument) =>
    word "return" :: blank :: (argument.layoutAt Level.sequence ++ [mark .semicolon])
  | .expression _ body =>
    enclosed (looksOther (body.textAt Level.sequence)) (body.layoutAt Level.sequence) ++
      [mark .semicolon]
  | .branch _ test consequent alternate =>
    word "if" :: blank :: mark .openParen :: (test.layoutAt Level.sequence ++ mark .closeParen ::
      blank :: (consequent.layout width depth ++ elseLayout width depth alternate))
  | .empty _ => [mark .semicolon]

def elseLayout (width depth : Nat) : Option (Stmt Lines) → List Chunk
  | none => []
  | some alternate => blank :: word "else" :: blank :: alternate.layout width depth

def listLayout (width depth : Nat) (previous : Option Lines) : List (Stmt Lines) → List Chunk
  | [] => []
  | s :: rest =>
    .gap (feeds previous s.note) :: .gap (marginGap width depth) ::
      (s.layout width depth ++ listLayout width depth (some s.note) rest)

end

end Stmt

theorem render_layoutAt (e : Expr ι) (least : Level) :
    render (e.layoutAt least) = (e.textAt least).toList :=
  render_enclosed e.write least (render_layout e)

theorem render_declarator (d : Declarator ι) : render d.layout = d.text.toList := by
  unfold Declarator.layout Declarator.text
  cases d.value with
  | none => exact render_layoutAt _ _
  | some value =>
    simp [render_layoutAt, blank, mark, Chunk.text, Kind.spelling, Mark.text]

theorem map_render_layoutAt (list : List (Expr ι)) :
    (list.map (Expr.layoutAt · Level.assignment)).map (fun part => String.ofList (render part)) =
      Expr.writeList list := by
  rw [writeList_eq_map, List.map_map]
  refine List.map_congr_left fun e _ => ?_
  simp [render_layoutAt]

theorem render_functionHead (head : FunctionHead ι) : render head.layout = head.text.toList := by
  unfold FunctionHead.layout FunctionHead.text
  simp only [render_append, render_cons, render_layoutAt, Chunk.render_separated,
    map_render_layoutAt, parenthesized, commaSeparated]
  cases head.isAsync <;> cases head.isGenerator <;>
    simp [word, blank, mark, Chunk.text, Kind.spelling, Mark.text]

theorem toList_margin (width depth : Nat) : (margin width depth).toList = marginGap width depth := by
  simp [margin, Text.blanks, marginGap]

theorem render_braced (width depth : Nat) (isEmpty : Bool) {inner : List Chunk} {text : String}
    (same : render inner = text.toList) :
    render (bracedLayout width depth isEmpty inner) =
      (braced width depth isEmpty text).toList := by
  unfold bracedLayout braced
  cases isEmpty <;>
    simp [mark, Chunk.text, Kind.spelling, Mark.text, same, toList_margin]

theorem render_listLayout {list : List (Stmt Lines)} {width depth : Nat}
    (members : ∀ s ∈ list, render (s.layout width depth) = (s.text width depth).toList)
    (previous : Option Lines) :
    render (Stmt.listLayout width depth previous list) =
      (Stmt.listText width depth previous list).toList := by
  induction list generalizing previous with
  | nil => simp [Stmt.listLayout, Stmt.listText]
  | cons s rest ih =>
    have others := ih (fun inner member => members inner (List.mem_cons_of_mem s member))
      (some s.note)
    simp only [Stmt.listLayout, Stmt.listText, render_cons, render_append, Chunk.text, others,
      members s List.mem_cons_self, String.toList_append, toList_margin, List.append_assoc]
    congr 1
    cases previous with
    | none => rfl
    | some lines =>
      simp only [feeds]
      split <;> rfl

theorem render_statement (s : Stmt Lines) (width depth : Nat) :
    render (s.layout width depth) = (s.text width depth).toList := by
  induction s using Stmt.induct generalizing depth with
  | declaration n kind declarators =>
    have parts : (declarators.map Declarator.layout).map (fun part => String.ofList (render part)) =
        declarators.map Declarator.text := by
      rw [List.map_map]
      refine List.map_congr_left fun d _ => ?_
      simp [render_declarator]
    simp only [Stmt.layout, Stmt.text, render_cons, render_append, Chunk.render_separated, parts,
      commaSeparated]
    simp [word, blank, mark, Chunk.text, Kind.spelling, Mark.text]
  | function n head block body ih =>
    have inner := render_listLayout (fun s member => ih s member (depth + 1)) none
    simp only [Stmt.layout, Stmt.text, render_append, render_cons, render_functionHead,
      render_braced width depth body.isEmpty inner]
    simp [blank, Chunk.text]
  | block n body ih =>
    have inner := render_listLayout (fun s member => ih s member (depth + 1)) none
    rw [Stmt.layout, Stmt.text, render_braced width depth body.isEmpty inner]
  | ret n argument =>
    cases argument with
    | none => simp [Stmt.layout, Stmt.text, word, mark, Chunk.text, Kind.spelling, Mark.text]
    | some argument =>
      simp [Stmt.layout, Stmt.text, render_layoutAt, word, blank, mark, Chunk.text, Kind.spelling,
        Mark.text]
  | expression n body =>
    simp only [Stmt.layout, Stmt.text, render_append, expressionStatement,
      render_parenthesized _ (render_layoutAt body Level.sequence), looksOther]
    split <;> simp [mark, Chunk.text, Kind.spelling, Mark.text]
  | branch n test consequent alternate ih ihOther =>
    have follows : render (Stmt.elseLayout width depth alternate) =
        (Stmt.elseText width depth alternate).toList := by
      cases alternate with
      | none => simp [Stmt.elseLayout, Stmt.elseText]
      | some other =>
        simp [Stmt.elseLayout, Stmt.elseText, ihOther other rfl, word, blank, Chunk.text,
          Kind.spelling]
    simp only [Stmt.layout, Stmt.text, render_cons, render_append, render_layoutAt, ih, follows,
      parenthesized]
    simp [word, blank, mark, Chunk.text, Kind.spelling, Mark.text]
  | empty n => simp [Stmt.layout, Stmt.text, mark, Chunk.text, Kind.spelling, Mark.text]

theorem render_program (width : Nat) (body : List (Stmt Lines)) :
    render (Stmt.listLayout width 0 none body) = (programText width body).toList :=
  render_listLayout (fun s _ => render_statement s width 0) none

end Arborist.Script

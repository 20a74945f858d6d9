import Mathlib
import Arborist.Proofs.Script.Neighbours
import Arborist.Proofs.Script.Spacing
import Arborist.Proofs.Script.StatementCompleteness
import Arborist.Proofs.Script.StatementLayout
import Arborist.Script.Source

/-!
Written programs are read again. The text of printable statements is scanned into the tokens of its
chunks, these form the statements, and so the whole text is parsed into what the statements are read
as. A branch without `else` must not stand where an `else` follows. Between two neighbours in a list
the text has the line feeds that their notes ask for, and a margin.
-/

namespace Arborist.Script

open Token (Kind)
open Chunk (mark blank enclosed separated render render_cons Fits fits_append Spells spells_nil
  spells_gap spells_blank spells_token spells_single spells_append Stands Tight Closes closes_token)

variable {ι : Type}

def Declarator.reread (d : Declarator ι) : Declarator Unit :=
  ⟨(), d.target.reread, d.value.map Expr.reread⟩

def FunctionHead.reread (head : FunctionHead ι) : FunctionHead Unit :=
  ⟨head.isAsync, head.isGenerator, head.name.reread, head.parameters.map Expr.reread⟩

namespace Stmt

mutual

/-- Whether an `else` behind the statement would be taken into it. -/
def dangles : Stmt ι → Bool
  | .branch _ _ _ alternate => danglesElse alternate
  | _ => false

def danglesElse : Option (Stmt ι) → Bool
  | none => true
  | some alternate => alternate.dangles

end

mutual

def reread : Stmt ι → Stmt Unit
  | .declaration _ kind declarators => .declaration () kind (declarators.map Declarator.reread)
  | .function _ head _ body => .function () head.reread () (rereadList body)
  | .block _ body => .block () (rereadList body)
  | .ret _ argument => .ret () (argument.map Expr.reread)
  | .expression _ body => .expression () body.reread
  | .branch _ test consequent alternate =>
    .branch () test.reread consequent.reread (rereadElse alternate)
  | .empty _ => .empty ()

def rereadList : List (Stmt ι) → List (Stmt Unit)
  | [] => []
  | s :: rest => s.reread :: rereadList rest

def rereadElse : Option (Stmt ι) → Option (Stmt Unit)
  | none => none
  | some s => some s.reread

end

@[simp] theorem rereadList_eq_map (list : List (Stmt ι)) : rereadList list = list.map reread := by
  induction list with
  | nil => rfl
  | cons s rest ih => rw [rereadList, ih, List.map_cons]

end Stmt

section Bare

theorem map_reread_bare (list : List (Expr ι)) :
    (list.map Expr.bare).map Expr.reread = list.map Expr.reread := by
  rw [List.map_map]
  exact List.map_congr_left fun e _ => Expr.reread_bare e

theorem mapOption_reread_bare (entry : Option (Expr ι)) :
    (entry.map Expr.bare).map Expr.reread = entry.map Expr.reread := by
  cases entry with
  | none => rfl
  | some e => exact congrArg some (Expr.reread_bare e)

theorem Declarator.reread_bare (d : Declarator ι) : d.bare.reread = d.reread := by
  simp only [Declarator.reread, Declarator.bare, Expr.reread_bare, mapOption_reread_bare]

theorem FunctionHead.reread_bare (head : FunctionHead ι) : head.bare.reread = head.reread := by
  simp only [FunctionHead.reread, FunctionHead.bare, Expr.reread_bare, map_reread_bare]

theorem Stmt.reread_bare (s : Stmt ι) : s.bare.reread = s.reread := by
  induction s using Stmt.induct with
  | declaration n kind list =>
    rw [Stmt.bare_declaration, Stmt.reread, Stmt.reread, List.map_map]
    exact congrArg _ (List.map_congr_left fun d _ => Declarator.reread_bare d)
  | function n head block body ih =>
    rw [Stmt.bare_function, Stmt.reread, Stmt.reread, FunctionHead.reread_bare,
      Stmt.rereadList_eq_map, Stmt.rereadList_eq_map, List.map_map]
    exact congrArg _ (List.map_congr_left ih)
  | block n body ih =>
    rw [Stmt.bare_block, Stmt.reread, Stmt.reread, Stmt.rereadList_eq_map, Stmt.rereadList_eq_map,
      List.map_map]
    exact congrArg _ (List.map_congr_left ih)
  | ret n argument => rw [Stmt.bare_ret, Stmt.reread, Stmt.reread, mapOption_reread_bare]
  | expression n e => rw [Stmt.bare_expression, Stmt.reread, Stmt.reread, Expr.reread_bare]
  | branch n test consequent alternate ih ihOther =>
    rw [Stmt.bare_branch, Stmt.reread, Stmt.reread, Expr.reread_bare, ih]
    cases alternate with
    | none => rfl
    | some other => exact congrArg _ (congrArg some (ihOther other rfl))
  | empty n => rfl

end Bare

inductive PrintableName : Expr ι → Prop where
  | intro {n : ι} {text : String} (spelled : (Kind.word text).Spelled)
      (free : isReserved text = false) : PrintableName (.name n text)

/-- The statements whose text can be read, with the numbers as asked. -/
inductive PrintableStmtWith (numbers : Number → Option String → Prop) : Stmt ι → Prop where
  | declaration {n : ι} {kind : DeclarationKind} {list : List (Declarator ι)} (some : list ≠ [])
      (names : ∀ d ∈ list, PrintableName d.target)
      (values : ∀ d ∈ list, ∀ e ∈ d.value, PrintableWith numbers e) :
      PrintableStmtWith numbers (.declaration n kind list)
  | function {n m : ι} {head : FunctionHead ι} {body : List (Stmt ι)}
      (name : PrintableName head.name) (names : ∀ e ∈ head.parameters, PrintableName e)
      (inner : ∀ s ∈ body, PrintableStmtWith numbers s) :
      PrintableStmtWith numbers (.function n head m body)
  | block {n : ι} {body : List (Stmt ι)} (inner : ∀ s ∈ body, PrintableStmtWith numbers s) :
      PrintableStmtWith numbers (.block n body)
  | ret {n : ι} {argument : Option (Expr ι)} (inner : ∀ e ∈ argument, PrintableWith numbers e) :
      PrintableStmtWith numbers (.ret n argument)
  | expression {n : ι} {e : Expr ι} (inner : PrintableWith numbers e) :
      PrintableStmtWith numbers (.expression n e)
  | branch {n : ι} {test : Expr ι} {consequent : Stmt ι} (condition : PrintableWith numbers test)
      (positive : PrintableStmtWith numbers consequent) :
      PrintableStmtWith numbers (.branch n test consequent none)
  | choice {n : ι} {test : Expr ι} {consequent alternate : Stmt ι}
      (condition : PrintableWith numbers test) (positive : PrintableStmtWith numbers consequent)
      (closed : consequent.dangles = false)
      (negative : PrintableStmtWith numbers alternate) :
      PrintableStmtWith numbers (.branch n test consequent (some alternate))
  | empty {n : ι} : PrintableStmtWith numbers (.empty n)

abbrev PrintableStmt (s : Stmt ι) : Prop := PrintableStmtWith Numeric s

theorem PrintableStmtWith.imp {numbers others : Number → Option String → Prop}
    (weaker : ∀ {value raw}, numbers value raw → others value raw) {s : Stmt ι}
    (printable : PrintableStmtWith numbers s) : PrintableStmtWith others s := by
  induction printable with
  | declaration some names values =>
    exact .declaration some names fun d member e among => (values d member e among).imp weaker
  | function name names _ ih => exact .function name names ih
  | block _ ih => exact .block ih
  | ret inner => exact .ret fun e member => (inner e member).imp weaker
  | expression inner => exact .expression (inner.imp weaker)
  | branch condition _ ih => exact .branch (condition.imp weaker) ih
  | choice condition _ closed _ first second =>
    exact .choice (condition.imp weaker) first closed second
  | empty => exact .empty

theorem PrintableName.printable {e : Expr ι} (name : PrintableName e) : Printable e := by
  cases name with
  | intro spelled free => exact .name spelled free

theorem PrintableName.layoutAt {e : Expr ι} (name : PrintableName e) {least : Level}
    (le : least ≤ Level.primary) :
    ∃ text, e.layoutAt least = [.token (.word text)] ∧ e.reread = .name () text ∧
      (Kind.word text).Spelled ∧ isReserved text = false := by
  cases name with
  | @intro n text spelled free =>
    refine ⟨text, ?_, rfl, spelled, free⟩
    have tight : ¬ (Expr.name n text).write.level < least := not_lt.mpr le
    simp [Expr.layoutAt, layout_name, enclosed, tight]

section Fits

theorem fits_any_of_ends {e : Expr ι} (printable : Printable e) {least : Level} {after : List Char}
    (ends : Ends after) : Fits (e.layoutAt least) after :=
  fits_at (fun follows => printable.fits follows) ends

theorem fits_declarator {d : Declarator ι} (name : PrintableName d.target)
    (value : ∀ e ∈ d.value, Printable e) {after : List Char} (ends : Ends after) :
    Fits d.layout after := by
  unfold Declarator.layout
  cases shape : d.value with
  | none => exact fits_any_of_ends name.printable ends
  | some e =>
    have assign : (Kind.mark .assign).Spelled := trivial
    exact fits_append.mpr ⟨fits_any_of_ends name.printable (ends_blank _ _),
      fits_blank (fits_spaced assign (fits_any_of_ends (value e shape) ends))⟩

theorem fits_list {parts : List (List Chunk)}
    (fits : ∀ part ∈ parts, ∀ {after}, Ends after → Fits part after) {after : List Char}
    (ends : Ends after) : Fits (separated parts) after := by
  fun_induction separated parts with
  | case1 => trivial
  | case2 part => exact fits part List.mem_cons_self ends
  | case3 part rest notNil ih =>
    have others := ih fun inner member => fits inner (List.mem_cons_of_mem part member)
    exact fits_append.mpr ⟨fits part List.mem_cons_self (ends_mark (by decide) _ _),
      fits_closed (by simp) (fits_blank others)⟩

theorem spelled_kind (kind : DeclarationKind) : (Kind.word kind.text).Spelled := by
  cases kind <;> exact ⟨_, _, rfl, by decide, by decide⟩

theorem fits_tight {name : String} (spelled : (Kind.word name).Spelled) {m : Mark}
    (other : m ≠ .dot) {rest : List Chunk} {after : List Char} (fits : Fits (mark m :: rest) after) :
    Fits (word name :: mark m :: rest) after :=
  ⟨spelled, fun c member => (ends_mark other _ _ c member).1, fits⟩

theorem fits_head {head : FunctionHead ι} (name : PrintableName head.name)
    (names : ∀ e ∈ head.parameters, PrintableName e) (after : List Char) :
    Fits head.layout after := by
  have async : (Kind.word "async").Spelled := ⟨_, _, rfl, by decide, by decide⟩
  have function : (Kind.word "function").Spelled := ⟨_, _, rfl, by decide, by decide⟩
  have times : (Kind.mark .times).Spelled := trivial
  have inner : Fits (head.name.layoutAt Level.primary ++ mark .openParen ::
      (separated (head.parameters.map (Expr.layoutAt · Level.assignment)) ++ [mark .closeParen]))
      after := by
    refine fits_append.mpr ⟨fits_any_of_ends name.printable (ends_mark (by decide) _ _), ?_⟩
    refine fits_closed (by simp) (fits_append.mpr ⟨?_, fits_closed (by simp) trivial⟩)
    exact fits_separated (fun e member => (names e member).printable.fits)
      (ends_mark (by decide) _ _)
  have behind : Fits (word "function" :: ((if head.isGenerator then [mark .times] else []) ++
      blank :: (head.name.layoutAt Level.primary ++ mark .openParen ::
        (separated (head.parameters.map (Expr.layoutAt · Level.assignment)) ++
          [mark .closeParen])))) after := by
    cases head.isGenerator with
    | false => exact fits_spaced function inner
    | true => exact fits_tight function (by decide) (fits_spaced times inner)
  unfold FunctionHead.layout
  cases head.isAsync with
  | false => exact behind
  | true => exact fits_spaced async behind

theorem blank_margin (width depth : Nat) : (marginGap width depth).all Text.isBlank = true := by
  unfold marginGap
  rw [List.all_replicate]
  split
  · rfl
  · decide

theorem fits_braced {width depth : Nat} {isEmpty : Bool} {inner : List Chunk}
    (fits : ∀ after, Fits inner after) (after : List Char) :
    Fits (bracedLayout width depth isEmpty inner) after := by
  unfold bracedLayout
  cases isEmpty with
  | true => exact fits_closed (by simp) (fits_closed (by simp) trivial)
  | false =>
    refine fits_closed (by simp) ⟨by decide, fits_append.mpr ⟨fits _, ?_, ?_⟩⟩
    · rw [List.all_cons, blank_margin]
      decide
    · exact fits_closed (by simp) trivial

theorem fits_listLayout {width depth : Nat} {list : List (Stmt Lines)}
    (members : ∀ s ∈ list, ∀ after, Fits (s.layout width depth) after) (previous : Option Lines)
    (after : List Char) : Fits (Stmt.listLayout width depth previous list) after := by
  induction list generalizing previous with
  | nil => trivial
  | cons s rest ih =>
    have others := ih (fun inner member => members inner (List.mem_cons_of_mem s member))
      (some s.note)
    have feed : (feeds previous s.note).all Text.isBlank = true := by
      cases previous with
      | none => rfl
      | some lines =>
        simp only [feeds]
        split <;> decide
    exact ⟨feed, blank_margin width depth,
      fits_append.mpr ⟨members s List.mem_cons_self _, others⟩⟩

/-- A statement ends in a mark that nothing can continue, so any text may follow. -/
theorem PrintableStmt.fits {s : Stmt Lines} (printable : PrintableStmt s) (width depth : Nat)
    (after : List Char) : Fits (s.layout width depth) after := by
  have semicolon : ∀ after, Fits [mark .semicolon] after := fun after =>
    fits_closed (by simp) trivial
  induction printable generalizing depth after with
  | @declaration n kind list some names values =>
    refine fits_spaced (spelled_kind kind) (fits_append.mpr ⟨fits_list ?_ ?_, semicolon _⟩)
    · intro part member after ends
      obtain ⟨d, among, rfl⟩ := List.mem_map.mp member
      exact fits_declarator (names d among) (values d among) ends
    · exact ends_mark (by decide) _ _
  | function name names _ ih =>
    exact fits_append.mpr ⟨fits_head name names _, fits_blank (fits_braced
      (fits_listLayout (fun s member => ih s member (depth + 1)) none) _)⟩
  | block _ ih =>
    exact fits_braced (fits_listLayout (fun s member => ih s member (depth + 1)) none) _
  | @ret n argument inner =>
    have word : (Kind.word "return").Spelled := ⟨_, _, rfl, by decide, by decide⟩
    cases argument with
    | none => exact fits_tight word (by decide) (semicolon _)
    | some e =>
      refine fits_spaced word (fits_append.mpr ⟨?_, semicolon _⟩)
      exact fits_any_of_ends (inner e rfl) (ends_mark (by decide) _ _)
  | expression inner =>
    refine fits_append.mpr ⟨fits_enclosed ?_ fun _ => ?_, semicolon _⟩
    · exact fits_any_of_ends inner
    · exact fits_any_of_ends inner (ends_mark (by decide) _ _)
  | branch condition _ ih =>
    have word : (Kind.word "if").Spelled := ⟨_, _, rfl, by decide, by decide⟩
    refine fits_spaced word (fits_closed (by simp) (fits_append.mpr ⟨?_, ?_⟩))
    · exact fits_any_of_ends condition (ends_mark (by decide) _ _)
    · exact fits_closed (by simp) (fits_blank (fits_append.mpr ⟨ih depth _, trivial⟩))
  | choice condition _ _ _ ihPositive ihNegative =>
    have word : (Kind.word "if").Spelled := ⟨_, _, rfl, by decide, by decide⟩
    have other : (Kind.word "else").Spelled := ⟨_, _, rfl, by decide, by decide⟩
    refine fits_spaced word (fits_closed (by simp) (fits_append.mpr ⟨?_, ?_⟩))
    · exact fits_any_of_ends condition (ends_mark (by decide) _ _)
    · exact fits_closed (by simp) (fits_blank (fits_append.mpr ⟨ihPositive depth _,
        fits_blank (fits_spaced other (ihNegative depth _))⟩))
  | empty => exact semicolon _

end Fits

section Forms

variable {ts : List Token} {newline : Bool} {next : Token}

theorem PrintableName.named {e : Expr ι} (name : PrintableName e) {least : Level}
    (le : least ≤ Level.primary) (spells : Spells ts newline (e.layoutAt least)) :
    ∃ t tree, ts = [t] ∧ tree.bare = e.reread ∧ Named tree t := by
  obtain ⟨text, layout, reread, -, free⟩ := name.layoutAt le
  rw [layout] at spells
  obtain ⟨t, rfl, word, -⟩ := spells_single.mp spells
  exact ⟨t, .name (Place.over [t]) text, rfl, reread.symm, .intro word free⟩

theorem parameters_of_spells {list : List (Expr ι)} (names : ∀ e ∈ list, PrintableName e)
    (spells : Spells ts newline (separated (list.map (Expr.layoutAt · Level.assignment)))) :
    ∃ trees : List (Expr Place), trees.map Expr.bare = list.map Expr.reread ∧
      Parameters trees ts := by
  induction list generalizing ts newline with
  | nil =>
    rw [List.map_nil, separated, spells_nil] at spells
    exact ⟨[], rfl, spells ▸ .none⟩
  | cons e rest ih =>
    have name := names e List.mem_cons_self
    cases rest with
    | nil =>
      obtain ⟨t, tree, rfl, same, named⟩ := name.named (by decide) spells
      exact ⟨[tree], by simp [same], .one named⟩
    | cons second more =>
      obtain ⟨us, vs, rfl, spelled, others⟩ := spells_append.mp spells
      obtain ⟨u, ws, rfl, comma, -, others⟩ := spells_token.mp others
      obtain ⟨t, tree, rfl, same, named⟩ := name.named (by decide) spelled
      obtain ⟨trees, sames, parameters⟩ := ih
        (fun inner member => names inner (List.mem_cons_of_mem e member)) (spells_blank.mp others)
      exact ⟨tree :: trees, by rw [List.map_cons, List.map_cons, same, sames],
        .more named comma parameters⟩

theorem declares_of_spells {d : Declarator ι} (name : PrintableName d.target)
    (value : ∀ e ∈ d.value, Printable e) (spells : Spells ts newline d.layout)
    (ends : next.kind = .mark .comma ∨ next.kind = .mark .semicolon) :
    ∃ tree : Declarator Place, tree.bare = d.reread ∧ Declares tree ts next := by
  unfold Declarator.layout at spells
  unfold Declarator.reread
  cases shape : d.value with
  | none =>
    rw [shape] at spells
    obtain ⟨t, tree, rfl, same, named⟩ := name.named (by decide) spells
    have other : next.kind ≠ .mark .assign := by
      rcases ends with mark | mark <;> simp [mark]
    exact ⟨_, by rw [← same]; rfl, .plain named other⟩
  | some e =>
    rw [shape] at spells
    obtain ⟨us, vs, rfl, spelled, others⟩ := spells_append.mp spells
    obtain ⟨u, ws, rfl, mark, -, others⟩ := spells_token.mp (spells_blank.mp others)
    obtain ⟨t, tree, rfl, same, named⟩ := name.named (by decide) spelled
    obtain ⟨inner, sameInner, derives⟩ := derives_at (value e shape).derivable
      (by decide : Level.assignment ≤ Level.primary) (spells_blank.mp others)
    have stops : Stops ws next Level.assignment := by
      rcases ends with comma | semicolon
      · exact stops_of_comma comma
      · exact stops_of_closing (by simp) semicolon _
    exact ⟨_, by rw [← same, Option.map_some, ← sameInner]; rfl, .initial named mark derives stops⟩

theorem declaresAll_of_spells {list : List (Declarator ι)} (some : list ≠ [])
    (names : ∀ d ∈ list, PrintableName d.target) (values : ∀ d ∈ list, ∀ e ∈ d.value, Printable e)
    (spells : Spells ts newline (separated (list.map Declarator.layout)))
    (ends : next.kind = .mark .semicolon) :
    ∃ trees : List (Declarator Place), trees.map Declarator.bare = list.map Declarator.reread ∧
      DeclaresAll trees ts next := by
  induction list generalizing ts newline with
  | nil => exact absurd rfl some
  | cons d rest ih =>
    have one := fun {us newline next} => @declares_of_spells _ us newline next d
      (names d List.mem_cons_self) (values d List.mem_cons_self)
    cases rest with
    | nil =>
      obtain ⟨tree, same, declares⟩ := one spells (.inr ends)
      exact ⟨[tree], by simp [same], .last declares (by simp [ends])⟩
    | cons second more =>
      obtain ⟨us, vs, rfl, spelled, others⟩ := spells_append.mp spells
      obtain ⟨u, ws, rfl, comma, -, others⟩ := spells_token.mp others
      obtain ⟨tree, same, declares⟩ := one spelled (.inl comma)
      obtain ⟨trees, sames, declaresRest⟩ := ih (by simp)
        (fun inner member => names inner (List.mem_cons_of_mem d member))
        (fun inner member => values inner (List.mem_cons_of_mem d member)) (spells_blank.mp others)
      exact ⟨tree :: trees, by rw [List.map_cons, List.map_cons, same, sames],
        .more declares comma declaresRest⟩

theorem heads_of_spells {head : FunctionHead ι} (name : PrintableName head.name)
    (names : ∀ e ∈ head.parameters, PrintableName e) (spells : Spells ts newline head.layout) :
    ∃ tree : FunctionHead Place, tree.bare = head.reread ∧ Heads tree ts := by
  unfold FunctionHead.layout at spells
  obtain ⟨front, vs, rfl, spelledFront, spells⟩ := spells_append.mp spells
  obtain ⟨f, ws, rfl, word, line, spells⟩ := spells_token.mp spells
  obtain ⟨star, ys, rfl, spelledStar, spells⟩ := spells_append.mp spells
  obtain ⟨us, zs, rfl, spelledName, spells⟩ := spells_append.mp (spells_blank.mp spells)
  obtain ⟨a, zs, rfl, opening, -, spells⟩ := spells_token.mp spells
  obtain ⟨list, last, rfl, spelledList, spells⟩ := spells_append.mp spells
  obtain ⟨b, rfl, closing, -⟩ := spells_single.mp spells
  obtain ⟨n, tree, rfl, same, named⟩ := name.named (by decide) spelledName
  obtain ⟨trees, sames, parameters⟩ := parameters_of_spells names spelledList
  refine ⟨⟨head.isAsync, head.isGenerator, tree, trees⟩, ?_,
    .intro ?_ word ?_ named opening parameters closing⟩
  · rw [FunctionHead.bare, FunctionHead.reread, same, sames]
  · cases async : head.isAsync with
    | false =>
      rw [async] at spelledFront
      exact spells_nil.mp spelledFront
    | true =>
      rw [async] at spelledFront line
      obtain ⟨t, us, rfl, kind, -, rest⟩ := spells_token.mp spelledFront
      rw [spells_blank, spells_nil] at rest
      exact ⟨t, by rw [rest], kind, line⟩
  · cases generator : head.isGenerator with
    | false =>
      rw [generator] at spelledStar
      exact spells_nil.mp spelledStar
    | true =>
      rw [generator] at spelledStar
      obtain ⟨t, rfl, kind, -⟩ := spells_single.mp spelledStar
      exact ⟨t, rfl, kind⟩

theorem Forms.body_head_ne {list : List (Stmt Place)} (forms : Forms (.body list) ts next)
    (other : next.kind ≠ .word "else") : (ts.headD next).kind ≠ .word "else" := by
  cases forms with
  | done => exact other
  | more first _ =>
    obtain ⟨t, rest, rfl, -, -, head⟩ := first.head_ne
    exact head

section Tight

theorem opens_head (head : FunctionHead ι) : ∃ kind rest, head.layout = .token kind :: rest := by
  unfold FunctionHead.layout
  cases head.isAsync with
  | true => exact ⟨_, _, rfl⟩
  | false => exact ⟨_, _, rfl⟩

theorem tight_braced (width depth : Nat) (isEmpty : Bool) (inner : List Chunk) :
    Tight (bracedLayout width depth isEmpty inner) := by
  unfold bracedLayout
  cases isEmpty with
  | true => exact ⟨⟨_, _, rfl⟩, (closes_token _).cons _⟩
  | false => exact ⟨⟨_, _, rfl⟩, ((((closes_token _).cons _).append inner).cons _).cons _⟩

theorem PrintableStmt.tight {s : Stmt Lines} (printable : PrintableStmt s) (width depth : Nat) :
    Tight (s.layout width depth) := by
  induction printable with
  | declaration => exact ⟨⟨_, _, rfl⟩, (((closes_token _).append _).cons _).cons _⟩
  | @function n m head body =>
    obtain ⟨kind, rest, shape⟩ := opens_head head
    exact ⟨⟨kind, rest ++ _, by rw [Stmt.layout, shape]; rfl⟩,
      ((tight_braced width depth _ _).closes.cons _).append _⟩
  | block => exact tight_braced width depth _ _
  | @ret n argument =>
    cases argument with
    | none => exact ⟨⟨_, _, rfl⟩, (closes_token _).cons _⟩
    | some e => exact ⟨⟨_, _, rfl⟩, (((closes_token _).append _).cons _).cons _⟩
  | expression inner =>
    obtain ⟨kind, rest, shape, -⟩ := ((Printable.opens inner).enclosed _).enclosed _
    exact ⟨⟨kind, rest ++ _, by rw [Stmt.layout, Expr.layoutAt, shape]; rfl⟩,
      (closes_token _).append _⟩
  | branch _ _ ih =>
    refine ⟨⟨_, _, rfl⟩, Closes.cons (Closes.cons (Closes.cons (Closes.append ?_ _) _) _) _⟩
    rw [Stmt.elseLayout, List.append_nil]
    exact (ih.closes.cons _).cons _
  | choice _ _ _ _ _ ih =>
    refine ⟨⟨_, _, rfl⟩, Closes.cons (Closes.cons (Closes.cons (Closes.append ?_ _) _) _) _⟩
    exact (((((ih.closes.cons _).cons _).cons _).append _).cons _).cons _
  | empty => exact ⟨⟨_, _, rfl⟩, closes_token _⟩

end Tight

theorem Forms.note_eq {s : Stmt Place} (forms : Forms (.statement s) ts next) :
    s.note = Place.over ts := by
  cases forms with
  | block inner =>
    cases inner with
    | braces => rfl
  | _ => rfl

theorem span_over {source : List Char} {offset : Nat} {chunks : List Chunk} (tight : Tight chunks)
    (stands : Stands source offset ts newline chunks) :
    (Place.over ts).span = ⟨offset, offset + Text.byteLength (render chunks)⟩ := by
  obtain ⟨-, -, -, -, rfl⟩ := stands
  obtain ⟨first, last⟩ := tight.edges offset newline
  simp [Place.over, startOf, stopOf, first, last]

/-- Between two places of a text stand the line feeds that the notes ask for, and a margin. -/
def Parted (source : List Char) (notes : Lines × Lines) (places : Place × Place) : Prop :=
  ∃ front margin after,
    source = front ++ (feeds (some notes.1) notes.2 ++ (margin ++ after)) ∧
    (∀ c ∈ margin, c = ' ') ∧ places.1.span.stop = Text.byteLength front ∧
    places.2.span.start = Text.byteLength (front ++ (feeds (some notes.1) notes.2 ++ margin))

def Formed (source : List Char) (s : Stmt Lines) (ts : List Token) (next : Token) : Prop :=
  ∃ tree : Stmt Place, tree.bare = s.reread ∧ Forms (.statement tree) ts next ∧
    List.Forall₂ (Parted source) s.pairs tree.pairs

variable {source : List Char} {offset : Nat}

theorem parted_gap {width depth : Nat} {previous : Option Lines} {before : Option Place}
    {s : Stmt Lines} {place : Place} {rest : List Chunk} (both : previous.isSome = before.isSome)
    (ends : ∀ place ∈ before, place.span.stop = offset)
    (stands : Stands source offset ts newline
      (.gap (feeds previous s.note) :: .gap (marginGap width depth) :: rest))
    (starts : place.span.start = offset + Text.byteLength (feeds previous s.note) +
      Text.byteLength (marginGap width depth)) :
    List.Forall₂ (Parted source) (previous.toList.map fun note => (note, s.note))
      (before.toList.map fun note => (note, place)) := by
  cases previous with
  | none =>
    cases before with
    | none => exact .nil
    | some last => simp at both
  | some lines =>
    cases before with
    | none => simp at both
    | some last =>
      obtain ⟨front, after, rfl, begins, -⟩ := stands
      refine .cons ⟨front, marginGap width depth, render rest ++ after, ?_, ?_, ?_, ?_⟩ .nil
      · simp [Chunk.text]
      · exact fun c member => List.eq_of_mem_replicate member
      · rw [begins, ends last rfl]
      · rw [starts, ← begins, Text.byteLength_append, Text.byteLength_append, Nat.add_assoc]

theorem forms_listLayout {width depth : Nat} {list : List (Stmt Lines)}
    (members : ∀ s ∈ list, ∀ {offset ts newline next},
      Stands source offset ts newline (s.layout width depth) →
      (s.dangles = true → next.kind ≠ .word "else") → Formed source s ts next)
    (tight : ∀ s ∈ list, Tight (s.layout width depth)) {previous : Option Lines}
    {before : Option Place} (both : previous.isSome = before.isSome)
    (ends : ∀ place ∈ before, place.span.stop = offset)
    (stands : Stands source offset ts newline (Stmt.listLayout width depth previous list))
    (other : next.kind ≠ .word "else") :
    ∃ trees : List (Stmt Place), trees.map Stmt.bare = list.map Stmt.reread ∧
      Forms (.body trees) ts next ∧
      List.Forall₂ (Parted source) (Stmt.pairsList previous list) (Stmt.pairsList before trees) := by
  induction list generalizing previous before ts newline offset with
  | nil =>
    have spells := stands.spells
    rw [Stmt.listLayout, spells_nil] at spells
    exact ⟨[], rfl, spells ▸ .done, .nil⟩
  | cons s rest ih =>
    rw [Stmt.listLayout] at stands
    obtain ⟨us, vs, rfl, first, others⟩ := stands.gap.gap.append
    have span := span_over (tight s List.mem_cons_self) first
    -- Where the statement stands is known before the rest is read, and the rest is read before it:
    -- its end may depend on the next token.
    obtain ⟨trees, sames, forms, inside⟩ := ih
      (fun inner member => members inner (List.mem_cons_of_mem s member))
      (fun inner member => tight inner (List.mem_cons_of_mem s member))
      (by rfl : (some s.note).isSome = (some (Place.over us)).isSome)
      (by rintro _ ⟨⟩; rw [span]) others
    obtain ⟨tree, same, formed, within⟩ := members s List.mem_cons_self first
      fun _ => forms.body_head_ne other
    have note := formed.note_eq
    refine ⟨tree :: trees, by rw [List.map_cons, List.map_cons, same, sames], .more formed forms, ?_⟩
    rw [Stmt.pairsList, Stmt.pairsList, note]
    exact List.rel_append (parted_gap both ends stands (by rw [span])) (List.rel_append within inside)

theorem forms_braced {width depth : Nat} {body : List (Stmt Lines)}
    (members : ∀ s ∈ body, ∀ {offset ts newline next},
      Stands source offset ts newline (s.layout width (depth + 1)) →
      (s.dangles = true → next.kind ≠ .word "else") → Formed source s ts next)
    (tight : ∀ s ∈ body, Tight (s.layout width (depth + 1)))
    (stands : Stands source offset ts newline (bracedLayout width depth body.isEmpty
      (Stmt.listLayout width (depth + 1) none body))) :
    ∃ (place : Place) (trees : List (Stmt Place)),
      trees.map Stmt.bare = body.map Stmt.reread ∧ Forms (.block place trees) ts next ∧
      List.Forall₂ (Parted source) (Stmt.pairsList none body) (Stmt.pairsList none trees) := by
  unfold bracedLayout at stands
  split at stands
  · rename_i isEmpty
    rw [List.isEmpty_iff] at isEmpty
    obtain ⟨a, us, rfl, opening, -, stands⟩ := stands.token
    obtain ⟨b, rfl, closing, -⟩ := spells_single.mp stands.spells
    subst isEmpty
    exact ⟨_, [], rfl, @Forms.braces a b next [] [] opening .done closing, .nil⟩
  · obtain ⟨a, us, rfl, opening, -, stands⟩ := stands.token
    obtain ⟨us, vs, rfl, first, last⟩ := stands.gap.append
    obtain ⟨b, rfl, closing, -⟩ := spells_single.mp last.gap.spells
    obtain ⟨trees, sames, forms, inside⟩ := forms_listLayout members tight
      (by rfl : (none : Option Lines).isSome = (none : Option Place).isSome) (by simp) first
      (by rw [closing]; decide)
    exact ⟨_, trees, sames, .braces opening forms closing, inside⟩

theorem Opens.sameLine {chunks : List Chunk} (opens : Opens chunks)
    (spells : Spells ts newline chunks) : ∀ first ∈ ts.head?, first.newlineBefore = newline := by
  obtain ⟨kind, rest, rfl, -⟩ := opens
  obtain ⟨t, us, rfl, -, line, -⟩ := spells_token.mp spells
  simpa using line

theorem formed_ret {n : Lines} {argument : Option (Expr Lines)}
    (inner : ∀ e ∈ argument, Printable e) {width depth : Nat}
    (spells : Spells ts newline ((Stmt.ret n argument).layout width depth)) :
    Formed source (.ret n argument) ts next := by
  cases argument with
  | none =>
    rw [Stmt.layout] at spells
    obtain ⟨t, us, rfl, word, -, spells⟩ := spells_token.mp spells
    obtain ⟨u, rfl, semicolon, -⟩ := spells_single.mp spells
    exact ⟨_, by simp [Stmt.reread], .leave word (.semicolon semicolon), .nil⟩
  | some e =>
    have printable := inner e rfl
    rw [Stmt.layout] at spells
    obtain ⟨t, us, rfl, word, -, spells⟩ := spells_token.mp spells
    obtain ⟨us, vs, rfl, spelled, last⟩ := spells_append.mp (spells_blank.mp spells)
    obtain ⟨u, rfl, semicolon, -⟩ := spells_single.mp last
    obtain ⟨tree, same, derives⟩ := derives_at printable.derivable (by decide) spelled
    exact ⟨_, by simp [Stmt.reread, same], .ret word derives ((printable.opens.enclosed _).sameLine
      spelled) (stops_of_closing (by simp) semicolon _) (.semicolon semicolon), .nil⟩

theorem formed_expression {n : Lines} {e : Expr Lines} (printable : Printable e) {width depth : Nat}
    (spells : Spells ts newline ((Stmt.expression n e).layout width depth)) :
    Formed source (.expression n e) ts next := by
  rw [Stmt.layout] at spells
  obtain ⟨us, vs, rfl, spelled, last⟩ := spells_append.mp spells
  obtain ⟨u, rfl, semicolon, -⟩ := spells_single.mp last
  obtain ⟨tree, same, derives⟩ := derives_enclosed Level.sequence
    (by decide : Level.sequence ≤ Level.primary) (fun _ => le_refl _)
    (fun inside => derives_at printable.derivable (by decide) inside) spelled
  exact ⟨_, by simp [Stmt.reread, same],
    .expression derives (stops_of_closing (by simp) semicolon _) (.semicolon semicolon), .nil⟩

theorem PrintableStmt.formed {s : Stmt Lines} (printable : PrintableStmt s) {width depth : Nat}
    (stands : Stands source offset ts newline (s.layout width depth))
    (bare : s.dangles = true → next.kind ≠ .word "else") : Formed source s ts next := by
  induction printable generalizing ts newline next depth offset with
  | declaration some names values =>
    have spells := stands.spells
    rw [Stmt.layout] at spells
    obtain ⟨t, us, rfl, word, -, spells⟩ := spells_token.mp spells
    obtain ⟨us, vs, rfl, spelled, last⟩ := spells_append.mp (spells_blank.mp spells)
    obtain ⟨u, rfl, semicolon, -⟩ := spells_single.mp last
    obtain ⟨trees, sames, declares⟩ := declaresAll_of_spells some names values spelled semicolon
    exact ⟨_, by simp [Stmt.reread, sames], .declaration word declares (.semicolon semicolon), .nil⟩
  | function name names inner ih =>
    rw [Stmt.layout] at stands
    obtain ⟨us, vs, rfl, front, rest⟩ := stands.append
    obtain ⟨head, same, heads⟩ := heads_of_spells name names front.spells
    obtain ⟨place, trees, sames, block, inside⟩ := forms_braced (fun s member => ih s member)
      (fun s member => PrintableStmt.tight (inner s member) width (depth + 1)) rest.blank
    exact ⟨_, by simp [Stmt.reread, same, sames], .function heads block, inside⟩
  | block inner ih =>
    rw [Stmt.layout] at stands
    obtain ⟨place, trees, sames, block, inside⟩ := forms_braced (fun s member => ih s member)
      (fun s member => PrintableStmt.tight (inner s member) width (depth + 1)) stands
    exact ⟨_, by simp [Stmt.reread, sames], .block block, inside⟩
  | ret inner => exact formed_ret inner stands.spells
  | expression inner => exact formed_expression inner stands.spells
  | branch condition _ ih =>
    rw [Stmt.layout, Stmt.elseLayout, List.append_nil] at stands
    obtain ⟨t, us, rfl, word, -, stands⟩ := stands.token
    obtain ⟨a, us, rfl, opening, -, stands⟩ := stands.blank.token
    obtain ⟨us, vs, rfl, test, stands⟩ := stands.append
    obtain ⟨b, vs, rfl, closing, -, stands⟩ := stands.token
    obtain ⟨testTree, sameTest, derives⟩ :=
      derives_at (Printable.derivable condition) (by decide) test.spells
    have other : next.kind ≠ .word "else" := bare (by simp [Stmt.dangles, Stmt.danglesElse])
    obtain ⟨tree, same, forms, inside⟩ := ih stands.blank fun _ => other
    refine ⟨_, by simp [Stmt.reread, Stmt.rereadElse, sameTest, same],
      .branch word opening derives closing forms other, ?_⟩
    simpa [Stmt.pairs, Stmt.pairsElse] using inside
  | choice condition _ closed _ ihPositive ihNegative =>
    rw [Stmt.layout, Stmt.elseLayout] at stands
    obtain ⟨t, us, rfl, word, -, stands⟩ := stands.token
    obtain ⟨a, us, rfl, opening, -, stands⟩ := stands.blank.token
    obtain ⟨us, vs, rfl, test, stands⟩ := stands.append
    obtain ⟨b, vs, rfl, closing, -, stands⟩ := stands.token
    obtain ⟨vs, ws, rfl, positive, stands⟩ := stands.blank.append
    obtain ⟨c, ws, rfl, other, -, stands⟩ := stands.blank.token
    obtain ⟨testTree, sameTest, derives⟩ :=
      derives_at (Printable.derivable condition) (by decide) test.spells
    obtain ⟨first, sameFirst, formsFirst, insideFirst⟩ : Formed source _ vs c :=
      ihPositive positive fun dangles => by simp [closed] at dangles
    obtain ⟨second, sameSecond, formsSecond, insideSecond⟩ := ihNegative stands.blank
      fun dangles => bare (by simpa [Stmt.dangles, Stmt.danglesElse] using dangles)
    exact ⟨_, by simp [Stmt.reread, Stmt.rereadElse, sameTest, sameFirst, sameSecond],
      .choice word opening derives closing formsFirst other formsSecond,
      List.rel_append insideFirst insideSecond⟩
  | empty =>
    have spells := stands.spells
    rw [Stmt.layout] at spells
    obtain ⟨t, rfl, semicolon, -⟩ := spells_single.mp spells
    exact ⟨_, by simp [Stmt.reread], .empty semicolon, .nil⟩

end Forms

structure ReadsAs (width : Nat) (body : List (Stmt Lines)) (inner : List Token) (last : Token)
    (trees : List (Stmt Place)) : Prop where
  scanned : Token.scan (programText width body).toList = .ok (inner ++ [last])
  finish : last.kind = .finish
  spells : Spells inner false (Stmt.listLayout width 0 none body)
  forms : Forms (.body trees) inner last
  same : trees.map Stmt.bare = body.map Stmt.reread
  parted : List.Forall₂ (Parted (programText width body).toList) (Stmt.pairsList none body)
    (Stmt.pairsList none trees)

/-- Printable statements are read again from their text. -/
theorem readsAs {body : List (Stmt Lines)} (printable : ∀ s ∈ body, PrintableStmt s) (width : Nat) :
    ∃ inner last trees, ReadsAs width body inner last trees := by
  have fits := fits_listLayout (fun s member => (printable s member).fits width 0) none []
  have stands : Stands (programText width body).toList 0
      (Chunk.place 0 false (Stmt.listLayout width 0 none body)) false
      (Stmt.listLayout width 0 none body) :=
    ⟨[], [], by rw [render_program, List.nil_append, List.append_nil], rfl, rfl⟩
  obtain ⟨last, finish, scanned⟩ : ∃ last : Token, last.kind = .finish ∧
      Token.scan (programText width body).toList =
        .ok (Chunk.place 0 false (Stmt.listLayout width 0 none body) ++ [last]) := by
    rw [← render_program]
    exact ⟨_, rfl, Chunk.scanFrom_render fits 0 false⟩
  obtain ⟨trees, sames, forms, parted⟩ := forms_listLayout
    (fun s member => (printable s member).formed)
    (fun s member => PrintableStmt.tight (printable s member) width 0)
    (by rfl : (none : Option Lines).isSome = (none : Option Place).isSome) (by simp) stands
    (by rw [finish]; decide)
  exact ⟨_, last, trees, scanned, finish, stands.spells, forms, sames, parted⟩

theorem ReadsAs.statements {width : Nat} {body : List (Stmt Lines)} {inner : List Token}
    {last : Token} {trees : List (Stmt Place)} (reads : ReadsAs width body inner last trees) :
    (Source.ofString (programText width body)).statements = .ok trees := by
  obtain ⟨front, final, shape, -, spelled⟩ := Token.spelled_of_scanFrom reads.scanned
  obtain ⟨rfl, -⟩ := List.append_inj' shape rfl
  have live : ∀ t ∈ inner, t.kind ≠ .finish := fun t member finish => by
    have := spelled t member
    rw [finish] at this
    exact this
  have program := (program_eq_ok_iff reads.finish live).mpr reads.forms
  simp only [Source.statements, Source.tokens, Source.ofString, reads.scanned, program]

end Arborist.Script

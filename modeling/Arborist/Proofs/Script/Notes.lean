import Mathlib
import Arborist.Script.Tree

/-!
Trees with their notes changed or forgotten, and induction over trees. Lists of members are given to
the induction as hypotheses on each member.
-/

namespace Arborist.Script

variable {ι κ : Type}

namespace Expr

@[elab_as_elim]
theorem induct {motive : Expr ι → Prop} (name : ∀ n text, motive (.name n text))
    (number : ∀ n value raw, motive (.number n value raw))
    (string : ∀ n value raw, motive (.string n value raw))
    (boolean : ∀ n value, motive (.boolean n value)) (null : ∀ n, motive (.null n))
    (array : ∀ n elements, (∀ e, some e ∈ elements → motive e) → motive (.array n elements))
    (binary : ∀ n operator left right, motive left → motive right →
      motive (.binary n operator left right))
    (unary : ∀ n operator argument, motive argument → motive (.unary n operator argument))
    (update : ∀ n operator before argument, motive argument →
      motive (.update n operator before argument))
    (assignment : ∀ n operator target value, motive target → motive value →
      motive (.assignment n operator target value))
    (conditional : ∀ n test consequent alternate, motive test → motive consequent →
      motive alternate → motive (.conditional n test consequent alternate))
    (sequence : ∀ n parts, (∀ e ∈ parts, motive e) → motive (.sequence n parts))
    (call : ∀ n callee arguments, motive callee → (∀ e ∈ arguments, motive e) →
      motive (.call n callee arguments))
    (member : ∀ n object property computed, motive object → motive property →
      motive (.member n object property computed)) (e : Expr ι) : motive e := by
  refine @Expr.rec ι motive (fun list => ∀ e, some e ∈ list → motive e)
    (fun list => ∀ e ∈ list, motive e) (fun entry => ∀ e ∈ entry, motive e)
    name number string boolean null array binary unary update assignment conditional sequence call
    member ?_ ?_ ?_ ?_ ?_ ?_ e
  · simp
  · intro entry rest head tail e member
    rcases List.mem_cons.mp member with same | inner
    · exact head e same.symm
    · exact tail e inner
  · simp
  · intro first rest head tail e member
    rcases List.mem_cons.mp member with rfl | inner
    · exact head
    · exact tail e inner
  · simp
  · intro inner holds e member
    rw [Option.mem_some_iff] at member
    exact member ▸ holds

mutual

def mapNote (f : ι → κ) : Expr ι → Expr κ
  | .name n text => .name (f n) text
  | .number n value raw => .number (f n) value raw
  | .string n value raw => .string (f n) value raw
  | .boolean n value => .boolean (f n) value
  | .null n => .null (f n)
  | .array n elements => .array (f n) (mapNoteElements f elements)
  | .binary n operator left right => .binary (f n) operator (left.mapNote f) (right.mapNote f)
  | .unary n operator argument => .unary (f n) operator (argument.mapNote f)
  | .update n operator before argument => .update (f n) operator before (argument.mapNote f)
  | .assignment n operator target value =>
    .assignment (f n) operator (target.mapNote f) (value.mapNote f)
  | .conditional n test consequent alternate =>
    .conditional (f n) (test.mapNote f) (consequent.mapNote f) (alternate.mapNote f)
  | .sequence n parts => .sequence (f n) (mapNoteList f parts)
  | .call n callee arguments => .call (f n) (callee.mapNote f) (mapNoteList f arguments)
  | .member n object property computed =>
    .member (f n) (object.mapNote f) (property.mapNote f) computed

def mapNoteList (f : ι → κ) : List (Expr ι) → List (Expr κ)
  | [] => []
  | e :: rest => e.mapNote f :: mapNoteList f rest

def mapNoteElements (f : ι → κ) : List (Option (Expr ι)) → List (Option (Expr κ))
  | [] => []
  | none :: rest => none :: mapNoteElements f rest
  | some e :: rest => some (e.mapNote f) :: mapNoteElements f rest

end

@[simp] theorem mapNoteList_eq_map (f : ι → κ) (list : List (Expr ι)) :
    mapNoteList f list = list.map (mapNote f) := by
  induction list with
  | nil => rfl
  | cons e rest ih => rw [mapNoteList, ih, List.map_cons]

@[simp] theorem mapNoteElements_eq_map (f : ι → κ) (list : List (Option (Expr ι))) :
    mapNoteElements f list = list.map (Option.map (mapNote f)) := by
  induction list with
  | nil => rfl
  | cons entry rest ih => cases entry <;> rw [mapNoteElements, ih] <;> rfl

/-- The expression itself, its notes forgotten. -/
def bare (e : Expr ι) : Expr Unit := e.mapNote fun _ => ()

section Bare

variable (n : ι) (e left right : Expr ι) (list : List (Expr ι))

@[simp] theorem bare_name (text : String) : (name n text).bare = .name () text := rfl

@[simp] theorem bare_number (value : Number) (raw : Option String) :
    (number n value raw).bare = .number () value raw := rfl

@[simp] theorem bare_string (value : String) (raw : Option String) :
    (string n value raw).bare = .string () value raw := rfl

@[simp] theorem bare_boolean (value : Bool) : (boolean n value).bare = .boolean () value := rfl

@[simp] theorem bare_null : (null n).bare = .null () := rfl

@[simp] theorem bare_array : (array n (list.map some)).bare =
    .array () ((list.map bare).map some) := by
  simp only [bare, mapNote, mapNoteElements_eq_map, List.map_map]
  rfl

@[simp] theorem bare_binary (operator : BinaryOperator) :
    (binary n operator left right).bare = .binary () operator left.bare right.bare := rfl

@[simp] theorem bare_unary (operator : UnaryOperator) :
    (unary n operator e).bare = .unary () operator e.bare := rfl

@[simp] theorem bare_update (operator : UpdateOperator) (before : Bool) :
    (update n operator before e).bare = .update () operator before e.bare := rfl

@[simp] theorem bare_assignment (operator : AssignmentOperator) :
    (assignment n operator left right).bare = .assignment () operator left.bare right.bare := rfl

@[simp] theorem bare_conditional :
    (conditional n e left right).bare = .conditional () e.bare left.bare right.bare := rfl

@[simp] theorem bare_sequence : (sequence n list).bare = .sequence () (list.map bare) := by
  simp only [bare, mapNote, mapNoteList_eq_map]
  rfl

@[simp] theorem bare_call : (call n e list).bare = .call () e.bare (list.map bare) := by
  simp only [bare, mapNote, mapNoteList_eq_map]
  rfl

@[simp] theorem bare_member (computed : Bool) :
    (member n left right computed).bare = .member () left.bare right.bare computed := rfl

end Bare

@[simp] theorem bare_withNote (e : Expr ι) (n : ι) : (e.withNote n).bare = e.bare := by
  cases e <;> rfl

@[simp] theorem isAssignable_bare (e : Expr ι) : e.bare.isAssignable = e.isAssignable := by
  cases e <;> rfl

@[simp] theorem isAssignable_mapNote (f : ι → κ) (e : Expr ι) :
    (e.mapNote f).isAssignable = e.isAssignable := by
  cases e <;> rfl

end Expr

namespace Declarator

def mapNote (f : ι → κ) (d : Declarator ι) : Declarator κ :=
  ⟨f d.note, d.target.mapNote f, d.value.map (Expr.mapNote f)⟩

def bare (d : Declarator ι) : Declarator Unit := ⟨(), d.target.bare, d.value.map Expr.bare⟩

end Declarator

namespace FunctionHead

def mapNote (f : ι → κ) (head : FunctionHead ι) : FunctionHead κ :=
  ⟨head.isAsync, head.isGenerator, head.name.mapNote f, head.parameters.map (Expr.mapNote f)⟩

def bare (head : FunctionHead ι) : FunctionHead Unit :=
  ⟨head.isAsync, head.isGenerator, head.name.bare, head.parameters.map Expr.bare⟩

end FunctionHead

namespace Stmt

@[elab_as_elim]
theorem induct {motive : Stmt ι → Prop}
    (declaration : ∀ n kind declarators, motive (.declaration n kind declarators))
    (function : ∀ n head block body, (∀ s ∈ body, motive s) → motive (.function n head block body))
    (block : ∀ n body, (∀ s ∈ body, motive s) → motive (.block n body))
    (ret : ∀ n argument, motive (.ret n argument))
    (expression : ∀ n e, motive (.expression n e))
    (branch : ∀ n test consequent alternate, motive consequent → (∀ s ∈ alternate, motive s) →
      motive (.branch n test consequent alternate))
    (empty : ∀ n, motive (.empty n)) (s : Stmt ι) : motive s := by
  refine @Stmt.rec ι motive (fun list => ∀ s ∈ list, motive s) (fun entry => ∀ s ∈ entry, motive s)
    declaration function block ret expression branch empty ?_ ?_ ?_ ?_ s
  · simp
  · intro first rest head tail s member
    rcases List.mem_cons.mp member with rfl | inner
    · exact head
    · exact tail s inner
  · simp
  · intro inner holds s member
    rw [Option.mem_some_iff] at member
    exact member ▸ holds

mutual

def mapNote (f : ι → κ) : Stmt ι → Stmt κ
  | .declaration n kind declarators => .declaration (f n) kind (declarators.map (Declarator.mapNote f))
  | .function n head blockNote body =>
    .function (f n) (head.mapNote f) (f blockNote) (mapNoteList f body)
  | .block n body => .block (f n) (mapNoteList f body)
  | .ret n argument => .ret (f n) (argument.map (Expr.mapNote f))
  | .expression n e => .expression (f n) (e.mapNote f)
  | .branch n test consequent alternate =>
    .branch (f n) (test.mapNote f) (consequent.mapNote f) (mapNoteOption f alternate)
  | .empty n => .empty (f n)

def mapNoteList (f : ι → κ) : List (Stmt ι) → List (Stmt κ)
  | [] => []
  | s :: rest => s.mapNote f :: mapNoteList f rest

def mapNoteOption (f : ι → κ) : Option (Stmt ι) → Option (Stmt κ)
  | none => none
  | some s => some (s.mapNote f)

end

@[simp] theorem mapNoteList_eq_map (f : ι → κ) (list : List (Stmt ι)) :
    mapNoteList f list = list.map (mapNote f) := by
  induction list with
  | nil => rfl
  | cons s rest ih => rw [mapNoteList, ih, List.map_cons]

@[simp] theorem mapNoteOption_eq_map (f : ι → κ) (entry : Option (Stmt ι)) :
    mapNoteOption f entry = entry.map (mapNote f) := by
  cases entry <;> rfl

def bare (s : Stmt ι) : Stmt Unit := s.mapNote fun _ => ()

@[simp] theorem bare_declaration (n : ι) (kind : DeclarationKind) (list : List (Declarator ι)) :
    (declaration n kind list).bare = .declaration () kind (list.map Declarator.bare) := rfl

@[simp] theorem bare_function (n m : ι) (head : FunctionHead ι) (body : List (Stmt ι)) :
    (function n head m body).bare = .function () head.bare () (body.map bare) :=
  congrArg (Stmt.function () _ ()) (mapNoteList_eq_map _ body)

@[simp] theorem bare_block (n : ι) (body : List (Stmt ι)) :
    (block n body).bare = .block () (body.map bare) :=
  congrArg (Stmt.block ()) (mapNoteList_eq_map _ body)

@[simp] theorem bare_ret (n : ι) (argument : Option (Expr ι)) :
    (ret n argument).bare = .ret () (argument.map Expr.bare) := rfl

@[simp] theorem bare_expression (n : ι) (e : Expr ι) :
    (expression n e).bare = .expression () e.bare := rfl

@[simp] theorem bare_branch (n : ι) (test : Expr ι) (consequent : Stmt ι)
    (alternate : Option (Stmt ι)) :
    (branch n test consequent alternate).bare =
      .branch () test.bare consequent.bare (alternate.map bare) :=
  congrArg (Stmt.branch () _ _) (mapNoteOption_eq_map _ alternate)

@[simp] theorem bare_empty (n : ι) : (empty n).bare = .empty () := rfl

end Stmt

end Arborist.Script

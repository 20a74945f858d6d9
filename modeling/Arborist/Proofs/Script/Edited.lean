import Mathlib
import Arborist.Proofs.Script.Notes
import Arborist.Proofs.Value.Nodes
import Arborist.Script.Cursor
import Arborist.Script.Printer

/-!
Trees with written fields. An edited tree has the shape of the original; a name, an operator, a
number, a kind of declaration or a flag in it may be another one where that is allowed, and a number
keeps its spelling only while it agrees with the original.
-/

namespace Arborist.Script

open Value (Allowance)

variable {ι κ ν : Type}

/-- A field that holds what it held, or something that may be written over it. -/
def Kept (allows : Allowance) (kind field : String) (value other : Value) : Prop :=
  other = value ∨ allows kind field value other

/-- An operator for an operator; only those that are not logical are ever replaced. -/
def KeptOperator (allows : Allowance) (operator other : BinaryOperator) : Prop :=
  other = operator ∨ operator.isLogical = false ∧ other.isLogical = false ∧
    allows "BinaryExpression" "operator" (.string operator.text) (.string other.text)

namespace Expr

mutual

def Edited (allows : Allowance) : Expr ι → Expr κ → Prop
  | .name _ text, other =>
    ∃ note next, other = .name note next ∧
      Kept allows "Identifier" "name" (.string text) (.string next)
  | .number _ value raw, other =>
    ∃ note next, other = .number note next (if value.agrees next then raw else none) ∧
      Kept allows "NumericLiteral" "value" (.number value) (.number next)
  | .string _ value raw, other => ∃ note, other = .string note value raw
  | .boolean _ value, other => ∃ note, other = .boolean note value
  | .null _, other => ∃ note, other = .null note
  | .array _ elements, other =>
    ∃ note others, other = .array note others ∧ EditedElements allows elements others
  | .binary _ operator left right, other =>
    ∃ note next first second, other = .binary note next first second ∧
      KeptOperator allows operator next ∧ left.Edited allows first ∧ right.Edited allows second
  | .unary _ operator argument, other =>
    ∃ note inner, other = .unary note operator inner ∧ argument.Edited allows inner
  | .update _ operator before argument, other =>
    ∃ note inner, other = .update note operator before inner ∧ argument.Edited allows inner
  | .assignment _ operator target value, other =>
    ∃ note first second, other = .assignment note operator first second ∧
      target.Edited allows first ∧ value.Edited allows second
  | .conditional _ test consequent alternate, other =>
    ∃ note first second third, other = .conditional note first second third ∧
      test.Edited allows first ∧ consequent.Edited allows second ∧ alternate.Edited allows third
  | .sequence _ parts, other =>
    ∃ note others, other = .sequence note others ∧ EditedList allows parts others
  | .call _ callee arguments, other =>
    ∃ note first others, other = .call note first others ∧ callee.Edited allows first ∧
      EditedList allows arguments others
  | .member _ object property computed, other =>
    ∃ note first second, other = .member note first second computed ∧
      object.Edited allows first ∧ property.Edited allows second

def EditedList (allows : Allowance) : List (Expr ι) → List (Expr κ) → Prop
  | [], others => others = []
  | e :: rest, others =>
    ∃ other more, others = other :: more ∧ e.Edited allows other ∧ EditedList allows rest more

def EditedElements (allows : Allowance) : List (Option (Expr ι)) → List (Option (Expr κ)) → Prop
  | [], others => others = []
  | none :: rest, others => ∃ more, others = none :: more ∧ EditedElements allows rest more
  | some e :: rest, others =>
    ∃ other more, others = some other :: more ∧ e.Edited allows other ∧
      EditedElements allows rest more

end

def EditedOption (allows : Allowance) : Option (Expr ι) → Option (Expr κ) → Prop
  | none, other => other = none
  | some e, other => ∃ next, other = some next ∧ e.Edited allows next

theorem editedList_iff {allows : Allowance} {list : List (Expr ι)} {others : List (Expr κ)} :
    EditedList allows list others ↔ List.Forall₂ (Edited allows) list others := by
  induction list generalizing others with
  | nil => simp [EditedList]
  | cons e rest ih =>
    rw [EditedList, List.forall₂_cons_left_iff]
    constructor
    · rintro ⟨other, more, rfl, one, all⟩
      exact ⟨other, more, one, ih.mp all, rfl⟩
    · rintro ⟨other, more, one, all, rfl⟩
      exact ⟨other, more, rfl, one, ih.mpr all⟩

end Expr

structure Declarator.Edited (allows : Allowance) (d : Declarator ι) (other : Declarator κ) : Prop where
  target : d.target.Edited allows other.target
  value : Expr.EditedOption allows d.value other.value

structure FunctionHead.Edited (allows : Allowance) (head : FunctionHead ι) (other : FunctionHead κ) :
    Prop where
  isAsync : Kept allows "FunctionDeclaration" "async" (.bool head.isAsync) (.bool other.isAsync)
  isGenerator :
    Kept allows "FunctionDeclaration" "generator" (.bool head.isGenerator) (.bool other.isGenerator)
  name : head.name.Edited allows other.name
  parameters : Expr.EditedList allows head.parameters other.parameters

namespace Stmt

mutual

def Edited (allows : Allowance) : Stmt ι → Stmt κ → Prop
  | .declaration _ kind list, other =>
    ∃ note next others, other = .declaration note next others ∧
      Kept allows "VariableDeclaration" "kind" (.string kind.text) (.string next.text) ∧
      List.Forall₂ (Declarator.Edited allows) list others
  | .function _ head _ body, other =>
    ∃ note first inner others, other = .function note first inner others ∧
      head.Edited allows first ∧ EditedList allows body others
  | .block _ body, other => ∃ note others, other = .block note others ∧ EditedList allows body others
  | .ret _ argument, other =>
    ∃ note inner, other = .ret note inner ∧ Expr.EditedOption allows argument inner
  | .expression _ e, other => ∃ note inner, other = .expression note inner ∧ e.Edited allows inner
  | .branch _ test consequent alternate, other =>
    ∃ note first second third, other = .branch note first second third ∧ test.Edited allows first ∧
      consequent.Edited allows second ∧ EditedOption allows alternate third
  | .empty _, other => ∃ note, other = .empty note

def EditedList (allows : Allowance) : List (Stmt ι) → List (Stmt κ) → Prop
  | [], others => others = []
  | s :: rest, others =>
    ∃ other more, others = other :: more ∧ s.Edited allows other ∧ EditedList allows rest more

def EditedOption (allows : Allowance) : Option (Stmt ι) → Option (Stmt κ) → Prop
  | none, other => other = none
  | some s, other => ∃ next, other = some next ∧ s.Edited allows next

end

theorem editedList_iff {allows : Allowance} {list : List (Stmt ι)} {others : List (Stmt κ)} :
    EditedList allows list others ↔ List.Forall₂ (Edited allows) list others := by
  induction list generalizing others with
  | nil => simp [EditedList]
  | cons s rest ih =>
    rw [EditedList, List.forall₂_cons_left_iff]
    constructor
    · rintro ⟨other, more, rfl, one, all⟩
      exact ⟨other, more, one, ih.mp all, rfl⟩
    · rintro ⟨other, more, one, all, rfl⟩
      exact ⟨other, more, rfl, one, ih.mpr all⟩

end Stmt

namespace Expr

section Notes

variable {allows : Allowance} {f : ι → ν}

theorem editedList_mapNote {list : List (Expr ι)}
    (members : ∀ e ∈ list, ∀ {tree : Expr κ}, (e.mapNote f).Edited allows tree ↔ e.Edited allows tree)
    {others : List (Expr κ)} :
    EditedList allows (list.map (mapNote f)) others ↔ EditedList allows list others := by
  induction list generalizing others with
  | nil => rfl
  | cons e rest ih =>
    obtain ⟨first, behind⟩ := List.forall_mem_cons.mp members
    simp only [List.map_cons, EditedList, first, ih behind]

theorem editedElements_mapNote {list : List (Option (Expr ι))}
    (members : ∀ e, some e ∈ list → ∀ {tree : Expr κ},
      (e.mapNote f).Edited allows tree ↔ e.Edited allows tree)
    {others : List (Option (Expr κ))} :
    EditedElements allows (list.map (Option.map (mapNote f))) others ↔
      EditedElements allows list others := by
  induction list generalizing others with
  | nil => rfl
  | cons entry rest ih =>
    replace ih := @ih fun e member {_} => members e (List.mem_cons_of_mem entry member)
    cases entry with
    | none => simp only [List.map_cons, Option.map_none, EditedElements, ih]
    | some e =>
      simp only [List.map_cons, Option.map_some, EditedElements, ih, members e List.mem_cons_self]

theorem edited_mapNote {e : Expr ι} {tree : Expr κ} :
    (e.mapNote f).Edited allows tree ↔ e.Edited allows tree := by
  induction e using Expr.induct generalizing tree with
  | name | number | string | boolean | null => rfl
  | array n elements ih =>
    simp only [mapNote, mapNoteElements_eq_map, Edited, editedElements_mapNote ih]
  | sequence n parts ih => simp only [mapNote, mapNoteList_eq_map, Edited, editedList_mapNote ih]
  | call n callee arguments first ih =>
    simp only [mapNote, mapNoteList_eq_map, Edited, first, editedList_mapNote ih]
  | binary n operator left right first second | assignment n operator left right first second
  | member n left right computed first second => simp only [mapNote, Edited, first, second]
  | unary n operator argument ih | update n operator before argument ih =>
    simp only [mapNote, Edited, ih]
  | conditional n test consequent alternate first second third =>
    simp only [mapNote, Edited, first, second, third]

theorem editedOption_mapNote {entry : Option (Expr ι)} {other : Option (Expr κ)} :
    EditedOption allows (entry.map (mapNote f)) other ↔ EditedOption allows entry other := by
  cases entry with
  | none => rfl
  | some e => simp only [Option.map_some, EditedOption, edited_mapNote]

end Notes

end Expr

section Notes

variable {allows : Allowance} {f : ι → ν}

theorem Declarator.edited_mapNote {d : Declarator ι} {other : Declarator κ} :
    (d.mapNote f).Edited allows other ↔ d.Edited allows other :=
  ⟨fun edited => ⟨Expr.edited_mapNote.1 edited.target, Expr.editedOption_mapNote.1 edited.value⟩,
    fun edited => ⟨Expr.edited_mapNote.2 edited.target, Expr.editedOption_mapNote.2 edited.value⟩⟩

theorem FunctionHead.edited_mapNote {head : FunctionHead ι} {other : FunctionHead κ} :
    (head.mapNote f).Edited allows other ↔ head.Edited allows other := by
  have parameters := @Expr.editedList_mapNote ι κ ν allows f head.parameters
    (fun _ _ _ => Expr.edited_mapNote) other.parameters
  exact ⟨fun edited => ⟨edited.isAsync, edited.isGenerator, Expr.edited_mapNote.1 edited.name,
      parameters.1 edited.parameters⟩,
    fun edited => ⟨edited.isAsync, edited.isGenerator, Expr.edited_mapNote.2 edited.name,
      parameters.2 edited.parameters⟩⟩

namespace Stmt

theorem editedList_mapNote {list : List (Stmt ι)}
    (members : ∀ s ∈ list, ∀ {tree : Stmt κ}, (s.mapNote f).Edited allows tree ↔ s.Edited allows tree)
    {others : List (Stmt κ)} :
    EditedList allows (list.map (mapNote f)) others ↔ EditedList allows list others := by
  induction list generalizing others with
  | nil => rfl
  | cons s rest ih =>
    obtain ⟨first, behind⟩ := List.forall_mem_cons.mp members
    simp only [List.map_cons, EditedList, first, ih behind]

theorem edited_mapNote {s : Stmt ι} {tree : Stmt κ} :
    (s.mapNote f).Edited allows tree ↔ s.Edited allows tree := by
  induction s using Stmt.induct generalizing tree with
  | declaration n kind list =>
    simp only [mapNote, Edited, List.forall₂_map_left_iff, Declarator.edited_mapNote]
  | function n head block body ih =>
    simp only [mapNote, mapNoteList_eq_map, Edited, FunctionHead.edited_mapNote, editedList_mapNote ih]
  | block n body ih => simp only [mapNote, mapNoteList_eq_map, Edited, editedList_mapNote ih]
  | ret n argument => simp only [mapNote, Edited, Expr.editedOption_mapNote]
  | expression n e => simp only [mapNote, Edited, Expr.edited_mapNote]
  | branch n test consequent alternate first second =>
    have otherwise {third : Option (Stmt κ)} : EditedOption allows (alternate.map (mapNote f)) third ↔
        EditedOption allows alternate third := by
      cases alternate with
      | none => rfl
      | some other => simp only [Option.map_some, EditedOption, second other rfl]
    simp only [mapNote, mapNoteOption_eq_map, Edited, Expr.edited_mapNote, first, otherwise]
  | empty n => rfl

theorem edited_of_bare {list : List (Stmt ι)} {others : List (Stmt ν)} {trees : List (Stmt κ)}
    (same : list.map bare = others.map bare) (edited : List.Forall₂ (Edited allows) list trees) :
    List.Forall₂ (Edited allows) others trees := by
  have forget {μ : Type} (list : List (Stmt μ)) :
      List.Forall₂ (Edited allows) (list.map bare) trees ↔ List.Forall₂ (Edited allows) list trees := by
    simp only [List.forall₂_map_left_iff, bare, edited_mapNote]
  exact (forget others).1 (same ▸ (forget list).2 edited)

end Stmt

end Notes

end Arborist.Script

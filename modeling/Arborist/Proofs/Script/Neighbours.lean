import Mathlib
import Arborist.Proofs.Script.Notes
import Arborist.Script.Printer

/-!
Neighbours in lists of statements. Notes bear on the text of a program only through them: the text is
settled by the statements without their notes and by which neighbours stand apart.
-/

namespace Arborist.Script

variable {ι κ : Type}

namespace Stmt

mutual

/-- The notes of every two statements that follow each other in a list, in the order of the text. -/
def pairs : Stmt ι → List (ι × ι)
  | .function _ _ _ body => pairsList none body
  | .block _ body => pairsList none body
  | .branch _ _ consequent alternate => consequent.pairs ++ pairsElse alternate
  | _ => []

def pairsElse : Option (Stmt ι) → List (ι × ι)
  | none => []
  | some alternate => alternate.pairs

def pairsList (previous : Option ι) : List (Stmt ι) → List (ι × ι)
  | [] => []
  | s :: rest =>
    previous.toList.map (fun note => (note, s.note)) ++ (s.pairs ++ pairsList (some s.note) rest)

end

/-- The second statement has the notes of the first, changed by a function. -/
structure Noted (f : ι → κ) (s : Stmt ι) (other : Stmt κ) : Prop where
  note : other.note = f s.note
  pairs : other.pairs = s.pairs.map (Prod.map f f)

theorem pairsList_noted {f : ι → κ} {list : List (Stmt ι)} {others : List (Stmt κ)}
    (noted : List.Forall₂ (Noted f) list others) (previous : Option ι) :
    pairsList (previous.map f) others = (pairsList previous list).map (Prod.map f f) := by
  induction noted generalizing previous with
  | nil => rfl
  | cons first _ ih =>
    rw [pairsList, pairsList, List.map_append, List.map_append, first.pairs, first.note]
    congr 1
    · cases previous <;> rfl
    · exact congrArg _ (ih (some _))

theorem noted_mapNote (f : ι → κ) (s : Stmt ι) : Noted f s (s.mapNote f) := by
  have lists {list : List (Stmt ι)} (members : ∀ s ∈ list, Noted f s (s.mapNote f)) :
      pairsList none (list.map (mapNote f)) = (pairsList none list).map (Prod.map f f) :=
    pairsList_noted (List.forall₂_map_right_iff.2 (List.forall₂_same.2 members)) none
  induction s using Stmt.induct with
  | function n head block body ih =>
    refine ⟨rfl, ?_⟩
    rw [mapNote, mapNoteList_eq_map, pairs, pairs, lists ih]
  | block n body ih =>
    refine ⟨rfl, ?_⟩
    rw [mapNote, mapNoteList_eq_map, pairs, pairs, lists ih]
  | branch n test consequent alternate first second =>
    refine ⟨rfl, ?_⟩
    rw [mapNote, pairs, pairs, List.map_append, first.pairs]
    cases alternate with
    | none => rfl
    | some other => exact congrArg _ (second other rfl).pairs
  | _ => exact ⟨rfl, rfl⟩

theorem length_pairs_of_bare {s : Stmt ι} {other : Stmt κ} (same : s.bare = other.bare) :
    s.pairs.length = other.pairs.length := by
  have first := congrArg List.length (noted_mapNote (fun _ => ()) s).pairs
  have second := congrArg List.length (noted_mapNote (fun _ => ()) other).pairs
  rw [List.length_map] at first second
  rw [← first, ← second]
  exact congrArg (fun s => (pairs s).length) same

end Stmt

namespace Expr

theorem isNumber_mapNote (f : ι → κ) (e : Expr ι) : (e.mapNote f).isNumber = e.isNumber := by
  cases e <;> rfl

theorem writeList_congr {list : List (Expr ι)} {others : List (Expr κ)}
    (same : others.map write = list.map write) : writeList others = writeList list := by
  induction list generalizing others with
  | nil =>
    rw [List.map_nil, List.map_eq_nil_iff] at same
    rw [same]
    rfl
  | cons e rest ih =>
    obtain ⟨other, more, rfl, one, all⟩ := List.map_eq_cons_iff.1 same
    rw [writeList, writeList, ih all, one]

theorem writeElements_mapNote {f : ι → κ} {list : List (Option (Expr ι))}
    (members : ∀ e, some e ∈ list → (e.mapNote f).write = e.write) :
    writeElements (list.map (Option.map (mapNote f))) = writeElements list := by
  induction list with
  | nil => rfl
  | cons entry rest ih =>
    have behind := ih fun e member => members e (List.mem_cons_of_mem _ member)
    cases entry with
    | none => simp only [List.map_cons, Option.map_none, writeElements, behind]
    | some e =>
      simp only [List.map_cons, Option.map_some, writeElements, behind, members e List.mem_cons_self]

theorem write_mapNote (f : ι → κ) (e : Expr ι) : (e.mapNote f).write = e.write := by
  induction e using Expr.induct with
  | name | number | string | boolean | null => rfl
  | array n elements ih =>
    simp only [mapNote, mapNoteElements_eq_map, write, writeElements_mapNote ih]
  | sequence n parts ih =>
    have same : writeList (parts.map (mapNote f)) = writeList parts :=
      writeList_congr (by rw [List.map_map]; exact List.map_congr_left ih)
    simp only [mapNote, mapNoteList_eq_map, write, same]
  | call n callee arguments first ih =>
    have same : writeList (arguments.map (mapNote f)) = writeList arguments :=
      writeList_congr (by rw [List.map_map]; exact List.map_congr_left ih)
    simp only [mapNote, mapNoteList_eq_map, write, same, first]
  | binary n operator left right first second | assignment n operator left right first second =>
    simp only [mapNote, write, first, second]
  | member n left right computed first second =>
    simp only [mapNote, write, first, second, isNumber_mapNote]
  | unary n operator argument ih | update n operator before argument ih =>
    simp only [mapNote, write, ih]
  | conditional n test consequent alternate first second third =>
    simp only [mapNote, write, first, second, third]

theorem write_eq_of_bare {e : Expr ι} {other : Expr κ} (same : e.bare = other.bare) :
    e.write = other.write := by
  rw [← write_mapNote (fun _ => ()) e, ← write_mapNote (fun _ => ()) other]
  exact congrArg write same

theorem writeList_eq_of_bare {list : List (Expr ι)} {others : List (Expr κ)}
    (same : list.map bare = others.map bare) : writeList list = writeList others := by
  refine writeList_congr ?_
  have forget {ν : Type} (list : List (Expr ν)) : list.map write = (list.map bare).map write := by
    rw [List.map_map]
    exact List.map_congr_left fun e _ => (write_mapNote _ e).symm
  rw [forget list, forget others, same]

end Expr

theorem Declarator.text_bare (d : Declarator ι) : d.bare.text = d.text := by
  cases shape : d.value with
  | none => simp only [text, bare, shape, Option.map_none, Expr.textAt, Expr.bare, Expr.write_mapNote]
  | some e =>
    simp only [text, bare, shape, Option.map_some, Expr.textAt, Expr.bare, Expr.write_mapNote]

theorem FunctionHead.text_eq_of_bare {head : FunctionHead ι} {other : FunctionHead κ}
    (same : head.bare = other.bare) : head.text = other.text := by
  obtain ⟨isAsync, isGenerator, name, parameters⟩ := head
  obtain ⟨isAsync', isGenerator', name', parameters'⟩ := other
  simp only [bare, FunctionHead.mk.injEq] at same
  obtain ⟨rfl, rfl, sameName, sameList⟩ := same
  simp only [text, Expr.textAt, Expr.write_eq_of_bare sameName, Expr.writeList_eq_of_bare sameList]

def Lines.between (pair : Lines × Lines) : Bool := pair.1.apart pair.2

namespace Stmt

open Lines (between)

theorem isEmpty_of_map_bare {list others : List (Stmt Lines)}
    (same : list.map bare = others.map bare) : list.isEmpty = others.isEmpty := by
  have := congrArg List.isEmpty same
  simpa only [List.isEmpty_map] using this

theorem listText_eq {width depth : Nat} {list others : List (Stmt Lines)}
    (members : ∀ s ∈ list, ∀ {other : Stmt Lines}, s.bare = other.bare →
      s.pairs.map between = other.pairs.map between →
      s.text width depth = other.text width depth)
    (same : list.map bare = others.map bare) {previous before : Option Lines}
    (both : previous.isSome = before.isSome)
    (apart : (pairsList previous list).map between = (pairsList before others).map between) :
    listText width depth previous list = listText width depth before others := by
  induction list generalizing others previous before with
  | nil =>
    rw [List.map_nil, eq_comm, List.map_eq_nil_iff] at same
    rw [same, listText, listText]
  | cons s rest ih =>
    obtain ⟨other, more, rfl, one, all⟩ := List.map_eq_cons_iff.1 same.symm
    simp only [pairsList, List.map_append] at apart
    have lengths : previous.toList.length = before.toList.length := by
      cases previous <;> cases before <;> simp_all
    obtain ⟨gap, apart⟩ := List.append_inj apart (by simpa using lengths)
    obtain ⟨inside, behind⟩ :=
      List.append_inj apart (by simpa using length_pairs_of_bare one.symm)
    have text := members s List.mem_cons_self one.symm inside
    have next : (some s.note).isSome = (some other.note).isSome := rfl
    have others := ih (fun s member => members s (List.mem_cons_of_mem _ member)) all.symm next behind
    simp only [listText, text, others]
    cases previous with
    | none =>
      cases before with
      | none => rfl
      | some lines => simp at both
    | some lines =>
      cases before with
      | none => simp at both
      | some last =>
        have same : lines.apart s.note = last.apart other.note := by simpa [between] using gap
        simp only [same]

/-- The text is settled by the statement without its notes and by which neighbours stand apart. -/
theorem text_eq_of_bare {s other : Stmt Lines} {width depth : Nat} (same : s.bare = other.bare)
    (apart : s.pairs.map between = other.pairs.map between) :
    s.text width depth = other.text width depth := by
  induction s using Stmt.induct generalizing other depth with
  | declaration n kind list =>
    cases other with
    | declaration m kind' others =>
      simp only [bare_declaration, declaration.injEq, true_and] at same
      obtain ⟨rfl, sames⟩ := same
      have parts : list.map Declarator.text = others.map Declarator.text := by
        have forget (list : List (Declarator Lines)) :
            list.map Declarator.text = (list.map Declarator.bare).map Declarator.text := by
          rw [List.map_map]
          exact List.map_congr_left fun d _ => d.text_bare.symm
        rw [forget list, forget others, sames]
      rw [text, text, parts]
    | _ => simp at same
  | function n head block body ih =>
    cases other with
    | function m head' block' others =>
      simp only [bare_function, function.injEq, true_and] at same
      have inner : listText width (depth + 1) none body = listText width (depth + 1) none others :=
        listText_eq (fun s member {_} => ih s member) same.2 rfl apart
      rw [text, text, FunctionHead.text_eq_of_bare same.1, isEmpty_of_map_bare same.2, inner]
    | _ => simp at same
  | block n body ih =>
    cases other with
    | block m others =>
      simp only [bare_block, block.injEq, true_and] at same
      have inner : listText width (depth + 1) none body = listText width (depth + 1) none others :=
        listText_eq (fun s member {_} => ih s member) same rfl apart
      rw [text, text, isEmpty_of_map_bare same, inner]
    | _ => simp at same
  | ret n argument =>
    cases other with
    | ret m argument' =>
      simp only [bare_ret, ret.injEq, true_and] at same
      cases argument with
      | none =>
        obtain rfl : argument' = none := by simpa [eq_comm] using same
        rfl
      | some e =>
        obtain ⟨e', rfl, one⟩ := Option.map_eq_some_iff.1 same.symm
        rw [text, text, Expr.textAt, Expr.textAt, Expr.write_eq_of_bare one]
    | _ => simp at same
  | expression n e =>
    cases other with
    | expression m e' =>
      simp only [bare_expression, expression.injEq, true_and] at same
      rw [text, text, Expr.textAt, Expr.textAt, Expr.write_eq_of_bare same]
    | _ => simp at same
  | branch n test consequent alternate first second =>
    cases other with
    | branch m test' consequent' alternate' =>
      simp only [bare_branch, branch.injEq, true_and] at same
      obtain ⟨sameTest, sameFirst, sameSecond⟩ := same
      simp only [pairs, List.map_append] at apart
      obtain ⟨inside, behind⟩ :=
        List.append_inj apart (by simpa using length_pairs_of_bare sameFirst)
      have otherwise : elseText width depth alternate = elseText width depth alternate' := by
        cases alternate with
        | none =>
          obtain rfl : alternate' = none := by simpa [eq_comm] using sameSecond
          rfl
        | some s =>
          obtain ⟨s', rfl, one⟩ := Option.map_eq_some_iff.1 sameSecond.symm
          rw [elseText, elseText, second s rfl one.symm behind]
      rw [text, text, Expr.textAt, Expr.textAt, Expr.write_eq_of_bare sameTest,
        first sameFirst inside, otherwise]
    | _ => simp at same
  | empty n =>
    cases other with
    | empty m => rfl
    | _ => simp at same

end Stmt

theorem programText_eq {list others : List (Stmt Lines)}
    (same : list.map Stmt.bare = others.map Stmt.bare)
    (apart : (Stmt.pairsList none list).map Lines.between =
      (Stmt.pairsList none others).map Lines.between) (width : Nat) :
    programText width list = programText width others :=
  Stmt.listText_eq (fun _ _ => Stmt.text_eq_of_bare) same rfl apart

end Arborist.Script

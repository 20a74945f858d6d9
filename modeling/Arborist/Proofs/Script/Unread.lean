import Mathlib
import Arborist.Proofs.Node.Target
import Arborist.Proofs.Script.Alike

/-!
Changes to a tree that its text must not show: the order of fields, fields that nobody looks up, and
in a location all but the two lines. Each of them, at any node of the tree, leaves what is alike, so no
number of them changes the text, or the fault that is found first where there is no text.
-/

namespace Arborist

open Script (readNames)

def Fields.entry (key : String) (value : Option Value) : Fields := (value.map (key, ·)).toList

/-- One change somewhere in a value: the fields of an object take another order; a field that is not
looked up comes, goes or takes another value; a location does, and still gives the same lines. -/
inductive Value.Changed : Value → Value → Prop where
  | reorder {fields others : Fields} (keyed : fields.keys.Nodup) (same : fields.Perm others) :
      Changed (.object fields) (.object others)
  | field {front rest : Fields} {key : String} (unread : key ∉ readNames) (other : key ≠ "loc")
      (old new : Option Value) :
      Changed (.object (front ++ Fields.entry key old ++ rest))
        (.object (front ++ Fields.entry key new ++ rest))
  | place {front rest : Fields} {old new : Option Value} (alone : "loc" ∉ (front ++ rest).keys)
      (lines : ∀ edge ∈ ["start", "end"],
        old.bind (Value.line? edge) = new.bind (Value.line? edge)) :
      Changed (.object (front ++ Fields.entry "loc" old ++ rest))
        (.object (front ++ Fields.entry "loc" new ++ rest))
  | inside {front rest : Fields} {key : String} {old new : Value} (other : key ≠ "loc")
      (changed : Changed old new) :
      Changed (.object (front ++ (key, old) :: rest)) (.object (front ++ (key, new) :: rest))
  | item {front rest : List Value} {old new : Value} (changed : Changed old new) :
      Changed (.list (front ++ old :: rest)) (.list (front ++ new :: rest))

/-- The fields that say where a node stands or that only a parser needs may change. -/
example : ∀ key ∈ ["start", "end", "sourceType", "interpreter", "directives", "comments",
    "parenthesized", "parenStart"], key ∉ readNames ∧ key ≠ "loc" := by decide

namespace Fields

theorem get?_entry (key name : String) (value : Option Value) :
    (entry key value).get? name = if key = name then value else none := by
  cases value with
  | none => simp [entry]
  | some v => simp [entry, get?_cons]

theorem get?_perm {fields others : Fields} (keyed : fields.keys.Nodup) (same : fields.Perm others)
    (key : String) : fields.get? key = others.get? key := by
  have again : others.keys.Nodup := (same.map Prod.fst).nodup_iff.1 keyed
  apply Option.ext
  intro value
  constructor
  · intro found
    exact get?_of_mem again (same.mem_iff.1 (mem_of_get? found))
  · intro found
    exact get?_of_mem keyed (same.mem_iff.2 (mem_of_get? found))

theorem alike_of_get? {fields others : Fields}
    (same : ∀ key ∈ readNames, fields.get? key = others.get? key)
    (lines : ∀ edge ∈ ["start", "end"],
      (fields.get? "loc").bind (Value.line? edge) = (others.get? "loc").bind (Value.line? edge)) :
    fields.Alike others := by
  refine .object (fun key read => by rw [same key read]) (fun key read value held other found => ?_)
    lines
  rw [same key read, Option.mem_def] at held
  obtain rfl := Option.some.inj (held.symm.trans found)
  exact .same value

end Fields

section Changes

variable {front rest : Fields} {key : String}

theorem get?_past_entry {name : String} (apart : name ≠ key) (value : Option Value) :
    Fields.get? (front ++ Fields.entry key value ++ rest) name =
      Fields.get? (front ++ rest) name := by
  rw [Fields.get?_append, Fields.get?_append, Fields.get?_entry, if_neg apart.symm,
    Option.or_none, Fields.get?_append]

theorem get?_lone_entry (alone : key ∉ (front ++ rest).keys) (value : Option Value) :
    Fields.get? (front ++ Fields.entry key value ++ rest) key = value := by
  have absent : ∀ part : Fields, part ⊆ front ++ rest → part.get? key = none := by
    intro part inside
    refine Fields.get?_eq_none fun entry member same => alone ?_
    exact same ▸ List.mem_map_of_mem (inside member)
  rw [Fields.get?_append, Fields.get?_append, Fields.get?_entry, if_pos rfl,
    absent front (by simp), absent rest (by simp), Option.none_or, Option.or_none]

theorem alike_inside {old new : Value} (other : key ≠ "loc") (alike : old.Alike new) :
    Fields.Alike (front ++ (key, old) :: rest) (front ++ (key, new) :: rest) := by
  have found : ∀ (value : Value) (name : String),
      Fields.get? (front ++ (key, value) :: rest) name =
        (front.get? name).or (if key = name then some value else rest.get? name) := by
    intro value name
    rw [Fields.get?_append, Fields.get?_cons]
  refine .object (fun name _ => ?_) (fun name _ value held twin stands => ?_) fun edge _ => ?_
  · rw [found, found]
    cases front.get? name with
    | some => rfl
    | none => split <;> rfl
  · rw [found] at held stands
    cases before : front.get? name with
    | some first =>
      rw [before, Option.some_or, Option.mem_some_iff] at held stands
      exact held ▸ stands ▸ .same first
    | none =>
      rw [before, Option.none_or] at held stands
      split at held
      · rename_i same
        rw [if_pos same, Option.mem_some_iff] at stands
        rw [Option.mem_some_iff] at held
        exact held ▸ stands ▸ alike
      · rename_i apart
        rw [if_neg apart] at stands
        obtain rfl := Option.some.inj (held.symm.trans stands)
        exact .same value
  · rw [found, found, if_neg other, if_neg other]

end Changes

theorem Value.Changed.alike {value other : Value} (changed : value.Changed other) :
    value.Alike other := by
  induction changed with
  | reorder keyed same =>
    exact Fields.alike_of_get? (fun key _ => Fields.get?_perm keyed same key)
      fun edge _ => by rw [Fields.get?_perm keyed same]
  | @field front rest key unread other old new =>
    refine Fields.alike_of_get? (fun name read => ?_) fun edge _ => ?_
    · have apart : name ≠ key := fun same => unread (same ▸ read)
      rw [get?_past_entry apart, get?_past_entry apart]
    · rw [get?_past_entry other.symm, get?_past_entry other.symm]
  | @place front rest old new alone lines =>
    refine Fields.alike_of_get? (fun name read => ?_) fun edge known => ?_
    · have apart : name ≠ "loc" := by
        rintro rfl
        exact absurd read (by decide)
      rw [get?_past_entry apart, get?_past_entry apart]
    · rw [get?_lone_entry alone, get?_lone_entry alone]
      exact lines edge known
  | inside other _ ih => exact alike_inside other ih
  | @item front rest old new _ ih =>
    refine .list (by simp) fun pair member => ?_
    rw [List.zip_append rfl, List.mem_append, List.zip_cons_cons, List.mem_cons] at member
    have same : ∀ list : List Value, ∀ pair ∈ list.zip list, pair.1.Alike pair.2 := by
      intro list pair member
      have equal : pair.1 = pair.2 := by
        induction list with
        | nil => simp at member
        | cons value rest ih =>
          rw [List.zip_cons_cons, List.mem_cons] at member
          rcases member with rfl | member
          · rfl
          · exact ih member
      exact equal ▸ .same pair.1
    rcases member with before | rfl | behind
    · exact same front pair before
    · exact ih
    · exact same rest pair behind

/-- The text of a tree, or the fault for which it has none, depends only on what is looked up. Trees
that differ by any number of changes of order, of fields that are not looked up, and of locations
apart from their lines, at any of their nodes, are compiled to the same. -/
theorem Script.compile_of_changes (width : Nat) {tree other : Fields}
    (changes : Relation.ReflTransGen (fun a b : Fields => Value.Changed (.object a) (.object b))
      tree other) : compile width tree = compile width other := by
  induction changes with
  | refl => rfl
  | tail _ changed ih => exact ih.trans (compile_of_alike width changed.alike)

/-- A program of one statement that is missing its expression: its offset goes, the fields of the
whole take another order, and the statement moves to another column of its line. The fault stays. -/
theorem Script.compile_of_changes_fault :
    let spot (column : Nat) : Value :=
      .object [("start", .object [("line", .number (.ofNat 1)), ("column", .number (.ofNat column))])]
    let lone (column : Nat) : Value :=
      .list [.object [("type", .string "ExpressionStatement"), ("loc", spot column)]]
    compile 80 [("start", .null), ("type", .string "Program"), ("body", lone 0)] =
      compile 80 [("body", lone 4), ("type", .string "Program")] := by
  intro spot lone
  refine compile_of_changes 80 ?_
  have first : Value.Changed
      (.object [("start", .null), ("type", .string "Program"), ("body", lone 0)])
      (.object [("type", .string "Program"), ("body", lone 0)]) :=
    @Value.Changed.field [] [("type", .string "Program"), ("body", lone 0)] "start" (by decide)
      (by decide) (some .null) none
  have second : Value.Changed (.object [("type", .string "Program"), ("body", lone 0)])
      (.object [("body", lone 0), ("type", .string "Program")]) :=
    .reorder (by decide) (.swap _ _ _)
  have third : Value.Changed (.object [("body", lone 0), ("type", .string "Program")])
      (.object [("body", lone 4), ("type", .string "Program")]) :=
    @Value.Changed.inside [] _ "body" _ _ (by decide) (@Value.Changed.item [] [] _ _
      (@Value.Changed.place [("type", .string "ExpressionStatement")] [] (some (spot 0))
        (some (spot 4)) (by decide) (by decide)))
  exact .tail (.tail (.tail .refl first) second) third

end Arborist

import Mathlib
import Arborist.Proofs.Script.Parts

/-!
What the text of a tree depends on. The decoder looks up fields by their names, and of where a node
stood it takes the lines alone. So trees that agree in the fields it looks up are written alike, or
refused for the same fault, whatever else their nodes hold and in whatever order.
-/

namespace Arborist

def Value.at? (value : Value) : List String → Option Value
  | [] => some value
  | key :: rest =>
    match value with
    | .object fields => (Fields.get? fields key).bind (·.at? rest)
    | _ => none

def Value.line? (edge : String) (location : Value) : Option Number :=
  (location.at? [edge, "line"]).bind Value.asNumber?

namespace Script

/-- The names of all fields that are looked up in a node or in the notes on a literal, the location
apart. -/
def readNames : List String :=
  ["type", "program", "body", "kind", "declarations", "id", "init", "async", "generator", "params",
    "argument", "expression", "test", "consequent", "alternate", "name", "value", "operator", "left",
    "right", "prefix", "expressions", "callee", "arguments", "object", "property", "computed",
    "elements", "extra", "rawValue", "raw"]

end Script

open Script (readNames)

/-- Values that cannot be told apart by the fields that are looked up. -/
inductive Value.Alike : Value → Value → Prop where
  | same (value : Value) : Alike value value
  | list {items others : List Value} (length : items.length = others.length)
      (each : ∀ pair ∈ items.zip others, Alike pair.1 pair.2) : Alike (.list items) (.list others)
  | object {fields others : Fields}
      (present : ∀ key ∈ readNames, (fields.get? key).isSome = (others.get? key).isSome)
      (each : ∀ key ∈ readNames, ∀ value ∈ fields.get? key, ∀ other ∈ others.get? key,
        Alike value other)
      (lines : ∀ edge ∈ ["start", "end"],
        (fields.get? "loc").bind (Value.line? edge) = (others.get? "loc").bind (Value.line? edge)) :
      Alike (.object fields) (.object others)

def Fields.Alike (fields others : Fields) : Prop := Value.Alike (.object fields) (.object others)

namespace Fields.Alike

variable {fields others : Fields} (alike : fields.Alike others)

include alike

theorem get? {key : String} (read : key ∈ readNames) :
    Option.Rel Value.Alike (fields.get? key) (others.get? key) := by
  cases alike with
  | same =>
    cases fields.get? key with
    | none => exact .none
    | some value => exact .some (.same value)
  | object present each lines =>
    have both := present key read
    have held := each key read
    cases first : fields.get? key with
    | none =>
      have second : others.get? key = none := by simpa [first] using both.symm
      rw [second]
      exact .none
    | some value =>
      rw [first] at both
      obtain ⟨other, second⟩ := Option.isSome_iff_exists.1 both.symm
      rw [second]
      exact .some (held value first other second)

theorem lines_eq {edge : String} (known : edge ∈ ["start", "end"]) :
    (fields.get? "loc").bind (Value.line? edge) = (others.get? "loc").bind (Value.line? edge) := by
  cases alike with
  | same => rfl
  | object _ _ lines => exact lines edge known

theorem kind_eq : fields.kind = others.kind := by
  have type := alike.get? (show "type" ∈ readNames by decide)
  unfold kind
  generalize fields.get? "type" = first, others.get? "type" = second at type
  cases type with
  | none => rfl
  | some held => cases held <;> rfl

theorem isNode_eq : fields.isNode = others.isNode := by
  have type := alike.get? (show "type" ∈ readNames by decide)
  unfold isNode contains
  generalize fields.get? "type" = first, others.get? "type" = second at type
  cases type <;> rfl

end Fields.Alike

namespace Value.Alike

variable {value other : Value}

theorem shape_eq (alike : Alike value other) : value.shape = other.shape := by
  cases alike with
  | same => rfl
  | list => rfl
  | object present each lines =>
    have nodes := Fields.Alike.isNode_eq (.object present each lines)
    simp only [shape, nodes]

theorem asNode? (alike : Alike value other) :
    Option.Rel Fields.Alike value.asNode? other.asNode? := by
  cases alike with
  | same =>
    cases value.asNode? with
    | none => exact .none
    | some fields => exact .some (.same _)
  | list => exact .none
  | object present each lines =>
    have both : Fields.Alike _ _ := .object present each lines
    simp only [Value.asNode?, both.isNode_eq]
    split
    · exact .some both
    · exact .none

theorem asList? (alike : Alike value other) :
    Option.Rel (List.Forall₂ Alike) value.asList? other.asList? := by
  cases alike with
  | same =>
    cases value.asList? with
    | none => exact .none
    | some items => exact .some (List.forall₂_same.2 fun item _ => .same item)
  | list length each =>
    exact .some (List.forall₂_iff_zip.2 ⟨length, fun {a b} member => each _ member⟩)
  | object => exact .none

end Value.Alike

inductive Matched {ε α β : Type} (related : α → β → Prop) : Except ε α → Except ε β → Prop where
  | error (fault : ε) : Matched related (.error fault) (.error fault)
  | ok {a : α} {b : β} (both : related a b) : Matched related (.ok a) (.ok b)

namespace Matched

variable {ε α β γ δ : Type} {related : α → β → Prop} {x : Except ε α} {y : Except ε β}

theorem bind (matched : Matched related x y) {f : α → Except ε γ} {g : β → Except ε γ}
    (next : ∀ a b, related a b → f a = g b) : (x >>= f) = (y >>= g) := by
  cases matched with
  | error => rfl
  | ok both => exact next _ _ both

theorem of_map {other : γ → δ → Prop} {f : α → γ} {g : β → δ}
    (matched : Matched other (x.map f) (y.map g)) :
    Matched (fun a b => other (f a) (g b)) x y := by
  cases x <;> cases y <;> cases matched
  · exact .error _
  · exact .ok ‹_›

theorem mapM_eq {list : List α} {others : List β} (all : List.Forall₂ related list others)
    {f : α → Except ε γ} {g : β → Except ε γ} (next : ∀ a b, related a b → f a = g b) :
    list.mapM f = others.mapM g := by
  induction all with
  | nil => rfl
  | cons one _ ih => rw [List.mapM_cons, List.mapM_cons, next _ _ one, ih]

theorem mapM {result : γ → δ → Prop} {list : List α} {others : List β}
    (all : List.Forall₂ related list others) {f : α → Except ε γ} {g : β → Except ε δ}
    (next : ∀ a b, related a b → Matched result (f a) (g b)) :
    Matched (List.Forall₂ result) (list.mapM f) (others.mapM g) := by
  induction all with
  | nil => exact .ok .nil
  | @cons a b rest more one _ ih =>
    rw [List.mapM_cons, List.mapM_cons]
    have first := next a b one
    generalize f a = u, g b = v at first
    cases first with
    | error fault => exact .error fault
    | ok both =>
      generalize rest.mapM f = us, more.mapM g = vs at ih
      cases ih with
      | error fault => exact .error fault
      | ok all => exact .ok (.cons both all)

end Matched

theorem map_mapM_attach {ε α β γ : Type} (list : List α) {f : { a // a ∈ list } → Except ε β}
    {g : α → Except ε γ} {h : β → γ} (same : ∀ a, (f a).map h = g a.1) :
    (list.attach.mapM f).map (List.map h) = list.mapM g := by
  have general : ∀ inner : List { a // a ∈ list },
      (inner.mapM f).map (List.map h) = (inner.map Subtype.val).mapM g := by
    intro inner
    induction inner with
    | nil => rfl
    | cons a rest ih =>
      rw [List.mapM_cons, List.map_cons, List.mapM_cons, ← same a, ← ih]
      cases f a with
      | error => rfl
      | ok => cases rest.mapM f <;> rfl
  rw [general, List.attach_map_subtype_val]

namespace Script.Decode

section Fields

variable (node : Fields) (field : String)

def nodeIn (wanted : Wanted) (value : Value) : Except CompileError Fields :=
  match value.asNode? with
  | none => .error (invalid node field wanted value)
  | some inner => .ok inner

theorem map_child : (child node field).map Subtype.val =
    match node.get? field with
    | none | some .null => .error (missing node field)
    | some value => nodeIn node field .node value := by
  unfold child
  split
  · rename_i held
    rw [held]
    rfl
  · rename_i held
    rw [held]
    rfl
  · rename_i value other held
    simp only [held, nodeIn]
    split <;> (rename_i asNode; simp only [asNode]; rfl)

theorem map_children : (children node field).map (List.map Subtype.val) =
    match node.get? field with
    | none => .error (missing node field)
    | some value =>
      match value.asList? with
      | none => .error (invalid node field .nodes value)
      | some items => items.mapM (nodeIn node field .nodes) := by
  unfold children
  split
  · rename_i held
    rw [held]
    rfl
  · rename_i value held
    simp only [held]
    split
    · rename_i asList
      rw [asList]
      rfl
    · rename_i items asList
      simp only [asList]
      apply map_mapM_attach
      rintro ⟨item, member⟩
      dsimp only [nodeIn]
      split <;> (rename_i asNode; simp only [asNode]; rfl)

theorem map_itemsField : (itemsField node field).map (List.map Subtype.val) =
    match node.get? field with
    | none => .error (missing node field)
    | some value =>
      match value.asList? with
      | none => .error (invalid node field .list value)
      | some items => .ok items := by
  unfold itemsField
  split
  · rename_i held
    rw [held]
    rfl
  · rename_i value held
    simp only [held]
    split
    · rename_i asList
      rw [asList]
      rfl
    · rename_i items asList
      simp [asList, Except.map, List.map_map, Function.comp_def]

end Fields

section Readers

variable {fields others : Fields} (alike : fields.Alike others) {field : String}

include alike

theorem missing_eq (field : String) : missing fields field = missing others field := by
  rw [missing, missing, alike.kind_eq]

theorem invalid_eq (field : String) (wanted : Wanted) {value other : Value}
    (held : value.Alike other) :
    invalid fields field wanted value = invalid others field wanted other := by
  rw [invalid, invalid, alike.kind_eq, held.shape_eq]

theorem nodeIn_matched (field : String) (wanted : Wanted) {value other : Value}
    (held : value.Alike other) :
    Matched Fields.Alike (nodeIn fields field wanted value) (nodeIn others field wanted other) := by
  have nodes := held.asNode?
  unfold nodeIn
  rw [invalid_eq alike field wanted held]
  generalize value.asNode? = first, other.asNode? = second at nodes
  cases nodes with
  | none => exact .error _
  | some both => exact .ok both

variable (read : field ∈ readNames)

include read

theorem required_matched :
    Matched Value.Alike (required fields field) (required others field) := by
  have both := alike.get? read
  unfold required
  rw [missing_eq alike]
  generalize fields.get? field = first, others.get? field = second at both
  cases both with
  | none => exact .error _
  | some held => exact .ok held

theorem stringField_eq : stringField fields field = stringField others field := by
  have both := alike.get? read
  unfold stringField
  rw [missing_eq alike]
  generalize fields.get? field = first, others.get? field = second at both
  cases both with
  | none => rfl
  | @some value other held =>
    have fault := invalid_eq alike field .string held
    cases held with
    | same => cases value <;> simp_all
    | list | object => exact congrArg Except.error fault

theorem flagField_eq : flagField fields field = flagField others field := by
  have both := alike.get? read
  unfold flagField
  generalize fields.get? field = first, others.get? field = second at both
  cases both with
  | none => rfl
  | @some value other held =>
    have fault := invalid_eq alike field .boolean held
    cases held with
    | same => cases value <;> simp_all
    | list | object => exact congrArg Except.error fault

theorem child_matched :
    Matched (fun a b => Fields.Alike a.1 b.1) (child fields field) (child others field) := by
  apply Matched.of_map
  have both := alike.get? read
  rw [map_child, map_child, missing_eq alike]
  generalize fields.get? field = first, others.get? field = second at both
  cases both with
  | none => exact .error _
  | @some value other held =>
    have node := nodeIn_matched alike field .node held
    cases held with
    | same =>
      cases value with
      | null => exact .error _
      | _ => exact node
    | list | object => exact node

theorem optionalChild_matched :
    Matched (Option.Rel fun a b => Fields.Alike a.1 b.1) (optionalChild fields field)
      (optionalChild others field) := by
  have both := alike.get? read
  have one := child_matched alike read
  unfold optionalChild
  generalize fields.get? field = first, others.get? field = second at both
  have node : Matched (Option.Rel fun a b => Fields.Alike a.1 b.1)
      ((child fields field).map some) ((child others field).map some) := by
    generalize child fields field = x, child others field = y at one
    cases one with
    | error fault => exact .error fault
    | ok inner => exact .ok (.some inner)
  cases both with
  | none => exact .ok .none
  | @some value other held =>
    cases held with
    | same =>
      cases value with
      | null => exact .ok .none
      | _ => exact node
    | list | object => exact node

theorem children_matched : Matched (List.Forall₂ fun a b => Fields.Alike a.1 b.1)
    (children fields field) (children others field) := by
  suffices Matched (List.Forall₂ Fields.Alike) ((children fields field).map (List.map Subtype.val))
      ((children others field).map (List.map Subtype.val)) by
    simpa only [List.forall₂_map_left_iff, List.forall₂_map_right_iff] using this.of_map
  have both := alike.get? read
  rw [map_children, map_children, missing_eq alike]
  generalize fields.get? field = first, others.get? field = second at both
  cases both with
  | none => exact .error _
  | @some value other held =>
    have lists := held.asList?
    dsimp only
    rw [invalid_eq alike field .nodes held]
    generalize value.asList? = first, other.asList? = second at lists
    cases lists with
    | none => exact .error _
    | some all => exact .mapM all fun a b inner => nodeIn_matched alike field .nodes inner

theorem itemsField_matched : Matched (List.Forall₂ fun a b => Value.Alike a.1 b.1)
    (itemsField fields field) (itemsField others field) := by
  suffices Matched (List.Forall₂ Value.Alike) ((itemsField fields field).map (List.map Subtype.val))
      ((itemsField others field).map (List.map Subtype.val)) by
    simpa only [List.forall₂_map_left_iff, List.forall₂_map_right_iff] using this.of_map
  have both := alike.get? read
  rw [map_itemsField, map_itemsField, missing_eq alike]
  generalize fields.get? field = first, others.get? field = second at both
  cases both with
  | none => exact .error _
  | @some value other held =>
    have lists := held.asList?
    dsimp only
    rw [invalid_eq alike field .list held]
    generalize value.asList? = first, other.asList? = second at lists
    cases lists with
    | none => exact .error _
    | some all => exact .ok all

omit read

theorem operatorField_eq {α : Type} (ofText? : String → Option α) :
    operatorField fields ofText? = operatorField others ofText? := by
  unfold operatorField
  rw [stringField_eq alike (by decide), alike.kind_eq]

theorem linesOf_eq : linesOf fields = linesOf others := by
  have line : ∀ (node : Fields) (edge : String),
      lineAt node edge = (node.get? "loc").bind (Value.line? edge) := by
    intro node edge
    unfold lineAt
    cases node.get? "loc" with
    | none => rfl
    | some location =>
      cases location with
      | object loc =>
        simp only [Option.bind_some, Value.line?, Value.at?]
        cases Fields.get? loc edge with
        | none => rfl
        | some point => cases point <;> simp
      | _ => rfl
  simp only [linesOf, line, alike.lines_eq (show "start" ∈ ["start", "end"] by decide),
    alike.lines_eq (show "end" ∈ ["start", "end"] by decide)]

theorem spelling?_eq {holds : Value → Bool}
    (scalar : ∀ value other : Value, value.Alike other → holds value = holds other) :
    spelling? fields holds = spelling? others holds := by
  have both := alike.get? (show "extra" ∈ readNames by decide)
  unfold spelling?
  generalize fields.get? "extra" = first, others.get? "extra" = second at both
  cases both with
  | none => rfl
  | some held =>
    cases held with
    | same | list => rfl
    | @object extra extras present each lines =>
      have inner : Fields.Alike extra extras := .object present each lines
      have values := inner.get? (show "rawValue" ∈ readNames by decide)
      have raw := inner.get? (show "raw" ∈ readNames by decide)
      dsimp only
      generalize Fields.get? extra "rawValue" = first, Fields.get? extras "rawValue" = second at values
      generalize Fields.get? extra "raw" = third, Fields.get? extras "raw" = fourth at raw
      have text : third.bind Value.asString? = fourth.bind Value.asString? := by
        cases raw with
        | none => rfl
        | some held => cases held <;> rfl
      cases values with
      | none => rfl
      | some held => simp only [scalar _ _ held, text]

theorem numberSpelling?_eq (n : Number) : numberSpelling? fields n = numberSpelling? others n :=
  spelling?_eq alike fun _ _ held => by cases held <;> rfl

theorem stringSpelling?_eq (s : String) : stringSpelling? fields s = stringSpelling? others s :=
  spelling?_eq alike fun _ _ held => by cases held <;> rfl

end Readers

section Runs

variable {fields others : Fields} (alike : fields.Alike others) {field : String}
  (named : field ∈ readNames) {α β : Type} {read : Fields → Except CompileError α}
  (same : ∀ (inner : Inner fields) (other : Fields), Fields.Alike inner.1 other →
    read inner.1 = read other)

include alike named same

theorem child_read {next after : α → Except CompileError β} (onward : ∀ tree, next tree = after tree) :
    (child fields field >>= fun inner => read inner.1 >>= next) =
      (child others field >>= fun inner => read inner.1 >>= after) := by
  refine (child_matched alike named).bind fun a b both => ?_
  rw [same a b both]
  exact bind_congr onward

theorem children_read {next after : List α → Except CompileError β}
    (onward : ∀ trees, next trees = after trees) :
    (children fields field >>= fun list => list.mapM (fun inner => read inner.1) >>= next) =
      (children others field >>= fun list => list.mapM (fun inner => read inner.1) >>= after) := by
  refine (children_matched alike named).bind fun list twins all => ?_
  rw [Matched.mapM_eq all fun a b both => same a b.1 both]
  exact bind_congr onward

end Runs

theorem innerOf_rel {fields others : Fields} {first : { item : Value // sizeOf item < sizeOf fields }}
    {second : { item : Value // sizeOf item < sizeOf others }} (held : first.1.Alike second.1) :
    Option.Rel (fun a b => Fields.Alike a.1 b.1) (innerOf first) (innerOf second) := by
  have value : ∀ {node : Fields} (item : { item : Value // sizeOf item < sizeOf node }),
      (innerOf item).map Subtype.val = item.1.asNode? := by
    intro node item
    unfold innerOf
    split <;> (rename_i asNode; simp only [asNode]; rfl)
  have nodes := held.asNode?
  rw [← value first, ← value second] at nodes
  generalize innerOf first = a, innerOf second = b at nodes
  cases a <;> cases b <;> cases nodes
  · exact .none
  · exact .some ‹_›

theorem element_eq {fields others : Fields} (alike : fields.Alike others)
    (same : ∀ (inner : Inner fields) (other : Fields), Fields.Alike inner.1 other →
      expression inner.1 = expression other)
    {item : { item : Value // sizeOf item < sizeOf fields }}
    {twin : { item : Value // sizeOf item < sizeOf others }} (held : item.1.Alike twin.1) :
    (match item.1 with
      | .null => pure none
      | other =>
        match innerOf item with
        | some inner => some <$> expression inner.1
        | none => throw (invalid fields "elements" .nodes other)) =
    (match twin.1 with
      | .null => pure none
      | other =>
        match innerOf twin with
        | some inner => some <$> expression inner.1
        | none => throw (invalid others "elements" .nodes other) :
        Except CompileError (Option (Expr Lines))) := by
  obtain ⟨value, less⟩ := item
  obtain ⟨other, fewer⟩ := twin
  have fault := invalid_eq alike "elements" .nodes held
  have nodes := @innerOf_rel _ _ ⟨value, less⟩ ⟨other, fewer⟩ held
  have inner : (match innerOf ⟨value, less⟩ with
      | some inner => some <$> expression inner.1
      | none => throw (invalid fields "elements" .nodes value)) =
      (match innerOf ⟨other, fewer⟩ with
      | some inner => some <$> expression inner.1
      | none => throw (invalid others "elements" .nodes other) :
        Except CompileError (Option (Expr Lines))) := by
    rw [fault]
    generalize innerOf ⟨value, less⟩ = first, innerOf ⟨other, fewer⟩ = second at nodes
    cases nodes with
    | none => rfl
    | some both => simp only [same _ _ both]
  cases held with
  | same =>
    cases value with
    | null => rfl
    | _ => exact inner
  | list | object => exact inner

theorem expression_eq (fields others : Fields) (alike : fields.Alike others) :
    expression fields = expression others := by
  have ih : ∀ (inner : Inner fields) (other : Fields), Fields.Alike inner.1 other →
      expression inner.1 = expression other := fun inner other both =>
    expression_eq inner.1 other both
  rw [expression.eq_def fields, expression.eq_def others, linesOf_eq alike, alike.kind_eq]
  generalize kind : others.kind = name
  split
  case h_1 => rw [stringField_eq alike (by decide)]
  case h_2 =>
    refine (required_matched alike (by decide)).bind fun value other held => ?_
    have fault := invalid_eq alike "value" .number held
    cases held with
    | same => cases value <;> simp only [fault, numberSpelling?_eq alike]
    | list | object => simp only [fault]
  case h_3 =>
    refine (required_matched alike (by decide)).bind fun value other held => ?_
    have fault := invalid_eq alike "value" .string held
    cases held with
    | same => cases value <;> simp only [fault, stringSpelling?_eq alike]
    | list | object => simp only [fault]
  case h_4 =>
    refine (required_matched alike (by decide)).bind fun value other held => ?_
    have fault := invalid_eq alike "value" .boolean held
    cases held with
    | same => cases value <;> simp only [fault]
    | list | object => simp only [fault]
  case h_5 => rfl
  case h_6 | h_7 | h_10 =>
    rw [operatorField_eq alike]
    refine bind_congr fun operator => ?_
    refine child_read alike (by decide) ih fun left => ?_
    exact child_read alike (by decide) ih fun right => rfl
  case h_8 =>
    rw [operatorField_eq alike]
    refine bind_congr fun operator => ?_
    exact child_read alike (by decide) ih fun argument => rfl
  case h_9 =>
    rw [operatorField_eq alike]
    refine bind_congr fun operator => ?_
    refine child_read alike (by decide) ih fun argument => ?_
    rw [flagField_eq alike (by decide)]
  case h_11 =>
    refine child_read alike (by decide) ih fun test => ?_
    refine child_read alike (by decide) ih fun consequent => ?_
    exact child_read alike (by decide) ih fun alternate => rfl
  case h_12 => exact children_read alike (by decide) ih fun parts => rfl
  case h_13 =>
    refine child_read alike (by decide) ih fun callee => ?_
    exact children_read alike (by decide) ih fun arguments => rfl
  case h_14 =>
    refine child_read alike (by decide) ih fun object => ?_
    refine (child_matched alike (by decide)).bind fun a b both => ?_
    rw [flagField_eq alike (by decide), ih a b both]
  case h_15 =>
    refine (itemsField_matched alike (by decide)).bind fun items twins all => ?_
    refine congrArg (· >>= _) (Matched.mapM_eq all fun a b held => ?_)
    exact element_eq alike ih held
  case h_16 => rfl
termination_by sizeOf fields
decreasing_by exact inner.2

section Statements

variable {fields others : Fields} (alike : fields.Alike others)

include alike

theorem declarator_eq : declarator fields = declarator others := by
  have expressions : ∀ (inner : Inner fields) (other : Fields), Fields.Alike inner.1 other →
      expression inner.1 = expression other := fun inner => expression_eq inner.1
  unfold declarator
  rw [alike.kind_eq, linesOf_eq alike]
  split
  · refine child_read alike (by decide) expressions fun target => ?_
    refine (optionalChild_matched alike (by decide)).bind fun first second both => ?_
    cases both with
    | none => rfl
    | some both => simp only [expressions _ _ both]
  · rfl

theorem declaration_eq : declaration fields = declaration others := by
  unfold declaration
  rw [stringField_eq alike (by decide), alike.kind_eq, linesOf_eq alike]
  refine bind_congr fun text => ?_
  split
  · rfl
  · refine (children_matched alike (by decide)).bind fun list twins all => ?_
    have empty : list.isEmpty = twins.isEmpty := by cases all <;> rfl
    rw [empty, missing_eq alike, Matched.mapM_eq all fun a b both => declarator_eq both]

theorem functionHead_eq : functionHead fields = functionHead others := by
  have expressions : ∀ (inner : Inner fields) (other : Fields), Fields.Alike inner.1 other →
      expression inner.1 = expression other := fun inner => expression_eq inner.1
  unfold functionHead
  rw [flagField_eq alike (show "async" ∈ readNames by decide),
    flagField_eq alike (show "generator" ∈ readNames by decide)]
  refine bind_congr fun isAsync => bind_congr fun isGenerator => ?_
  refine child_read alike (by decide) expressions fun name => ?_
  exact children_read alike (by decide) expressions fun parameters => rfl

theorem blockChildren_matched : Matched (List.Forall₂ fun a b => Fields.Alike a.1 b.1)
    (blockChildren fields) (blockChildren others) := by
  unfold blockChildren
  rw [alike.kind_eq, invalid_eq alike "body" .block alike]
  split
  · exact children_matched alike (by decide)
  · exact .error _

end Statements

theorem statement_eq (fields others : Fields) (alike : fields.Alike others) :
    statement fields = statement others := by
  have ih : ∀ inner : Fields, sizeOf inner < sizeOf fields → ∀ other : Fields, inner.Alike other →
      statement inner = statement other := fun inner less other both =>
    statement_eq inner other both
  have expressions : ∀ (inner : Inner fields) (other : Fields), Fields.Alike inner.1 other →
      expression inner.1 = expression other := fun inner => expression_eq inner.1
  rw [statement.eq_def fields, statement.eq_def others, linesOf_eq alike, alike.kind_eq]
  generalize kind : others.kind = name
  split
  case h_1 => exact declaration_eq alike
  case h_2 =>
    rw [functionHead_eq alike]
    refine bind_congr fun head => ?_
    refine (child_matched alike (by decide)).bind fun block other both => ?_
    refine (blockChildren_matched both).bind fun list twins all => ?_
    rw [linesOf_eq both,
      Matched.mapM_eq all fun a b inner => ih a.1 (Nat.lt_trans a.2 block.2) b.1 inner]
  case h_3 =>
    refine (blockChildren_matched alike).bind fun list twins all => ?_
    rw [Matched.mapM_eq all fun a b inner => ih a.1 a.2 b.1 inner]
  case h_4 =>
    refine (optionalChild_matched alike (by decide)).bind fun first second both => ?_
    cases both with
    | none => rfl
    | some both => simp only [expressions _ _ both]
  case h_5 => exact child_read alike (by decide) expressions fun body => rfl
  case h_6 =>
    refine child_read alike (by decide) expressions fun test => ?_
    refine child_read alike (by decide) (fun inner => ih inner.1 inner.2) fun consequent => ?_
    refine (optionalChild_matched alike (by decide)).bind fun first second both => ?_
    cases both with
    | none => rfl
    | @some a b both => simp only [ih a.1 a.2 b.1 both]
  case h_7 => rfl
  case h_8 => rfl
termination_by sizeOf fields
decreasing_by exact less

theorem body_eq {fields others : Fields} (alike : fields.Alike others) :
    body fields = body others := by
  unfold body
  refine (children_matched alike (by decide)).bind fun list twins all => ?_
  exact Matched.mapM_eq all fun a b both => statement_eq a.1 b.1 both

theorem root_eq {fields others : Fields} (alike : fields.Alike others) :
    root fields = root others := by
  unfold root
  rw [alike.kind_eq]
  generalize others.kind = name
  split
  case h_1 => exact (child_matched alike (by decide)).bind fun a b both => body_eq both
  case h_2 => exact body_eq alike
  case h_3 => rw [statement_eq fields others alike]

end Script.Decode

theorem Script.compile_of_alike (width : Nat) {fields others : Fields} (alike : fields.Alike others) :
    compile width fields = compile width others := by
  rw [compile, compile, Decode.root_eq alike]

end Arborist

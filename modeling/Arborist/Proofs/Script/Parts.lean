import Mathlib
import Arborist.Proofs.Script.Fields

/-!
What a node holds that was read. Each reader of a field succeeds on some values only, so a statement
that was read tells what its fields hold, kind by kind; and a statement is read the same from any node
that holds the same in these fields.
-/

namespace Arborist

theorem Except.bind_eq_ok {α β ε : Type} {x : Except ε α} {f : α → Except ε β} {b : β} :
    (x >>= f) = .ok b ↔ ∃ a, x = .ok a ∧ f a = .ok b := by
  cases x <;> simp [bind, Except.bind]

theorem Except.map_eq_ok {α β ε : Type} {x : Except ε α} {f : α → β} {b : β} :
    x.map f = .ok b ↔ ∃ a, x = .ok a ∧ f a = b := by
  cases x <;> simp [Except.map]

theorem forall₂_of_mapM {α β ε : Type} {f : α → Except ε β} {list : List α} {results : List β}
    (run : list.mapM f = .ok results) : List.Forall₂ (fun a b => f a = .ok b) list results := by
  induction list generalizing results with
  | nil =>
    cases run
    exact .nil
  | cons a rest ih =>
    rw [List.mapM_cons, Except.bind_eq_ok] at run
    obtain ⟨b, first, run⟩ := run
    obtain ⟨others, more, same⟩ := Except.bind_eq_ok.1 run
    cases same
    exact .cons first (ih more)

theorem mapM_split {α β ε : Type} {f : α → Except ε β} {front rest : List α} {a : α}
    {results : List β} : (front ++ a :: rest).mapM f = .ok results ↔
      ∃ before b behind, front.mapM f = .ok before ∧ f a = .ok b ∧ rest.mapM f = .ok behind ∧
        results = before ++ b :: behind := by
  rw [List.mapM_append, List.mapM_cons]
  constructor
  · intro run
    obtain ⟨before, runs, run⟩ := Except.bind_eq_ok.1 run
    obtain ⟨more, run, same⟩ := Except.bind_eq_ok.1 run
    obtain ⟨b, one, run⟩ := Except.bind_eq_ok.1 run
    obtain ⟨behind, others, run⟩ := Except.bind_eq_ok.1 run
    cases run
    cases same
    exact ⟨before, b, behind, runs, one, others, rfl⟩
  · rintro ⟨before, b, behind, runs, one, others, rfl⟩
    rw [runs, one, others]
    rfl

namespace Script.Decode

variable {node inner : Fields} {field : String} {α : Type} {read : Fields → Except CompileError α}

def ReadsChild (read : Fields → Except CompileError α) (node : Fields) (field : String)
    (tree : α) : Prop :=
  ∃ inner, node.get? field = some (.object inner) ∧ Fields.isNode inner = true ∧ read inner = .ok tree

def ReadsOptional (read : Fields → Except CompileError α) (node : Fields) (field : String) :
    Option α → Prop
  | none => node.get? field = none ∨ node.get? field = some .null
  | some tree => ReadsChild read node field tree

def ReadsChildren (read : Fields → Except CompileError α) (node : Fields) (field : String)
    (trees : List α) : Prop :=
  ∃ inners : List Fields, node.get? field = some (.list (inners.map .object)) ∧
    (∀ inner ∈ inners, Fields.isNode inner = true) ∧ inners.mapM read = .ok trees

theorem held_of_child {found : Inner node} (run : child node field = .ok found) :
    node.get? field = some (.object found.1) ∧ Fields.isNode found.1 = true := by
  unfold child at run
  split at run
  · cases run
  · cases run
  · rename_i value _ held
    split at run
    · cases run
    · rename_i inner there
      cases run
      obtain ⟨rfl, isNode⟩ := Value.eq_object_of_asNode? there
      exact ⟨held, isNode⟩

theorem held_of_optionalChild {found : Option (Inner node)}
    (run : optionalChild node field = .ok found) :
    (found = none ∧ (node.get? field = none ∨ node.get? field = some .null)) ∨
      ∃ inner, found = some inner ∧ node.get? field = some (.object inner.1) ∧
        Fields.isNode inner.1 = true := by
  unfold optionalChild at run
  split at run
  · rename_i missing
    cases run
    exact .inl ⟨rfl, .inl missing⟩
  · rename_i null
    cases run
    exact .inl ⟨rfl, .inr null⟩
  · obtain ⟨inner, one, rfl⟩ := Except.map_eq_ok.1 run
    exact .inr ⟨inner, rfl, held_of_child one⟩

theorem held_of_children {found : List (Inner node)} (run : children node field = .ok found) :
    node.get? field = some (.list ((found.map Subtype.val).map .object)) ∧
      ∀ inner ∈ found.map Subtype.val, Fields.isNode inner = true := by
  unfold children at run
  split at run
  · cases run
  · rename_i value held
    split at run
    · cases run
    · rename_i items list
      have all := forall₂_of_mapM run
      have each : List.Forall₂ (fun (item : { item // item ∈ items }) (inner : Inner node) =>
          item.1 = .object inner.1 ∧ Fields.isNode inner.1 = true) items.attach found := by
        apply all.imp
        intro item inner one
        dsimp only at one
        split at one
        · cases one
        · rename_i there
          cases one
          exact Value.eq_object_of_asNode? there
      obtain rfl : value = .list items := by
        cases value <;> cases list
        rfl
      have same : items.attach.map Subtype.val = found.map fun inner => Value.object inner.1 :=
        map_eq_of_forall₂ (each.imp fun _ _ one => one.1)
      rw [List.attach_map_subtype_val] at same
      constructor
      · rw [held, same, List.map_map]
        rfl
      · intro inner member
        obtain ⟨found, among, rfl⟩ := List.mem_map.1 member
        obtain ⟨item, -, one⟩ := exists_of_forall₂ each found among
        exact one.2

theorem readsChildren_iff {trees : List α} : ReadsChildren read node field trees ↔
    ∃ found, children node field = .ok found ∧ found.mapM (fun inner => read inner.1) = .ok trees := by
  constructor
  · rintro ⟨inners, held, nodes, reads⟩
    obtain ⟨found, run, rfl⟩ := children_eq_ok held nodes
    refine ⟨found, run, ?_⟩
    rw [mapM_val read]
    exact reads
  · rintro ⟨found, run, reads⟩
    obtain ⟨held, nodes⟩ := held_of_children run
    rw [mapM_val read] at reads
    exact ⟨_, held, nodes, reads⟩

section Same

variable {other : Fields} (same : other.get? field = node.get? field)

include same

theorem readsChild_congr : ReadsChild read other field = ReadsChild read node field := by
  unfold ReadsChild
  rw [same]

theorem readsOptional_congr : ReadsOptional read other field = ReadsOptional read node field := by
  funext tree
  cases tree with
  | none =>
    unfold ReadsOptional
    rw [same]
  | some tree => exact congrFun (readsChild_congr same) tree

theorem readsChildren_congr : ReadsChildren read other field = ReadsChildren read node field := by
  unfold ReadsChildren
  rw [same]

theorem flagField_congr (kind : other.kind = node.kind) :
    flagField other field = flagField node field := by
  unfold flagField invalid
  rw [same, kind]

end Same

theorem ReadsChild.eq {tree next : α} (reads : ReadsChild read node field tree)
    (again : ReadsChild read node field next) : next = tree := by
  obtain ⟨inner, held, -, one⟩ := reads
  obtain ⟨other, held', -, two⟩ := again
  rw [held] at held'
  cases held'
  rw [one] at two
  cases two
  rfl

theorem ReadsOptional.eq {tree next : Option α} (reads : ReadsOptional read node field tree)
    (again : ReadsOptional read node field next) : next = tree := by
  cases tree with
  | none =>
    cases next with
    | none => rfl
    | some next =>
      obtain ⟨inner, held, -⟩ := again
      rcases reads with missing | null
      · simp [missing] at held
      · simp [null] at held
  | some tree =>
    cases next with
    | none =>
      obtain ⟨inner, held, -⟩ := reads
      rcases again with missing | null
      · simp [missing] at held
      · simp [null] at held
    | some next => rw [ReadsChild.eq reads again]

theorem ReadsChildren.set {trees : List α} {items : List Value} {i : Nat}
    (reads : ReadsChildren read node field trees) (held : node.get? field = some (.list items))
    (place : items[i]? = some (.object inner)) :
    ∃ front tree rest, trees = front ++ tree :: rest ∧ read inner = .ok tree ∧
      ∀ other trees', ReadsChildren read
        (node.insert field (.list (items.set i (.object other)))) field trees' ↔
          Fields.isNode other = true ∧ ∃ tree', read other = .ok tree' ∧
            trees' = front ++ tree' :: rest := by
  obtain ⟨inners, held', nodes, run⟩ := reads
  rw [held, Option.some.injEq, Value.list.injEq] at held'
  subst held'
  obtain ⟨there, same⟩ : ∃ there : i < inners.length, inners.get ⟨i, there⟩ = inner := by
    simpa [List.getElem?_eq_some_iff] using place
  obtain ⟨before, behind, rfl, rfl⟩ : ∃ before behind, inners = before ++ inner :: behind ∧
      before.length = i := by
    refine ⟨inners.take i, inners.drop (i + 1), ?_, ?_⟩
    · rw [← same]
      simp
    · simp [there.le]
  obtain ⟨front, tree, rest, runs, one, others, rfl⟩ := mapM_split.1 run
  refine ⟨front, tree, rest, rfl, one, ?_⟩
  intro other trees'
  have changed : ((before ++ inner :: behind).map Value.object).set before.length (.object other) =
      (before ++ other :: behind).map .object := by simp
  unfold ReadsChildren
  rw [changed, Fields.get?_insert_self]
  constructor
  · rintro ⟨inners', same', nodes', run'⟩
    obtain rfl : before ++ other :: behind = inners' := by
      have inside := Value.list.inj (Option.some.inj same')
      exact List.map_injective_iff.2 (fun _ _ eq => Value.object.inj eq) inside
    obtain ⟨front', tree', rest', runs', one', others', rfl⟩ := mapM_split.1 run'
    rw [runs] at runs'
    rw [others] at others'
    cases runs'
    cases others'
    exact ⟨nodes' other (by simp), tree', one', rfl⟩
  · rintro ⟨isNode, tree', one', rfl⟩
    refine ⟨_, rfl, ?_, mapM_split.2 ⟨front, tree', rest, runs, one', others, rfl⟩⟩
    intro next member
    rcases List.mem_append.1 member with early | late
    · exact nodes next (by simp [early])
    · rcases List.mem_cons.1 late with rfl | late
      · exact isNode
      · exact nodes next (by simp [late])

section Kinds

variable {tree : Stmt Lines}

theorem branch_iff (kind : node.kind = "IfStatement") : statement node = .ok tree ↔
    ∃ test consequent alternate, ReadsChild expression node "test" test ∧
      ReadsChild statement node "consequent" consequent ∧
      ReadsOptional statement node "alternate" alternate ∧
      tree = .branch (linesOf node) test consequent alternate := by
  rw [statement]
  simp only [kind]
  constructor
  · intro run
    obtain ⟨testNode, runTest, run⟩ := Except.bind_eq_ok.1 run
    obtain ⟨test, readTest, run⟩ := Except.bind_eq_ok.1 run
    obtain ⟨firstNode, runFirst, run⟩ := Except.bind_eq_ok.1 run
    obtain ⟨first, readFirst, run⟩ := Except.bind_eq_ok.1 run
    obtain ⟨secondNode, runSecond, run⟩ := Except.bind_eq_ok.1 run
    obtain ⟨heldTest, nodeTest⟩ := held_of_child runTest
    obtain ⟨heldFirst, nodeFirst⟩ := held_of_child runFirst
    rcases held_of_optionalChild runSecond with ⟨rfl, bare⟩ | ⟨inner, rfl, held, isNode⟩
    · cases run
      exact ⟨test, first, none, ⟨_, heldTest, nodeTest, readTest⟩,
        ⟨_, heldFirst, nodeFirst, readFirst⟩, bare, rfl⟩
    · obtain ⟨second, readSecond, run⟩ := Except.bind_eq_ok.1 run
      cases run
      exact ⟨test, first, some second, ⟨_, heldTest, nodeTest, readTest⟩,
        ⟨_, heldFirst, nodeFirst, readFirst⟩, ⟨_, held, isNode, readSecond⟩, rfl⟩
  · rintro ⟨test, first, alternate, ⟨testNode, heldTest, nodeTest, readTest⟩,
      ⟨firstNode, heldFirst, nodeFirst, readFirst⟩, last, rfl⟩
    obtain ⟨_, runTest⟩ := child_eq_ok heldTest nodeTest
    obtain ⟨_, runFirst⟩ := child_eq_ok heldFirst nodeFirst
    simp only [runTest, readTest, runFirst, readFirst, ok_bind]
    cases alternate with
    | none =>
      have run : optionalChild node "alternate" = .ok none := by
        unfold optionalChild
        rcases last with missing | null
        · rw [missing]
        · rw [null]
      simp only [run, ok_bind]
      rfl
    | some second =>
      obtain ⟨inner, held, isNode, readSecond⟩ := last
      obtain ⟨_, run⟩ := optionalChild_eq_some held isNode
      simp only [run, readSecond, ok_bind]
      rfl

theorem block_iff (kind : node.kind = "BlockStatement") : statement node = .ok tree ↔
    ∃ body, ReadsChildren statement node "body" body ∧ tree = .block (linesOf node) body := by
  rw [statement]
  simp only [kind]
  unfold blockChildren
  rw [if_pos kind]
  constructor
  · intro run
    obtain ⟨found, runs, run⟩ := Except.bind_eq_ok.1 run
    obtain ⟨body, reads, run⟩ := Except.bind_eq_ok.1 run
    cases run
    exact ⟨body, readsChildren_iff.2 ⟨found, runs, reads⟩, rfl⟩
  · rintro ⟨body, reads, rfl⟩
    obtain ⟨found, runs, reads⟩ := readsChildren_iff.1 reads
    simp only [runs, reads, ok_bind]
    rfl

theorem function_iff (kind : node.kind = "FunctionDeclaration") : statement node = .ok tree ↔
    ∃ head inner body, functionHead node = .ok head ∧ node.get? "body" = some (.object inner) ∧
      Fields.isNode inner = true ∧ Fields.kind inner = "BlockStatement" ∧
      statement inner = .ok (.block (linesOf inner) body) ∧
      tree = .function (linesOf node) head (linesOf inner) body := by
  rw [statement]
  simp only [kind]
  constructor
  · intro run
    obtain ⟨head, runHead, run⟩ := Except.bind_eq_ok.1 run
    obtain ⟨inner, runInner, run⟩ := Except.bind_eq_ok.1 run
    obtain ⟨held, isNode⟩ := held_of_child runInner
    unfold blockChildren at run
    split at run
    · rename_i block
      obtain ⟨found, runs, run⟩ := Except.bind_eq_ok.1 run
      obtain ⟨body, reads, run⟩ := Except.bind_eq_ok.1 run
      cases run
      exact ⟨head, inner.1, body, runHead, held, isNode, block,
        (block_iff block).2 ⟨body, readsChildren_iff.2 ⟨found, runs, reads⟩, rfl⟩, rfl⟩
    · cases run
  · rintro ⟨head, inner, body, runHead, held, isNode, block, read, rfl⟩
    obtain ⟨_, runInner⟩ := child_eq_ok held isNode
    obtain ⟨other, reads, same⟩ := (block_iff block).1 read
    cases same
    obtain ⟨found, runs, reads⟩ := readsChildren_iff.1 reads
    have runBlock : blockChildren inner = .ok found := by
      unfold blockChildren
      rw [if_pos block, runs]
    simp only [runHead, runInner, runBlock, reads, ok_bind]
    rfl

theorem functionHead_iff {head : FunctionHead Lines} : functionHead node = .ok head ↔
    flagField node "async" = .ok head.isAsync ∧ flagField node "generator" = .ok head.isGenerator ∧
      ReadsChild expression node "id" head.name ∧
      ReadsChildren expression node "params" head.parameters := by
  unfold functionHead
  constructor
  · intro run
    obtain ⟨isAsync, runAsync, run⟩ := Except.bind_eq_ok.1 run
    obtain ⟨isGenerator, runGenerator, run⟩ := Except.bind_eq_ok.1 run
    obtain ⟨nameNode, runName, run⟩ := Except.bind_eq_ok.1 run
    obtain ⟨name, readName, run⟩ := Except.bind_eq_ok.1 run
    obtain ⟨found, runs, run⟩ := Except.bind_eq_ok.1 run
    obtain ⟨parameters, reads, run⟩ := Except.bind_eq_ok.1 run
    cases run
    obtain ⟨held, isNode⟩ := held_of_child runName
    exact ⟨runAsync, runGenerator, ⟨_, held, isNode, readName⟩,
      readsChildren_iff.2 ⟨found, runs, reads⟩⟩
  · rintro ⟨runAsync, runGenerator, ⟨nameNode, held, isNode, readName⟩, parameters⟩
    obtain ⟨_, runName⟩ := child_eq_ok held isNode
    obtain ⟨found, runs, reads⟩ := readsChildren_iff.1 parameters
    simp only [runAsync, runGenerator, runName, readName, runs, reads, ok_bind]
    rfl

theorem functionHead_congr {other : Fields} (kind : other.kind = node.kind)
    (same : ∀ field ≠ "body", other.get? field = node.get? field) {head : FunctionHead Lines} :
    functionHead other = .ok head ↔ functionHead node = .ok head := by
  rw [functionHead_iff, functionHead_iff, flagField_congr (same "async" (by decide)) kind,
    flagField_congr (same "generator" (by decide)) kind, readsChild_congr (same "id" (by decide)),
    readsChildren_congr (same "params" (by decide))]

theorem held_of_stringField {text : String} (run : stringField node field = .ok text) :
    node.get? field = some (.string text) := by
  unfold stringField at run
  split at run
  · cases run
  · rename_i held
    cases run
    exact held
  · cases run

theorem declaration_iff (kind : node.kind = "VariableDeclaration") : statement node = .ok tree ↔
    ∃ word list, node.get? "kind" = some (.string (DeclarationKind.text word)) ∧
      ReadsChildren declarator node "declarations" list ∧ list ≠ [] ∧
      tree = .declaration (linesOf node) word list := by
  rw [statement]
  simp only [kind]
  unfold declaration
  constructor
  · intro run
    obtain ⟨text, runText, run⟩ := Except.bind_eq_ok.1 run
    split at run
    · cases run
    · rename_i word known
      obtain ⟨found, runs, run⟩ := Except.bind_eq_ok.1 run
      split at run
      · cases run
      · rename_i filled
        obtain ⟨list, reads, run⟩ := Except.bind_eq_ok.1 run
        cases run
        have spelled : DeclarationKind.text word = text := by
          simpa [DeclarationKind.ofText?] using List.find?_some known
        refine ⟨word, list, ?_, readsChildren_iff.2 ⟨found, runs, reads⟩, ?_, rfl⟩
        · rw [spelled]
          exact held_of_stringField runText
        · rintro rfl
          cases found with
          | nil => exact filled rfl
          | cons first rest => cases forall₂_of_mapM reads
  · rintro ⟨word, list, held, reads, filled, rfl⟩
    obtain ⟨found, runs, reads⟩ := readsChildren_iff.1 reads
    have some : found.isEmpty = false := by
      cases found with
      | nil =>
        cases reads
        exact absurd rfl filled
      | cons first rest => rfl
    have runText : stringField node "kind" = .ok word.text := by
      unfold stringField
      rw [held]
    simp only [runText, ok_bind, DeclarationKind.ofText?_text, runs, some, Bool.false_eq_true, if_false,
      reads]
    rfl

end Kinds

theorem isNode_of_statement {tree : Stmt Lines} (read : statement node = .ok tree) :
    node.isNode = true := by
  by_contra plain
  have missing : node.get? "type" = none := by
    simpa [Fields.isNode, Fields.contains] using plain
  have kind : node.kind = "" := by
    rw [Fields.kind, missing]
  rw [statement] at read
  simp only [kind] at read
  cases read

theorem linesOf_congr {other : Fields} (same : other.get? "loc" = node.get? "loc") :
    linesOf other = linesOf node := by
  unfold linesOf lineAt
  rw [same]

theorem note_of_statement {tree : Stmt Lines} (read : statement node = .ok tree) :
    tree.note = linesOf node := by
  have run := read
  rw [statement] at run
  split at run
  · rename_i kind
    obtain ⟨word, list, -, -, -, rfl⟩ := (declaration_iff kind).1 read
    rfl
  · rename_i kind
    obtain ⟨head, inner, body, -, -, -, -, -, rfl⟩ := (function_iff kind).1 read
    rfl
  · rename_i kind
    obtain ⟨body, -, rfl⟩ := (block_iff kind).1 read
    rfl
  · obtain ⟨argument, -, run⟩ := Except.bind_eq_ok.1 run
    split at run
    · obtain ⟨tree, -, run⟩ := Except.bind_eq_ok.1 run
      cases run
      rfl
    · cases run
      rfl
  · obtain ⟨inner, -, run⟩ := Except.bind_eq_ok.1 run
    obtain ⟨tree, -, run⟩ := Except.bind_eq_ok.1 run
    cases run
    rfl
  · rename_i kind
    obtain ⟨test, consequent, alternate, -, -, -, rfl⟩ := (branch_iff kind).1 read
    rfl
  · cases run
    rfl
  · cases run

end Script.Decode

end Arborist

import Mathlib
import Arborist.Widget.Registry

/-!
What a registry answers. It looks entries up by the kind and the field joined by a dot, and two pairs
can be joined to the same text when one of their parts has a dot in it. Along every sequence of calls
a registry answers exactly by those texts; so it answers by the pairs exactly where no pair that it
holds overlaps the one that is asked for.
-/

namespace Arborist

namespace Registry

structure Entry where
  kind : String
  field : String
  factory : Factory

namespace Entry

def key (e : Entry) : String := Registry.key e.kind e.field

def Names (e : Entry) (kind field : String) : Prop := e.kind = kind ∧ e.field = field

/-- Another pair with the same text: the two are joined at different dots of it. -/
def Overlaps (e : Entry) (kind field : String) : Prop :=
  ∃ middle : String, (e.kind = kind ++ "." ++ middle ∧ field = middle ++ "." ++ e.field) ∨
    (kind = e.kind ++ "." ++ middle ∧ e.field = middle ++ "." ++ field)

end Entry

theorem eq_or_later_of_key_eq {first second : List Char} {front back : List Char}
    (same : front ++ '.' :: back = front ++ first ++ '.' :: second) :
    (first = [] ∧ back = second) ∨ ∃ middle, first = '.' :: middle ∧ back = middle ++ '.' :: second := by
  rw [List.append_assoc, List.append_cancel_left_eq] at same
  cases first with
  | nil => exact .inl ⟨rfl, by simpa using same⟩
  | cons c middle =>
    simp only [List.cons_append, List.cons.injEq] at same
    obtain ⟨rfl, rfl⟩ := same
    exact .inr ⟨middle, rfl, rfl⟩

/-- A text is the key of two pairs only if they are one pair or overlap. -/
theorem Entry.key_eq_iff (e : Entry) (kind field : String) :
    e.key = Registry.key kind field ↔ e.Names kind field ∨ e.Overlaps kind field := by
  constructor
  · intro same
    have texts : e.kind.toList ++ '.' :: e.field.toList = kind.toList ++ '.' :: field.toList := by
      have := congrArg String.toList same
      simpa [Entry.key, Registry.key] using this
    rcases List.append_eq_append_iff.1 texts with ⟨more, kinds, -⟩ | ⟨more, kinds, -⟩
    · rw [kinds] at texts
      rcases eq_or_later_of_key_eq texts with ⟨none, fields⟩ | ⟨middle, later, fields⟩
      · rw [none, List.append_nil] at kinds
        exact .inl ⟨(String.toList_inj.1 kinds).symm, String.toList_inj.1 fields⟩
      · refine .inr ⟨String.ofList middle, .inr ⟨?_, ?_⟩⟩
        · apply String.toList_inj.1
          simp [kinds, later]
        · apply String.toList_inj.1
          simp [fields]
    · rw [kinds] at texts
      rcases eq_or_later_of_key_eq texts.symm with ⟨none, fields⟩ | ⟨middle, later, fields⟩
      · rw [none, List.append_nil] at kinds
        exact .inl ⟨String.toList_inj.1 kinds, (String.toList_inj.1 fields).symm⟩
      · refine .inr ⟨String.ofList middle, .inl ⟨?_, ?_⟩⟩
        · apply String.toList_inj.1
          simp [kinds, later]
        · apply String.toList_inj.1
          simp [fields]
  · rintro (⟨rfl, rfl⟩ | ⟨middle, ⟨kinds, fields⟩ | ⟨kinds, fields⟩⟩)
    · rfl
    · simp [Entry.key, Registry.key, kinds, fields, String.append_assoc]
    · simp [Entry.key, Registry.key, kinds, fields, String.append_assoc]

theorem Entry.Overlaps.not_names {e : Entry} {kind field : String} (overlaps : e.Overlaps kind field) :
    ¬ e.Names kind field := by
  rintro ⟨rfl, rfl⟩
  have dot : ".".length = 1 := rfl
  obtain ⟨middle, ⟨kinds, -⟩ | ⟨kinds, -⟩⟩ := overlaps
  · have longer := congrArg String.length kinds
    rw [String.length_append, String.length_append] at longer
    omega
  · have longer := congrArg String.length kinds
    rw [String.length_append, String.length_append] at longer
    omega

def builtins : List Entry :=
  [⟨"VariableDeclaration", "kind", (InputKind.choice InputKind.declarationKinds).build⟩,
    ⟨"BinaryExpression", "operator", (InputKind.choice InputKind.operators).build⟩,
    ⟨"Identifier", "name", InputKind.text.build⟩,
    ⟨"NumericLiteral", "value", InputKind.number.build⟩,
    ⟨"FunctionDeclaration", "generator", InputKind.toggle.build⟩,
    ⟨"FunctionDeclaration", "async", InputKind.toggle.build⟩]

/-- A registry beside the entries that went into it, in their order. -/
structure Record where
  registry : Registry
  held : List Entry

namespace Record

def empty : Record := ⟨Registry.empty, []⟩

def builtin : Record := ⟨Registry.builtin, builtins⟩

def call (r : Record) (e : Entry) : Record :=
  match r.registry.register e.kind e.field e.factory with
  | (next, .ok _) => ⟨next, r.held ++ [e]⟩
  | (next, .error _) => ⟨next, r.held⟩

def after (r : Record) (calls : List Entry) : Record := calls.foldl call r

structure Sound (r : Record) : Prop where
  entries : r.registry.entries = r.held.map fun e => (e.key, e.factory)
  distinct : (r.held.map Entry.key).Nodup

/-- Registering and resolving go by the entries that `meets` picks. -/
structure Answers (r : Record) (meets : Entry → Prop) (kind field : String) : Prop where
  refuses : (∃ e ∈ r.held, meets e) →
    ∀ factory, r.registry.register kind field factory =
      (r.registry, .error (.duplicateKey (key kind field)))
  accepts : (¬∃ e ∈ r.held, meets e) → ∀ factory, r.registry.register kind field factory =
    (⟨r.registry.entries ++ [(key kind field, factory)]⟩, .ok ())
  resolves : ∀ factory, r.registry.resolve? kind field = some factory ↔
    ∃ e ∈ r.held, meets e ∧ e.factory = factory

variable {r : Record}

theorem lookup_map {held : List Entry} (distinct : (held.map Entry.key).Nodup)
    (text : String) (factory : Factory) :
    (held.map fun e => (e.key, e.factory)).lookup text = some factory ↔
      ∃ e ∈ held, e.key = text ∧ e.factory = factory := by
  induction held with
  | nil => simp
  | cons e rest ih =>
    obtain ⟨first, others⟩ := List.nodup_cons.1 distinct
    rw [List.map_cons, List.lookup_cons]
    by_cases here : text = e.key
    · subst here
      simp only [beq_self_eq_true, Option.some.injEq, List.mem_cons]
      constructor
      · intro same
        exact ⟨e, .inl rfl, rfl, same⟩
      · rintro ⟨other, rfl | member, same, kept⟩
        · exact kept
        · exact absurd (List.mem_map.2 ⟨other, member, same⟩) first
    · have apart : (text == e.key) = false := by simpa using here
      simp only [apart, ih others, List.mem_cons]
      constructor
      · rintro ⟨other, member, same⟩
        exact ⟨other, .inr member, same⟩
      · rintro ⟨other, rfl | member, same, kept⟩
        · exact absurd same.symm here
        · exact ⟨other, member, same, kept⟩

theorem Sound.answers_key (sound : r.Sound) (kind field : String) :
    r.Answers (fun e => e.key = key kind field) kind field := by
  have resolves : ∀ factory, r.registry.resolve? kind field = some factory ↔
      ∃ e ∈ r.held, e.key = key kind field ∧ e.factory = factory := by
    intro factory
    rw [resolve?, sound.entries]
    exact lookup_map sound.distinct _ _
  refine ⟨?_, ?_, resolves⟩
  · rintro ⟨e, member, same⟩ factory
    have found := (resolves e.factory).2 ⟨e, member, same, rfl⟩
    simp only [register, found]
  · intro missing factory
    have none : r.registry.resolve? kind field = none := by
      apply Option.eq_none_iff_forall_ne_some.2
      intro found held
      obtain ⟨e, member, same, -⟩ := (resolves found).1 held
      exact missing ⟨e, member, same⟩
    simp only [register, none]

theorem sound_empty : empty.Sound := ⟨rfl, List.nodup_nil⟩

theorem sound_builtin : builtin.Sound := by
  constructor
  · rfl
  · decide

theorem Sound.call (sound : r.Sound) (e : Entry) : (r.call e).Sound := by
  have answers := sound.answers_key e.kind e.field
  by_cases held : ∃ other ∈ r.held, other.key = e.key
  · have refused := answers.refuses held e.factory
    simp only [Record.call, refused]
    exact sound
  · have accepted := answers.accepts held e.factory
    simp only [Record.call, accepted]
    constructor
    · rw [sound.entries, List.map_append]
      rfl
    · rw [List.map_append, List.map_singleton]
      apply List.nodup_append.2
      refine ⟨sound.distinct, List.nodup_singleton _, ?_⟩
      intro text member last here same
      obtain ⟨other, among, rfl⟩ := List.mem_map.1 member
      rw [List.mem_singleton.1 here] at same
      exact held ⟨other, among, same⟩

theorem Sound.after (sound : r.Sound) (calls : List Entry) : (r.after calls).Sound := by
  induction calls generalizing r with
  | nil => exact sound
  | cons e rest ih => exact ih (sound.call e)

theorem held_after (r : Record) (calls : List Entry) :
    ∃ accepted, accepted.Sublist calls ∧ (r.after calls).held = r.held ++ accepted := by
  induction calls generalizing r with
  | nil => exact ⟨[], List.Sublist.slnil, by simp [after]⟩
  | cons e rest ih =>
    obtain ⟨accepted, among, behind⟩ := ih (r.call e)
    have step : (r.call e).held = r.held ++ [e] ∨ (r.call e).held = r.held := by
      simp only [call]
      split
      · exact .inl rfl
      · exact .inr rfl
    rcases step with taken | refused
    · refine ⟨e :: accepted, among.cons_cons e, ?_⟩
      rw [taken, List.append_assoc] at behind
      exact behind
    · rw [refused] at behind
      exact ⟨accepted, among.cons e, behind⟩

theorem Answers.congr {meets other : Entry → Prop} {kind field : String}
    (answers : r.Answers meets kind field) (same : ∀ e ∈ r.held, meets e ↔ other e) :
    r.Answers other kind field := by
  have swap : (∃ e ∈ r.held, meets e) ↔ ∃ e ∈ r.held, other e := by
    constructor
    · rintro ⟨e, member, here⟩
      exact ⟨e, member, (same e member).1 here⟩
    · rintro ⟨e, member, here⟩
      exact ⟨e, member, (same e member).2 here⟩
  refine ⟨fun some => answers.refuses (swap.2 some),
    fun none => answers.accepts (mt swap.1 none), fun factory => ?_⟩
  rw [answers.resolves]
  constructor
  · rintro ⟨e, member, here, value⟩
    exact ⟨e, member, (same e member).1 here, value⟩
  · rintro ⟨e, member, here, value⟩
    exact ⟨e, member, (same e member).2 here, value⟩

/-- Whatever is registered, from nothing or on top of the first entries, the keys are those of the
accepted calls in their order, and for every pair the registry answers by the entries that name it or
overlap it. So it answers exactly by the pair if and only if no entry overlaps it. -/
theorem exact_unless_overlapping {start : Record} (origin : start = empty ∨ start = builtin)
    (calls : List Entry) :
    (∃ accepted, accepted.Sublist calls ∧ (start.after calls).held = start.held ++ accepted) ∧
    (start.after calls).registry.keys = (start.after calls).held.map Entry.key ∧
    ∀ kind field : String,
      (start.after calls).Answers (fun e => e.Names kind field ∨ e.Overlaps kind field) kind field ∧
      ((start.after calls).Answers (fun e => e.Names kind field) kind field ↔
        ∀ e ∈ (start.after calls).held, ¬ e.Overlaps kind field) := by
  have sound : (start.after calls).Sound := by
    rcases origin with rfl | rfl
    · exact sound_empty.after calls
    · exact sound_builtin.after calls
  refine ⟨held_after start calls, ?_, fun kind field => ?_⟩
  · rw [keys, sound.entries, List.map_map]
    rfl
  · have byText := sound.answers_key kind field
    have answers := byText.congr fun e _ => e.key_eq_iff kind field
    refine ⟨answers, ⟨fun exact e member overlaps => ?_, fun free => ?_⟩⟩
    · -- The overlapping entry is resolved for the pair, so an entry that names the pair has to be
      -- held too; but the two have one key.
      have found := (answers.resolves e.factory).2 ⟨e, member, .inr overlaps, rfl⟩
      obtain ⟨named, held, names, -⟩ := (exact.resolves e.factory).1 found
      have one : e.key = named.key :=
        ((e.key_eq_iff kind field).2 (.inr overlaps)).trans
          ((named.key_eq_iff kind field).2 (.inl names)).symm
      have same : e = named := List.inj_on_of_nodup_map sound.distinct member held one
      exact overlaps.not_names (same ▸ names)
    · apply answers.congr
      intro e member
      constructor
      · rintro (names | overlaps)
        · exact names
        · exact absurd overlaps (free e member)
      · exact .inl

/-- A pair with a dot in its field, beside one that has the dot in its kind under another text. -/
theorem exact_unless_overlapping_builtin :
    let dotted : Entry := ⟨"A.B", "c", InputKind.text.build⟩
    let plain : Entry := ⟨"A", "c", InputKind.number.build⟩
    let calls : List Entry := [dotted, ⟨"Identifier", "name", InputKind.number.build⟩, plain]
    (builtin.after calls).held = builtins ++ [dotted, plain] ∧
      (builtin.after calls).Answers (fun e => e.Names "A" "B") "A" "B" ∧
      ¬(builtin.after calls).Answers (fun e => e.Names "A" "B.c") "A" "B.c" := by
  intro dotted plain calls
  have held : (builtin.after calls).held = builtins ++ [dotted, plain] := by rfl
  obtain ⟨-, -, answers⟩ := exact_unless_overlapping (.inr rfl) calls
  refine ⟨held, ?_, ?_⟩
  · have apart : ∀ text ∈ (builtins ++ [dotted, plain]).map Entry.key,
        text ≠ Registry.key "A" "B" := by decide +kernel
    refine (answers "A" "B").2.2 fun e member overlaps => ?_
    rw [held] at member
    exact apart _ (List.mem_map_of_mem member) ((e.key_eq_iff "A" "B").2 (.inr overlaps))
  · intro exact
    have overlaps : dotted.Overlaps "A" "B.c" := ⟨"B", .inl ⟨rfl, rfl⟩⟩
    refine (answers "A" "B.c").2.1 exact dotted ?_ overlaps
    rw [held]
    simp

/-- Two pairs of one text: the second cannot be registered, and it is resolved as the first. -/
theorem register_shared_key :
    let calls : List Entry := [⟨"A.B", "c", InputKind.text.build⟩]
    let r := empty.after calls
    r.held = calls ∧ (∀ e ∈ r.held, ¬ e.Names "A" "B.c") ∧
      r.registry.register "A" "B.c" InputKind.number.build =
        (r.registry, .error (.duplicateKey "A.B.c")) ∧
      r.registry.resolve? "A" "B.c" = some InputKind.text.build := by
  refine ⟨rfl, ?_, rfl, rfl⟩
  intro e member
  have only : e = ⟨"A.B", "c", InputKind.text.build⟩ := List.mem_singleton.1 member
  rintro ⟨kinds, -⟩
  rw [only] at kinds
  exact absurd kinds (by decide)

end Record

end Registry

end Arborist

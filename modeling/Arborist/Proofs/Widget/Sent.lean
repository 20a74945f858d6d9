import Mathlib
import Arborist.Proofs.Widget.Response

/-!
What a widget sends is what it has. An action either leaves the input alone and sends nothing, or it
sends the value that the input has by then; only a number that is being typed may have none. So
along any run of actions the last edit is the value of the widget. An entry that is refused sends
nothing, and it leaves the input alone unless its characters were those of a number: then it stands
in the buffer before it is found to spell none.
-/

namespace Arborist

namespace Input

def value? : Input → Option Value
  | .choice _ current => some (.string current)
  | .text content => some (.string content)
  | .number buffer => (bufferNumber? buffer).map .number
  | .toggle checked => some (.bool checked)

/-- The value is the one that the input has: of a choice it is one of the options, and a buffer has
it only while it spells a number. -/
def Tells : Input → Value → Prop
  | .choice options current, value => value = .string current ∧ current ∈ options
  | .text content, value => value = .string content
  | .number buffer, value => ∀ n, bufferNumber? buffer = some n → value = .number n
  | .toggle checked, value => value = .bool checked

theorem tells_of_value? {kind : InputKind} {input : Input} {value : Value} (made : kind.Makes input)
    (takes : kind.Takes value) (same : ∀ own ∈ input.value?, value = own) : input.Tells value := by
  cases kind with
  | choice options =>
    obtain ⟨current, rfl⟩ := made
    obtain ⟨option, listed, rfl⟩ := takes
    obtain rfl : option = current := by simpa using same (.string current) rfl
    exact ⟨rfl, listed⟩
  | text =>
    obtain ⟨content, rfl⟩ := made
    exact same _ rfl
  | number =>
    obtain ⟨buffer, rfl⟩ := made
    intro n read
    exact same (.number n) (by simp [value?, read])
  | toggle =>
    obtain ⟨checked, rfl⟩ := made
    exact same _ rfl

theorem exists_shows (input : Input) : ∃ value, input.Shows value := by
  cases input with
  | choice options current => exact ⟨.string current, rfl⟩
  | text content => exact ⟨.string content, rfl⟩
  | toggle checked => exact ⟨.bool checked, rfl⟩
  | number buffer =>
    cases read : bufferNumber? buffer with
    | none => exact ⟨.null, fun n found => by simp [read] at found⟩
    | some n =>
      refine ⟨.number n, fun m found => ⟨n, rfl, ?_⟩⟩
      have finite := isFinite_of_bufferNumber? read
      rw [read, Option.some.injEq] at found
      subst found
      exact Number.agrees_self (by rintro rfl; simp [Number.isFinite] at finite)

end Input

/-- The answer leaves the input alone and sends nothing, or it sends the value that the input has by
then; and it sends nothing when the action was not taken up. -/
structure Response.Announces (input : Input) (r : Response) : Prop where
  told : r.input = input ∧ r.sent = [] ∨ r.sent = r.input.value?.toList
  quiet : r.outcome ≠ .done → r.sent = []

theorem Response.Announces.length_sent {input : Input} {r : Response} (announces : r.Announces input) :
    r.sent.length ≤ 1 := by
  rcases announces.told with ⟨-, silent⟩ | spoken
  · simp [silent]
  · rw [spoken]
    cases r.input.value? <;> simp

namespace Input

open Response (Announces)

theorem announces_kept (input : Input) (outcome : Outcome) :
    Announces input ⟨input, [], outcome⟩ := ⟨.inl ⟨rfl, rfl⟩, fun _ => rfl⟩

theorem announces_changed (input next : Input) :
    Announces input ⟨next, next.value?.toList, .done⟩ :=
  ⟨.inr rfl, fun other => absurd rfl other⟩

section Kinds

variable (options : List String) (current text buffer : String) (checked : Bool)

theorem announces_pick (i : Nat) :
    Announces (.choice options current) (Choice.pick options current i) := by
  unfold Choice.pick
  split
  · exact announces_changed _ (.choice options _)
  · exact announces_kept _ _

theorem announces_select :
    Announces (.choice options current) (Choice.select options current text) := by
  unfold Choice.select
  split
  · exact announces_changed _ (.choice options text)
  · exact announces_kept _ _

theorem announces_text (input : Input) : Announces input (FreeText.changed text) :=
  announces_changed input (.text text)

theorem announces_number (input : Input) : Announces input (Numeric.changed buffer) := by
  have same : Numeric.changed buffer =
      ⟨.number buffer, (Input.number buffer).value?.toList, .done⟩ := by
    simp only [Numeric.changed, value?]
    cases bufferNumber? buffer <;> rfl
  rw [same]
  exact announces_changed input (.number buffer)

theorem announces_setText : Announces (.number buffer) (Numeric.setText buffer text) := by
  unfold Numeric.setText
  dsimp only
  split
  · exact announces_number _ _
  · exact announces_kept _ _

theorem enterNumber_eq (buffer text : String) : Numeric.enter buffer text =
    if (Text.trim text).toList.all isNumberChar then
      match bufferNumber? (Text.trim text) with
      | some n => ⟨.number (Text.trim text), [.number n], .done⟩
      | none => ⟨.number (Text.trim text), [], .refused (.notANumber text)⟩
    else ⟨.number buffer, [], .refused (.notANumber text)⟩ := by
  unfold Numeric.enter Numeric.setText Numeric.changed Text.trim
  simp only [String.toList_ofList]
  by_cases numeric : (Text.trimChars text.toList).all isNumberChar = true
  · simp only [if_pos numeric]
    cases bufferNumber? (String.ofList (Text.trimChars text.toList)) <;> rfl
  · simp only [if_neg numeric]

/-- The second check refuses a text that is in the buffer already; it had nothing to send. -/
theorem announces_enterNumber : Announces (.number buffer) (Numeric.enter buffer text) := by
  rw [enterNumber_eq]
  split
  · cases read : bufferNumber? (Text.trim text) with
    | some n =>
      have has : (Input.number (Text.trim text)).value? = some (.number n) := by
        rw [value?, read, Option.map_some]
      exact ⟨.inr (by rw [has]; rfl), fun other => absurd rfl other⟩
    | none =>
      have has : (Input.number (Text.trim text)).value? = none := by
        rw [value?, read, Option.map_none]
      exact ⟨.inr (by rw [has]; rfl), fun _ => rfl⟩
  · exact announces_kept _ _

theorem announces_flag (input : Input) : Announces input (Flag.set checked) :=
  announces_changed input (.toggle checked)

theorem announces_enterFlag : Announces (.toggle checked) (Flag.enter checked text) := by
  unfold Flag.enter
  dsimp only
  split
  · exact announces_flag true _
  · split
    · exact announces_flag false _
    · exact announces_kept _ _

end Kinds

theorem announces_enter (input : Input) (text : String) : Announces input (input.enter text) := by
  cases input with
  | choice options current => exact announces_select options current text
  | text content => exact announces_text text _
  | number buffer => exact announces_enterNumber text buffer
  | toggle checked => exact announces_enterFlag text checked

theorem announces_act? {input : Input} {action : Action} {r : Response}
    (acted : input.act? action = some r) : Announces input r := by
  cases input with
  | choice options current =>
    cases action <;> simp only [act?, Option.some.injEq, reduceCtorEq] at acted <;> subst acted
    case enter => exact announces_enter _ _
    case select => exact announces_select options current _
    case next =>
      unfold Choice.next
      split <;> exact announces_pick options current _
    case previous =>
      unfold Choice.previous
      split <;> exact announces_pick options current _
  | text content =>
    cases action <;> simp only [act?, Option.some.injEq, reduceCtorEq] at acted <;> subst acted
    case enter => exact announces_enter _ _
    case insert | setText => exact announces_text _ _
    case backspace =>
      unfold FreeText.backspace
      split
      · exact announces_kept _ _
      · exact announces_text _ _
  | number buffer =>
    cases action <;> simp only [act?, Option.some.injEq, reduceCtorEq] at acted <;> subst acted
    case enter => exact announces_enter _ _
    case setText => exact announces_setText _ buffer
    case increment | decrement => exact announces_number _ _
    case insert =>
      unfold Numeric.insert
      split
      · exact announces_number _ _
      · exact announces_kept _ _
    case backspace =>
      unfold Numeric.backspace
      split
      · exact announces_kept _ _
      · exact announces_number _ _
  | toggle checked =>
    cases action <;> simp only [act?, Option.some.injEq, reduceCtorEq] at acted <;> subst acted
    case enter => exact announces_enter _ _
    case toggle | set => exact announces_flag _ _

end Input

structure Turn where
  action : Action
  sent : List Edit
  outcome : Outcome
  deriving Repr

namespace Turn

def edits (turns : List Turn) : List Edit := turns.flatMap sent

theorem edits_concat (turns : List Turn) (turn : Turn) :
    edits (turns ++ [turn]) = edits turns ++ turn.sent := by
  rw [edits, List.flatMap_append, List.flatMap_singleton, edits]

end Turn

namespace Widget

open Turn (edits edits_concat)

/-- The widgets that actions of a widget lead to, each with the turns up to it. An action that the
widget's kind of input does not have leads nowhere. -/
inductive Run (first : Widget) : List Turn → Widget → Prop where
  | start : Run first [] first
  | act {turns : List Turn} {w next : Widget} {action : Action} {sent : List Edit}
      {outcome : Outcome} (before : Run first turns w)
      (answers : w.act? action = some (next, sent, outcome)) :
      Run first (turns ++ [⟨action, sent, outcome⟩]) next

structure Told (kind : InputKind) (first : Widget) (turns : List Turn) (w : Widget) : Prop where
  target : w.target = first.target
  made : kind.Makes w.input
  sent : ∀ turn ∈ turns, ∀ edit ∈ turn.sent,
    edit.target = first.target ∧ kind.Sendable edit.value
  single : ∀ turn ∈ turns, turn.sent.length ≤ 1
  quiet : ∀ turn ∈ turns, turn.outcome ≠ .done → turn.sent = []
  last : ∀ edit ∈ (edits turns).getLast?, ∀ own ∈ w.input.value?, edit.value = own
  seeded : edits turns = [] → w.input = first.input ∨ w.input.value? = none

theorem told_start {kind : InputKind} {first : Widget} (made : kind.Makes first.input) :
    Told kind first [] first where
  target := rfl
  made := made
  sent := by simp
  single := by simp
  quiet := by simp
  last := by simp [edits]
  seeded := fun _ => .inl rfl

theorem Told.act {kind : InputKind} {first w next : Widget} {turns : List Turn}
    (told : Told kind first turns w) {action : Action} {sent : List Edit} {outcome : Outcome}
    (answers : w.act? action = some (next, sent, outcome)) :
    Told kind first (turns ++ [⟨action, sent, outcome⟩]) next := by
  obtain ⟨r, acted, same⟩ := Option.map_eq_some_iff.1 answers
  cases same
  have announces := Input.announces_act? acted
  obtain ⟨value, shows⟩ := w.input.exists_shows
  have faithful := Input.faithful_act? told.made shows acted
  constructor
  case target => exact told.target
  case made => exact faithful.made
  case sent =>
    intro turn member edit inside
    rcases List.mem_append.1 member with before | now
    · exact told.sent turn before edit inside
    · cases List.mem_singleton.1 now
      obtain ⟨v, found, rfl⟩ := List.mem_map.1 inside
      exact ⟨told.target, faithful.sendable v found⟩
  case single =>
    intro turn member
    rcases List.mem_append.1 member with before | now
    · exact told.single turn before
    · cases List.mem_singleton.1 now
      rw [List.length_map]
      exact announces.length_sent
  case quiet =>
    intro turn member refused
    rcases List.mem_append.1 member with before | now
    · exact told.quiet turn before refused
    · cases List.mem_singleton.1 now
      rw [announces.quiet refused]
      rfl
  case last =>
    intro edit last own has
    rw [edits_concat] at last
    rcases announces.told with ⟨kept, silent⟩ | spoken
    · rw [silent, List.map_nil, List.append_nil] at last
      exact told.last edit last own (kept ▸ has)
    · rw [spoken, Option.mem_def.1 has] at last
      simp only [Option.toList_some, List.map_cons, List.map_nil, List.getLast?_concat,
        Option.mem_some_iff] at last
      rw [← last]
  case seeded =>
    intro none
    rw [edits_concat, List.append_eq_nil_iff] at none
    have silent : r.sent = [] := by simpa using none.2
    rcases announces.told with ⟨kept, -⟩ | spoken
    · exact kept ▸ told.seeded none.1
    · exact .inr (Option.toList_eq_nil_iff.1 (spoken.symm.trans silent))

theorem Run.told {kind : InputKind} {first w : Widget} {turns : List Turn}
    (made : kind.Makes first.input) (run : Run first turns w) : Told kind first turns w := by
  induction run with
  | start => exact told_start made
  | act _ answers ih => exact ih.act answers

/-- Whatever is done to a widget that was seeded from any value: it keeps its target and its kind;
every edit carries that target and a value that the kind of input sends, which is never a number
that is not finite; an action sends at most one edit, and nothing if it is ignored or refused; the
last edit is the value that the widget has; and up to the first edit the widget is as it was seeded,
or it spells no number. -/
theorem last_edit_tells {kind : InputKind} {target : Target} {value : Value} {turns : List Turn}
    {w : Widget} (run : Run (kind.build target value) turns w) :
    (w.target = target ∧ kind.Makes w.input) ∧
    (∀ turn ∈ turns, ∀ edit ∈ turn.sent, edit.target = target ∧ kind.Sendable edit.value) ∧
    (∀ turn ∈ turns, turn.sent.length ≤ 1 ∧ (turn.outcome ≠ .done → turn.sent = [])) ∧
    (∀ edit ∈ (edits turns).getLast?, w.input.Tells edit.value) ∧
    (edits turns = [] → w.input = kind.seed value ∨ w.input.value? = none) := by
  have told := run.told (kind.makes_seed value)
  refine ⟨⟨told.target, told.made⟩, told.sent,
    fun turn member => ⟨told.single turn member, told.quiet turn member⟩, fun edit last => ?_,
    told.seeded⟩
  obtain ⟨turn, member, sent⟩ := List.mem_flatMap.1 (List.mem_of_getLast? last)
  have sendable := (told.sent turn member edit sent).2
  exact Input.tells_of_value? told.made sendable.takes (told.last edit last)

/-- A number that is half typed, refused, set, offered a letter and stepped down. -/
theorem last_edit_tells_stepped :
    let target : Target := ⟨[⟨"body", some 0⟩], "value"⟩
    let turns : List Turn :=
      [⟨.insert 'e', [], .done⟩, ⟨.enter "-", [], .refused (.notANumber "-")⟩,
        ⟨.setText " 7 ", [⟨target, .number (.ofNat 7)⟩], .done⟩, ⟨.insert 'x', [], .ignored⟩,
        ⟨.decrement, [⟨target, .number (.ofNat 6)⟩], .done⟩]
    Run (InputKind.number.build target (.number (.ofNat 10))) turns ⟨target, .number "6"⟩ ∧
      (edits turns).getLast? = some ⟨target, .number (.ofNat 6)⟩ ∧
      (Input.number "6").Tells (.number (.ofNat 6)) := by
  intro target turns
  let seeded := InputKind.number.build target (.number (.ofNat 10))
  have typed : Run seeded (turns.take 1) ⟨target, .number "10e"⟩ :=
    @Run.act seeded [] _ _ (.insert 'e') _ _ .start rfl
  have refused : Run seeded (turns.take 2) ⟨target, .number "-"⟩ :=
    @Run.act seeded (turns.take 1) _ _ (.enter "-") _ _ typed rfl
  have set : Run seeded (turns.take 3) ⟨target, .number "7"⟩ :=
    @Run.act seeded (turns.take 2) _ _ (.setText " 7 ") _ _ refused rfl
  have offered : Run seeded (turns.take 4) ⟨target, .number "7"⟩ :=
    @Run.act seeded (turns.take 3) _ _ (.insert 'x') _ _ set rfl
  have stepped : Input.Numeric.stepBy "7" Number.minusOne = Input.Numeric.changed "6" := by
    have read : Input.bufferNumber? "7" = some (.ofNat 7) := by decide +kernel
    have shown : ((Number.ofNat 7).add Number.minusOne).display = "6" := by decide +kernel
    rw [Input.Numeric.stepBy, read, Option.getD_some, shown]
  have run : Run seeded turns ⟨target, .number "6"⟩ := by
    refine @Run.act seeded (turns.take 4) _ _ .decrement _ _ offered ?_
    rw [act?, Input.act?, stepped]
    rfl
  obtain ⟨-, -, -, last, -⟩ := last_edit_tells run
  exact ⟨run, rfl, last _ rfl⟩

end Widget

namespace Input

/-- The text has only characters that numbers have, and it is not what stands in the buffer. -/
def Overtypes (text : String) : Input → Prop
  | .number buffer => (Text.trim text).toList.all isNumberChar = true ∧ Text.trim text ≠ buffer
  | _ => False

theorem enter_of_refused {input : Input} {text : String}
    (refused : (input.enter text).outcome ≠ .done) :
    (¬ input.Overtypes text → (input.enter text).input = input) ∧
      (input.Overtypes text → (input.enter text).input = .number (Text.trim text)) := by
  cases input with
  | choice options current =>
    refine ⟨fun _ => ?_, False.elim⟩
    simp only [enter, Choice.select] at refused ⊢
    split at refused
    · exact absurd rfl refused
    · rename_i unlisted
      rw [if_neg unlisted]
  | text content => exact absurd rfl refused
  | toggle checked =>
    refine ⟨fun _ => ?_, False.elim⟩
    simp only [enter, Flag.enter] at refused ⊢
    split at refused
    · exact absurd rfl refused
    · split at refused
      · exact absurd rfl refused
      · rename_i notTrue notFalse
        rw [if_neg notTrue, if_neg notFalse]
  | number buffer =>
    simp only [enter, enterNumber_eq, Overtypes] at refused ⊢
    split at refused
    · rename_i numeric
      rw [if_pos numeric]
      split at refused
      · exact absurd rfl refused
      · simp only [numeric, true_and, not_not]
        exact ⟨fun same => by rw [same], fun _ => trivial⟩
    · rename_i other
      rw [if_neg other]
      exact ⟨fun _ => rfl, fun overtypes => absurd overtypes.1 other⟩

end Input

namespace Widget

/-- An entry that is refused sends nothing, and it leaves the widget as it was, with what it shows,
unless it is a text with the characters of a number, other than the buffer: that one takes the place
of the buffer before it is refused. -/
theorem kept_unless_overtyped {w : Widget} {text : String} {error : InputError}
    (refused : (w.enter text).2.2 = .refused error) :
    (w.enter text).2.1 = [] ∧
    ((w.enter text).1 = w ∧ (w.enter text).1.display = w.display ↔ ¬ w.input.Overtypes text) ∧
    (w.input.Overtypes text → (w.enter text).1.display = Text.trim text) := by
  have failed : (w.input.enter text).outcome ≠ .done := by
    intro done
    have same : (w.input.enter text).outcome = .refused error := refused
    rw [done] at same
    cases same
  have silent := (Input.announces_enter w.input text).quiet failed
  obtain ⟨kept, replaced⟩ := Input.enter_of_refused failed
  have shown : w.input.Overtypes text → (w.enter text).1.display = Text.trim text := by
    intro overtypes
    rw [display, enter, respond, replaced overtypes]
    rfl
  have unsent : (w.enter text).2.1 = [] := by
    rw [enter, respond, silent]
    rfl
  refine ⟨unsent, ⟨?_, fun other => ?_⟩, shown⟩
  · rintro ⟨-, same⟩ overtypes
    rw [shown overtypes] at same
    obtain ⟨target, input⟩ := w
    cases input with
    | number buffer => exact overtypes.2 same
    | choice | text | toggle => exact overtypes
  · have same : (w.enter text).1 = w := by rw [enter, respond, kept other]
    exact ⟨same, by rw [same]⟩

theorem kept_unless_overtyped_letters :
    let w := InputKind.number.build ⟨[], "value"⟩ (.number (.ofNat 10))
    (w.enter "ten").2.2 = .refused (.notANumber "ten") ∧ ¬ w.input.Overtypes "ten" ∧
      (w.enter "ten").2.1 = [] ∧ (w.enter "ten").1 = w := by
  intro w
  have refused : (w.enter "ten").2.2 = .refused (.notANumber "ten") := rfl
  have letters : ¬ w.input.Overtypes "ten" := fun overtypes => absurd overtypes.1 (by decide)
  obtain ⟨silent, kept, -⟩ := kept_unless_overtyped refused
  exact ⟨refused, letters, silent, (kept.2 letters).1⟩

/-- A number that shows 10 and refuses a lone sign shows that sign from then on. -/
theorem shows_refused_sign :
    let w := InputKind.number.build ⟨[], "value"⟩ (.number (.ofNat 10))
    Run w [] w ∧ (w.enter "-").2.2 = .refused (.notANumber "-") ∧ (w.enter "-").1 ≠ w ∧
      w.display = "10" ∧ (w.enter "-").1.display = "-" := by
  intro w
  have before : w.display = "10" := rfl
  have after : (w.enter "-").1.display = "-" := rfl
  refine ⟨.start, rfl, fun same => ?_, before, after⟩
  rw [same, before] at after
  exact absurd after (by decide)

end Widget

end Arborist

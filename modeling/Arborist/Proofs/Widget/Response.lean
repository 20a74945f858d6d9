import Mathlib
import Arborist.Proofs.Number.Display
import Arborist.Proofs.Script.EditedPrinting
import Arborist.Proofs.Script.Registered

/-!
Inputs and what they show. An input shows the value it was seeded with, and after every action it
shows the value it sends or, when it sends nothing, the value it showed before. A number being typed
may spell nothing for a while; it then shows any value.
-/

namespace Arborist

namespace Input

def Shows : Input → Value → Prop
  | .choice _ current, value => current = value.display
  | .text content, value => value = .string content
  | .number buffer, value =>
    ∀ n, bufferNumber? buffer = some n → ∃ m, value = .number m ∧ m.agrees n = true
  | .toggle checked, value => value = .bool checked

theorem isFinite_of_bufferNumber? {buffer : String} {n : Number}
    (read : bufferNumber? buffer = some n) : n.isFinite = true := by
  unfold bufferNumber? signedNumber? at read
  split at read
  split at read
  · simp at read
  · dsimp only at read
    split at read
    · rename_i finite
      cases read
      exact finite
    · simp at read

end Input

namespace InputKind

def Makes : InputKind → Input → Prop
  | .choice options, input => ∃ current, input = .choice options current
  | .text, input => ∃ content, input = .text content
  | .number, input => ∃ buffer, input = .number buffer
  | .toggle, input => ∃ checked, input = .toggle checked

/-- A value that an input of the kind sends: of its shape, and no number that is not finite. -/
structure Sendable (kind : InputKind) (value : Value) : Prop where
  takes : kind.Takes value
  finite : ∀ n, value = .number n → n.isFinite = true

theorem makes_seed (kind : InputKind) (value : Value) : kind.Makes (kind.seed value) := by
  cases kind <;> exact ⟨_, rfl⟩

theorem shows_seed {kind : InputKind} {value : Value} (holds : kind.Holds value) :
    (kind.seed value).Shows value := by
  cases kind with
  | choice options => rfl
  | text =>
    obtain ⟨text, rfl⟩ := holds
    rfl
  | toggle =>
    obtain ⟨b, rfl⟩ := holds
    rfl
  | number =>
    obtain ⟨n, rfl⟩ := holds
    intro read found
    refine ⟨n, rfl, ?_⟩
    have shown : Input.bufferNumber? n.display = some read := found
    cases n with
    | nan =>
      have nothing : Input.bufferNumber? (Number.display .nan) = none := by decide
      rw [nothing] at shown
      simp at shown
    | infinity negative =>
      have nothing : Input.bufferNumber? (Number.display (.infinity negative)) = none := by
        cases negative <;> decide
      rw [nothing] at shown
      simp at shown
    | finite negative m e canonical =>
      rw [Input.bufferNumber?_display, Option.some.injEq] at shown
      subst shown
      exact Number.agrees_unsigned negative canonical

end InputKind

/-- The answer of an input of the kind that showed the value: it sends nothing and still shows that
value, or it sends one value, and shows that. -/
structure Response.Faithful (kind : InputKind) (value : Value) (r : Response) : Prop where
  made : kind.Makes r.input
  shows : (r.sent = [] ∧ r.input.Shows value) ∨
    ∃ v, r.sent = [v] ∧ kind.Sendable v ∧ r.input.Shows v

theorem Response.Faithful.sendable {kind : InputKind} {value : Value} {r : Response}
    (faithful : r.Faithful kind value) : ∀ v ∈ r.sent, kind.Sendable v := by
  intro v member
  rcases faithful.shows with ⟨silent, -⟩ | ⟨w, sent, sendable, -⟩
  · simp [silent] at member
  · rw [sent, List.mem_singleton] at member
    exact member ▸ sendable

namespace Input

open Response (Faithful)

variable {kind : InputKind} {value : Value}

theorem faithful_pick (options : List String) {current : String} (shows : current = value.display)
    (i : Nat) : Faithful (.choice options) value (Choice.pick options current i) := by
  unfold Choice.pick
  split
  · rename_i option found
    refine ⟨⟨option, rfl⟩, .inr ⟨.string option, rfl, ⟨?_, by simp⟩, rfl⟩⟩
    exact ⟨option, List.mem_of_getElem? found, rfl⟩
  · exact ⟨⟨current, rfl⟩, .inl ⟨rfl, shows⟩⟩

theorem faithful_select (options : List String) {current : String} (shows : current = value.display)
    (option : String) : Faithful (.choice options) value (Choice.select options current option) := by
  unfold Choice.select
  split
  · rename_i listed
    refine ⟨⟨option, rfl⟩, .inr ⟨.string option, rfl, ⟨?_, by simp⟩, rfl⟩⟩
    exact ⟨option, by simpa using listed, rfl⟩
  · exact ⟨⟨current, rfl⟩, .inl ⟨rfl, shows⟩⟩

theorem faithful_text (content : String) : Faithful .text value (FreeText.changed content) :=
  ⟨⟨content, rfl⟩, .inr ⟨.string content, rfl, ⟨⟨content, rfl⟩, by simp⟩, rfl⟩⟩

theorem faithful_number (buffer : String) : Faithful .number value (Numeric.changed buffer) := by
  refine ⟨⟨buffer, rfl⟩, ?_⟩
  cases read : bufferNumber? buffer with
  | none =>
    refine .inl ⟨by simp [Numeric.changed, read], fun n spelled => ?_⟩
    simp [read] at spelled
  | some n =>
    have finite := isFinite_of_bufferNumber? read
    refine .inr ⟨.number n, by simp [Numeric.changed, read], ⟨⟨n, rfl⟩, ?_⟩, fun m again => ?_⟩
    · rintro m ⟨⟩
      exact finite
    · rw [read, Option.some.injEq] at again
      subst again
      exact ⟨n, rfl, Number.agrees_self (by rintro rfl; simp [Number.isFinite] at finite)⟩

theorem faithful_setText {buffer : String} (shows : (Input.number buffer).Shows value) (text : String) :
    Faithful .number value (Numeric.setText buffer text) := by
  unfold Numeric.setText
  dsimp only
  split
  · exact faithful_number _
  · exact ⟨⟨buffer, rfl⟩, .inl ⟨rfl, shows⟩⟩

theorem faithful_flag (checked : Bool) : Faithful .toggle value (Flag.set checked) :=
  ⟨⟨checked, rfl⟩, .inr ⟨.bool checked, rfl, ⟨⟨checked, rfl⟩, by simp⟩, rfl⟩⟩

theorem faithful_enterNumber {buffer : String} (shows : (Input.number buffer).Shows value)
    (text : String) : Faithful .number value (Numeric.enter buffer text) := by
  have set := faithful_setText shows text
  unfold Numeric.enter
  dsimp only
  split
  · split
    · exact ⟨set.made, set.shows⟩
    · exact set
  · exact set

theorem faithful_enterFlag {checked : Bool} (shows : (Input.toggle checked).Shows value)
    (text : String) : Faithful .toggle value (Flag.enter checked text) := by
  unfold Flag.enter
  dsimp only
  split
  · exact faithful_flag true
  · split
    · exact faithful_flag false
    · exact ⟨⟨checked, rfl⟩, .inl ⟨rfl, shows⟩⟩

theorem faithful_enter {input : Input} (made : kind.Makes input) (shows : input.Shows value)
    (text : String) : Faithful kind value (input.enter text) := by
  cases kind with
  | choice options =>
    obtain ⟨current, rfl⟩ := made
    exact faithful_select options shows text
  | text =>
    obtain ⟨content, rfl⟩ := made
    exact faithful_text text
  | number =>
    obtain ⟨buffer, rfl⟩ := made
    exact faithful_enterNumber shows text
  | toggle =>
    obtain ⟨checked, rfl⟩ := made
    exact faithful_enterFlag shows text

/-- After any action an input shows what it sent, or what it showed before. -/
theorem faithful_act? {input : Input} (made : kind.Makes input) (shows : input.Shows value)
    {action : Action} {r : Response} (acted : input.act? action = some r) : Faithful kind value r := by
  cases kind with
  | choice options =>
    obtain ⟨current, rfl⟩ := made
    cases action <;> simp only [act?, Option.some.injEq, reduceCtorEq] at acted <;> subst acted
    · exact faithful_select options shows _
    · exact faithful_select options shows _
    · unfold Choice.next
      split <;> exact faithful_pick options shows _
    · unfold Choice.previous
      split <;> exact faithful_pick options shows _
  | text =>
    obtain ⟨content, rfl⟩ := made
    cases action <;> simp only [act?, Option.some.injEq, reduceCtorEq] at acted <;> subst acted
    · exact faithful_text _
    · exact faithful_text _
    · unfold FreeText.backspace
      split
      · exact ⟨⟨content, rfl⟩, .inl ⟨rfl, shows⟩⟩
      · exact faithful_text _
    · exact faithful_text _
  | number =>
    obtain ⟨buffer, rfl⟩ := made
    cases action <;> simp only [act?, Option.some.injEq, reduceCtorEq] at acted <;> subst acted
    · exact faithful_enterNumber shows _
    · unfold Numeric.insert
      split
      · exact faithful_number _
      · exact ⟨⟨buffer, rfl⟩, .inl ⟨rfl, shows⟩⟩
    · unfold Numeric.backspace
      split
      · exact ⟨⟨buffer, rfl⟩, .inl ⟨rfl, shows⟩⟩
      · exact faithful_number _
    · exact faithful_setText shows _
    · exact faithful_number _
    · exact faithful_number _
  | toggle =>
    obtain ⟨checked, rfl⟩ := made
    cases action <;> simp only [act?, Option.some.injEq, reduceCtorEq] at acted <;> subst acted
    · exact faithful_enterFlag shows _
    · exact faithful_flag _
    · exact faithful_flag _

end Input

end Arborist

import Mathlib
import Arborist.Proofs.Source.Spelling

/-!
Text put together from chunks. A chunk is a gap of blanks or the spelling of a token; where the
chunks fit together, the scanner reads exactly their tokens off the text, each at its offset and
with the line feeds of the gap before it.
-/

namespace Arborist

theorem Text.byteLength_append (front rest : List Char) :
    Text.byteLength (front ++ rest) = Text.byteLength front + Text.byteLength rest := by
  induction front with
  | nil => simp [Text.byteLength]
  | cons c more ih => simp [Text.byteLength, ih, Nat.add_assoc]

inductive Chunk where
  | gap (blanks : List Char)
  | token (kind : Token.Kind)

namespace Chunk

open Token (Kind)

def text : Chunk → List Char
  | .gap blanks => blanks
  | .token kind => kind.spelling

def mark (m : Mark) : Chunk := .token (.mark m)

def blank : Chunk := .gap [' ']

def enclosed (needs : Bool) (chunks : List Chunk) : List Chunk :=
  if needs then mark .openParen :: (chunks ++ [mark .closeParen]) else chunks

def separated : List (List Chunk) → List Chunk
  | [] => []
  | [part] => part
  | part :: rest => part ++ mark .comma :: blank :: separated rest

def render (chunks : List Chunk) : List Char := chunks.flatMap text

@[simp] theorem render_nil : render [] = [] := rfl

@[simp] theorem render_cons (chunk : Chunk) (rest : List Chunk) :
    render (chunk :: rest) = chunk.text ++ render rest := by simp [render]

@[simp] theorem render_append (front rest : List Chunk) :
    render (front ++ rest) = render front ++ render rest := by simp [render]

theorem render_separated (parts : List (List Chunk)) :
    render (separated parts) =
      (Text.join ", " (parts.map fun part => String.ofList (render part))).toList := by
  fun_induction separated parts with
  | case1 => rfl
  | case2 part => simp [Text.join]
  | case3 part rest notNil ih =>
    obtain ⟨next, more, rfl⟩ := List.exists_cons_of_ne_nil notNil
    simp only [render_append, render_cons, ih, List.map_cons, Text.join]
    simp [mark, blank, text, Kind.spelling, Mark.text]

/-- Every gap is blank, and every token is spelled and apart from what follows it, with `after`
behind the last chunk. -/
def Fits : List Chunk → List Char → Prop
  | [], _ => True
  | .gap blanks :: rest, after => blanks.all Text.isBlank = true ∧ Fits rest after
  | .token kind :: rest, after =>
    kind.Spelled ∧ kind.Apart (render rest ++ after) ∧ Fits rest after

theorem fits_append {front rest : List Chunk} {after : List Char} :
    Fits (front ++ rest) after ↔ Fits front (render rest ++ after) ∧ Fits rest after := by
  induction front with
  | nil => simp [Fits]
  | cons chunk more ih =>
    cases chunk with
    | gap blanks => simp [Fits, ih, and_assoc]
    | token kind => simp [Fits, ih, and_assoc]

def place (offset : Nat) (newline : Bool) : List Chunk → List Token
  | [] => []
  | .gap blanks :: rest =>
    place (offset + Text.byteLength blanks) (newline || blanks.contains '\n') rest
  | .token kind :: rest =>
    let stop := offset + Text.byteLength kind.spelling
    ⟨kind, offset, stop, newline⟩ :: place stop false rest

def signs (newline : Bool) : List Chunk → List (Kind × Bool)
  | [] => []
  | .gap blanks :: rest => signs (newline || blanks.contains '\n') rest
  | .token kind :: rest => (kind, newline) :: signs false rest

def endsLine (newline : Bool) : List Chunk → Bool
  | [] => newline
  | .gap blanks :: rest => endsLine (newline || blanks.contains '\n') rest
  | .token _ :: rest => endsLine false rest

theorem signs_append (newline : Bool) (front rest : List Chunk) :
    signs newline (front ++ rest) = signs newline front ++ signs (endsLine newline front) rest := by
  induction front generalizing newline with
  | nil => rfl
  | cons chunk more ih => cases chunk <;> simp [signs, endsLine, ih]

theorem endsLine_append (newline : Bool) (front rest : List Chunk) :
    endsLine newline (front ++ rest) = endsLine (endsLine newline front) rest := by
  induction front generalizing newline with
  | nil => rfl
  | cons chunk more ih => cases chunk <;> simp [endsLine, ih]

def EndsInLine (chunks : List Chunk) : Prop := ∀ newline, endsLine newline chunks = false

theorem endsInLine_token (kind : Kind) : EndsInLine [.token kind] := fun _ => rfl

theorem EndsInLine.append {rest : List Chunk} (ends : EndsInLine rest) (front : List Chunk) :
    EndsInLine (front ++ rest) := by
  intro newline
  rw [endsLine_append]
  exact ends _

theorem EndsInLine.cons {rest : List Chunk} (ends : EndsInLine rest) (chunk : Chunk) :
    EndsInLine (chunk :: rest) := ends.append [chunk]

theorem EndsInLine.enclosed {chunks : List Chunk} (ends : EndsInLine chunks) (needs : Bool) :
    EndsInLine (enclosed needs chunks) := by
  cases needs with
  | false => exact ends
  | true => exact ((endsInLine_token _).append chunks).cons _

theorem endsInLine_separated {parts : List (List Chunk)} (some : parts ≠ [])
    (ends : ∀ part ∈ parts, EndsInLine part) : EndsInLine (separated parts) := by
  fun_induction separated parts with
  | case1 => exact absurd rfl some
  | case2 part => exact ends part List.mem_cons_self
  | case3 part rest notNil ih =>
    have last := ih notNil fun inner member => ends inner (List.mem_cons_of_mem part member)
    exact ((last.cons _).cons _).append part

/-- Tokens with the kinds and the line feeds of the chunks, wherever they stand. -/
def Spells (ts : List Token) (newline : Bool) (chunks : List Chunk) : Prop :=
  ts.map (fun t => (t.kind, t.newlineBefore)) = signs newline chunks

theorem spells_nil {ts : List Token} {newline : Bool} : Spells ts newline [] ↔ ts = [] := by
  simp [Spells, signs]

theorem spells_gap {ts : List Token} {newline : Bool} {blanks : List Char} {rest : List Chunk} :
    Spells ts newline (.gap blanks :: rest) ↔
      Spells ts (newline || blanks.contains '\n') rest := by
  simp only [Spells, signs]

theorem spells_blank {ts : List Token} {newline : Bool} {rest : List Chunk} :
    Spells ts newline (blank :: rest) ↔ Spells ts newline rest := by
  rw [blank, spells_gap]
  simp

theorem spells_token {ts : List Token} {newline : Bool} {kind : Kind} {rest : List Chunk} :
    Spells ts newline (.token kind :: rest) ↔
      ∃ t us, ts = t :: us ∧ t.kind = kind ∧ t.newlineBefore = newline ∧ Spells us false rest := by
  simp [Spells, signs, List.map_eq_cons_iff, and_assoc]

theorem spells_single {ts : List Token} {newline : Bool} {kind : Kind} :
    Spells ts newline [.token kind] ↔
      ∃ t, ts = [t] ∧ t.kind = kind ∧ t.newlineBefore = newline := by
  simp [spells_token, spells_nil]

theorem spells_append {ts : List Token} {newline : Bool} {front rest : List Chunk} :
    Spells ts newline (front ++ rest) ↔
      ∃ us vs, ts = us ++ vs ∧ Spells us newline front ∧
        Spells vs (endsLine newline front) rest := by
  simp [Spells, signs_append, List.map_eq_append_iff]

theorem spells_place (offset : Nat) (newline : Bool) (chunks : List Chunk) :
    Spells (place offset newline chunks) newline chunks := by
  unfold Spells
  induction chunks generalizing offset newline with
  | nil => rfl
  | cons chunk more ih => cases chunk <;> simp [signs, place, ih]

theorem place_append (offset : Nat) (newline : Bool) (front rest : List Chunk) :
    place offset newline (front ++ rest) = place offset newline front ++
      place (offset + Text.byteLength (render front)) (endsLine newline front) rest := by
  induction front generalizing offset newline with
  | nil => rfl
  | cons chunk more ih =>
    cases chunk <;> simp [place, endsLine, text, ih, Text.byteLength_append, Nat.add_assoc]

def Stands (text : List Char) (offset : Nat) (ts : List Token) (newline : Bool)
    (chunks : List Chunk) : Prop :=
  ∃ front after, text = front ++ (render chunks ++ after) ∧ Text.byteLength front = offset ∧
    ts = place offset newline chunks

namespace Stands

variable {source : List Char} {offset : Nat} {ts : List Token} {newline : Bool}

theorem spells {chunks : List Chunk} (stands : Stands source offset ts newline chunks) :
    Spells ts newline chunks := by
  obtain ⟨front, after, -, -, rfl⟩ := stands
  exact spells_place offset newline chunks

theorem append {front rest : List Chunk} (stands : Stands source offset ts newline (front ++ rest)) :
    ∃ us vs, ts = us ++ vs ∧ Stands source offset us newline front ∧
      Stands source (offset + Text.byteLength (render front)) vs (endsLine newline front) rest := by
  obtain ⟨before, after, rfl, rfl, rfl⟩ := stands
  refine ⟨_, _, place_append _ newline front rest, ⟨before, render rest ++ after, ?_, rfl, rfl⟩,
    before ++ render front, after, ?_, Text.byteLength_append _ _, rfl⟩
  · simp
  · simp

theorem gap {blanks : List Char} {rest : List Chunk}
    (stands : Stands source offset ts newline (.gap blanks :: rest)) :
    Stands source (offset + Text.byteLength blanks) ts (newline || blanks.contains '\n') rest := by
  obtain ⟨before, after, rfl, rfl, rfl⟩ := stands
  exact ⟨before ++ blanks, after, by simp [text], Text.byteLength_append _ _, rfl⟩

theorem blank {rest : List Chunk} (stands : Stands source offset ts newline (blank :: rest)) :
    Stands source (offset + 1) ts newline rest := by
  have behind := stands.gap
  rwa [show (newline || [' '].contains '\n') = newline by simp] at behind

theorem token {kind : Kind} {rest : List Chunk}
    (stands : Stands source offset ts newline (.token kind :: rest)) :
    ∃ t us, ts = t :: us ∧ t.kind = kind ∧ t.newlineBefore = newline ∧
      Stands source (offset + Text.byteLength kind.spelling) us false rest := by
  obtain ⟨before, after, rfl, rfl, rfl⟩ := stands
  exact ⟨_, _, rfl, rfl, rfl, before ++ kind.spelling, after, by simp [text],
    Text.byteLength_append _ _, rfl⟩

end Stands

def Closes (chunks : List Chunk) : Prop := ∃ front kind, chunks = front ++ [.token kind]

theorem closes_token (kind : Kind) : Closes [.token kind] := ⟨[], kind, rfl⟩

theorem Closes.append {rest : List Chunk} (closes : Closes rest) (front : List Chunk) :
    Closes (front ++ rest) := by
  obtain ⟨more, kind, rfl⟩ := closes
  exact ⟨front ++ more, kind, by rw [List.append_assoc]⟩

theorem Closes.cons {rest : List Chunk} (closes : Closes rest) (chunk : Chunk) :
    Closes (chunk :: rest) := closes.append [chunk]

structure Tight (chunks : List Chunk) : Prop where
  opens : ∃ kind rest, chunks = .token kind :: rest
  closes : Closes chunks

theorem Tight.edges {chunks : List Chunk} (tight : Tight chunks) (offset : Nat) (newline : Bool) :
    (place offset newline chunks).head?.map Token.start = some offset ∧
      (place offset newline chunks).getLast?.map Token.stop =
        some (offset + Text.byteLength (render chunks)) := by
  constructor
  · obtain ⟨kind, rest, rfl⟩ := tight.opens
    rfl
  · obtain ⟨front, kind, rfl⟩ := tight.closes
    simp [place_append, place, Text.byteLength_append, text, Nat.add_assoc]

theorem scanFrom_blanks {blanks : List Char} (blank : blanks.all Text.isBlank = true)
    (offset : Nat) (newline : Bool) (after : List Char) :
    Token.scanFrom offset newline (blanks ++ after) =
      Token.scanFrom (offset + Text.byteLength blanks) (newline || blanks.contains '\n') after := by
  induction blanks generalizing offset newline with
  | nil => simp [Text.byteLength]
  | cons c rest ih =>
    simp only [List.all_cons, Bool.and_eq_true] at blank
    have cut : Token.piece c (rest ++ after) = .gap 0 := by simp [Token.piece, blank.1]
    rw [List.cons_append, Token.scanFrom, cut]
    simp only [List.take_zero, List.drop_zero]
    rw [ih blank.2]
    simp [Text.byteLength, Nat.add_assoc, Bool.or_assoc]

/-- The scanner reads fitting chunks one by one. -/
theorem scanFrom_render {chunks : List Chunk} (fits : Fits chunks []) (offset : Nat)
    (newline : Bool) :
    Token.scanFrom offset newline (render chunks) =
      .ok (place offset newline chunks ++
        [⟨.finish, offset + Text.byteLength (render chunks),
          offset + Text.byteLength (render chunks), endsLine newline chunks⟩]) := by
  induction chunks generalizing offset newline with
  | nil => simp [Token.scanFrom, place, endsLine, Text.byteLength]
  | cons chunk more ih =>
    cases chunk with
    | gap blanks =>
      rw [render_cons, text, scanFrom_blanks fits.1, ih fits.2]
      simp [place, endsLine, Text.byteLength_append, Nat.add_assoc]
    | token kind =>
      obtain ⟨spelled, apart, rest⟩ := fits
      rw [List.append_nil] at apart
      obtain ⟨c, cs, shape, cut⟩ := Token.piece_of_spelled spelled apart
      rw [render_cons, text, shape, List.cons_append, Token.scanFrom, cut]
      simp only [List.take_left', List.drop_left']
      rw [ih rest]
      simp [place, endsLine, shape, Text.byteLength, Text.byteLength_append, Nat.add_assoc]

end Chunk

end Arborist

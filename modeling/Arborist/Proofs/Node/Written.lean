import Mathlib
import Arborist.Proofs.Number.Display
import Arborist.Shell.Command

/-!
Written paths. A path whose steps go through fields with plain names, to places that a word can
count, is written without blanks and without a dot inside a step; so it is read back as it was.
Every path that is read from a text is such a path.
-/

namespace Arborist

namespace Text

theorem isBlank_of_isAlphanumeric {c : Char} (letter : isAlphanumeric c = true) :
    isBlank c = false := by
  unfold isAlphanumeric at letter
  split at letter
  · rename_i low
    have ascii : ∀ n < 0x80, (Char.ofNat n).isAlphanum = true → isBlank (Char.ofNat n) = false := by
      decide
    have this := ascii c.toNat low
    rw [Char.ofNat_toNat] at this
    exact this letter
  · have apart : ∀ blank ∈ blankRanges, ∀ range ∈ alphanumericRanges,
        blank.2 < range.1 ∨ range.2 < blank.1 := by decide +kernel
    obtain ⟨range, inside, here⟩ := List.any_eq_true.1 letter
    simp only [Bool.and_eq_true, decide_eq_true_eq] at here
    apply List.any_eq_false.2
    intro blank member both
    simp only [Bool.and_eq_true, decide_eq_true_eq] at both
    have := apart blank member range inside
    omega

section Split

variable {cut : Char → Bool} {front : List Char}

theorem splitWhere_of_whole (whole : ∀ c ∈ front, cut c = false) :
    splitWhere cut front = [front] := by
  induction front with
  | nil => rfl
  | cons c rest ih =>
    obtain ⟨first, others⟩ := List.forall_mem_cons.1 whole
    simp [splitWhere, first, ih others]

theorem splitWhere_ne_nil (cs : List Char) : splitWhere cut cs ≠ [] := by
  cases cs with
  | nil => simp [splitWhere]
  | cons c rest =>
    rw [splitWhere]
    split
    · simp
    · split <;> simp

theorem splitWhere_append {c : Char} (cuts : cut c = true) (front rest : List Char) :
    splitWhere cut (front ++ c :: rest) = splitWhere cut front ++ splitWhere cut rest := by
  induction front with
  | nil => simp [splitWhere, cuts]
  | cons d more ih =>
    obtain ⟨part, parts, shape⟩ := List.exists_cons_of_ne_nil (splitWhere_ne_nil more)
    rw [List.cons_append, splitWhere, ih, splitWhere, shape]
    split <;> rfl

end Split

/-- Parts that are joined by a character that none of them has are its parts again. -/
theorem split_join {parts : List String} (some : parts ≠ [])
    (whole : ∀ part ∈ parts, '.' ∉ part.toList) :
    split '.' (join "." parts).toList = parts.map String.toList := by
  have clear {part : String} (free : '.' ∉ part.toList) :
      ∀ c ∈ part.toList, (c == '.') = false := by
    intro c member
    apply beq_false_of_ne
    rintro rfl
    exact free member
  induction parts with
  | nil => exact absurd rfl some
  | cons part rest ih =>
    obtain ⟨first, others⟩ := List.forall_mem_cons.1 whole
    cases rest with
    | nil => exact splitWhere_of_whole (clear first)
    | cons next more =>
      have behind := ih (List.cons_ne_nil next more) others
      have parted : splitWhere (· == '.') (part.toList ++ '.' :: (join "." (next :: more)).toList) =
          splitWhere (· == '.') part.toList ++ splitWhere (· == '.') (join "." (next :: more)).toList :=
        splitWhere_append (by decide) _ _
      rw [splitWhere_of_whole (clear first)] at parted
      rw [join, String.toList_append, String.toList_append, List.append_assoc, List.map_cons,
        ← behind]
      · exact parted
      · simp

theorem mem_join {parts : List String} {c : Char} (member : c ∈ (join "." parts).toList) :
    c = '.' ∨ ∃ part ∈ parts, c ∈ part.toList := by
  induction parts with
  | nil => simp [join] at member
  | cons part rest ih =>
    cases rest with
    | nil => exact .inr ⟨part, List.mem_cons_self, member⟩
    | cons next more =>
      rw [join, String.toList_append, String.toList_append] at member
      · rcases List.mem_append.1 member with front | behind
        · rcases List.mem_append.1 front with here | point
          · exact .inr ⟨part, List.mem_cons_self, here⟩
          · exact .inl (List.mem_singleton.1 point)
        · rcases ih behind with point | ⟨other, among, there⟩
          · exact .inl point
          · exact .inr ⟨other, List.mem_cons_of_mem _ among, there⟩
      · simp

end Text

theorem Decimal.readCount?_digitText {n : Nat} (counted : n < wordSize) :
    readCount? (digitText n).toList = some n := by
  have digits := Layout.toDigits_isDigit n
  have unsigned (rest : List Char) : Nat.toDigits 10 n ≠ '+' :: rest := by
    intro signed
    rw [signed, List.all_cons] at digits
    exact absurd digits (by simp [show Char.isDigit '+' = false from rfl])
  rw [digitText, String.toList_ofList, readCount?]
  · simp [digits, counted]
  · exact unsigned

theorem Decimal.lt_of_readCount? {cs : List Char} {n : Nat} (read : readCount? cs = some n) :
    n < wordSize := by
  unfold readCount? at read
  dsimp only at read
  split_ifs at read with none counted
  cases read
  exact counted

namespace Step

def isPlainName (name : String) : Bool :=
  !name.toList.isEmpty && name.toList.all isFieldChar

/-- A step that can be written: through a field with a plain name, to a place that a word counts. -/
structure Plain (step : Step) : Prop where
  named : isPlainName step.field = true
  counted : ∀ i ∈ step.index, i < wordSize

theorem Plain.letters {step : Step} (plain : step.Plain) :
    step.field.toList ≠ [] ∧ step.field.toList.all isFieldChar = true := by
  simpa only [isPlainName, Bool.and_eq_true, Bool.not_eq_true', List.isEmpty_eq_false_iff] using
    plain.named

theorem isFieldChar_cases {c : Char} (letter : isFieldChar c = true) :
    Text.isBlank c = false ∧ c ≠ '.' ∧ c ≠ '[' := by
  rcases Bool.or_eq_true_iff.1 letter with alphanumeric | underscore
  · refine ⟨Text.isBlank_of_isAlphanumeric alphanumeric, ?_, ?_⟩
    · rintro rfl
      exact absurd alphanumeric (by decide)
    · rintro rfl
      exact absurd alphanumeric (by decide)
  · rw [eq_of_beq underscore]
    decide

theorem isFieldChar_of_isDigit {c : Char} (digit : c.isDigit = true) : isFieldChar c = true := by
  have low : c.toNat < 0x80 := by
    simp only [Char.isDigit, ge_iff_le, Bool.and_eq_true, decide_eq_true_eq] at digit
    have : c.toNat ≤ 57 := digit.2
    omega
  simp [isFieldChar, Text.isAlphanumeric, low, Char.isAlphanum, digit]

variable {step : Step}

theorem Plain.solid (plain : step.Plain) :
    ∀ c ∈ step.text.toList, Text.isBlank c = false ∧ c ≠ '.' := by
  have letter {c : Char} (isLetter : isFieldChar c = true) : Text.isBlank c = false ∧ c ≠ '.' :=
    ⟨(isFieldChar_cases isLetter).1, (isFieldChar_cases isLetter).2.1⟩
  have field : ∀ c ∈ step.field.toList, Text.isBlank c = false ∧ c ≠ '.' := fun c member =>
    letter (List.all_eq_true.1 plain.letters.2 c member)
  intro c member
  unfold text at member
  cases index : step.index with
  | none =>
    simp only [index] at member
    exact field c member
  | some i =>
    simp only [index, String.toList_append, List.mem_append] at member
    rcases member with ((front | opening) | digit) | closing
    · exact field c front
    · rw [List.mem_singleton.1 opening]
      decide
    · rw [Decimal.digitText, String.toList_ofList] at digit
      exact letter (isFieldChar_of_isDigit
        (List.all_eq_true.1 (Layout.toDigits_isDigit i) c digit))
    · rw [List.mem_singleton.1 closing]
      decide

theorem Plain.text_ne_nil (plain : step.Plain) : step.text.toList ≠ [] := by
  unfold text
  split <;> simp [plain.letters.1]

theorem read_text (plain : step.Plain) : read step.text.toList = .ok step := by
  obtain ⟨field, index⟩ := step
  have inside : field.toList.all (· != '[') = true := by
    refine List.all_eq_true.2 fun c member => bne_iff_ne.2 ?_
    exact (isFieldChar_cases (List.all_eq_true.1 plain.letters.2 c member)).2.2
  have fieldOk : (!field.toList.isEmpty && field.toList.all isFieldChar) = true := plain.named
  cases index with
  | none =>
    obtain ⟨front, behind⟩ := takeWhile_append_stop inside
      (show ∀ c ∈ ([] : List Char).head?, (c != '[') = false by simp)
    rw [List.append_nil] at front behind
    simp only [text, read, front, behind, fieldOk, if_true, String.ofList_toList]
  | some i =>
    have counted := Decimal.readCount?_digitText (plain.counted i rfl)
    have shape : (text ⟨field, some i⟩).toList =
        field.toList ++ '[' :: ((Decimal.digitText i).toList ++ [']']) := by
      simp [text]
    have stop : ∀ c ∈ ('[' :: ((Decimal.digitText i).toList ++ [']'])).head?, (c != '[') = false :=
      by simp
    obtain ⟨front, behind⟩ := takeWhile_append_stop inside stop
    rw [shape]
    simp only [read, front, behind, fieldOk, if_true, String.ofList_toList, List.getLast?_concat,
      List.dropLast_concat, counted]

theorem plain_of_read {cs : List Char} (run : read cs = .ok step) : step.Plain := by
  have named {field : List Char} (ok : (!field.isEmpty && field.all isFieldChar) = true) :
      isPlainName (String.ofList field) = true := by
    rw [isPlainName, String.toList_ofList]
    exact ok
  unfold read at run
  dsimp only at run
  split at run
  · split at run
    · rename_i fieldOk
      cases run
      exact ⟨named fieldOk, by simp⟩
    · cases run
  · split at run
    · split at run
      · rename_i i counted
        split at run
        · rename_i fieldOk
          cases run
          refine ⟨named fieldOk, fun j same => ?_⟩
          cases same
          exact Decimal.lt_of_readCount? counted
        · cases run
      · cases run
    · cases run

end Step

namespace Path

def Plain (path : Path) : Prop := ∀ step ∈ path, step.Plain

variable {path : Path}

theorem readSteps_text (plain : path.Plain) :
    readSteps ((path.map Step.text).map String.toList) = .ok path := by
  induction path with
  | nil => rfl
  | cons step rest ih =>
    obtain ⟨first, others⟩ := List.forall_mem_cons.1 plain
    simp only [List.map_cons, readSteps, Step.read_text first, ih others]

theorem Plain.solid (plain : path.Plain) : ∀ c ∈ path.text.toList, Text.isBlank c = false := by
  intro c member
  unfold text at member
  split at member
  · rw [List.mem_singleton.1 member]
    decide
  · rcases Text.mem_join member with rfl | ⟨part, among, there⟩
    · decide
    · obtain ⟨step, inside, rfl⟩ := List.mem_map.1 among
      exact ((plain step inside).solid c there).1

theorem split_text (plain : path.Plain) (below : path ≠ []) :
    Text.split '.' path.text.toList = (path.map Step.text).map String.toList := by
  have join : path.text = Text.join "." (path.map Step.text) := by
    simp [text, below]
  rw [join]
  apply Text.split_join
  · simpa using below
  · intro part among dotted
    obtain ⟨step, inside, rfl⟩ := List.mem_map.1 among
    exact ((plain step inside).solid '.' dotted).2 rfl

theorem Plain.text_ne_nil (plain : path.Plain) : path.text.toList ≠ [] := by
  cases path with
  | nil => decide
  | cons step rest =>
    intro empty
    have parts := split_text plain (List.cons_ne_nil step rest)
    rw [empty] at parts
    exact (plain step List.mem_cons_self).text_ne_nil (List.cons.inj parts).1.symm

theorem ofText_text (plain : path.Plain) : ofText path.text = .ok path := by
  cases path with
  | nil => rfl
  | cons step rest =>
    have parts := split_text plain (List.cons_ne_nil step rest)
    have filled := plain.text_ne_nil
    have longer : (text (step :: rest)).toList ≠ ['.'] := by
      intro point
      rw [point] at parts
      exact (plain step List.mem_cons_self).text_ne_nil (List.cons.inj parts).1.symm
    rw [ofText, Text.trimChars_of_solid plain.solid]
    simp only [filled, longer, or_self, if_false, parts]
    exact readSteps_text plain

theorem plain_of_readSteps {segments : List (List Char)} (run : readSteps segments = .ok path) :
    path.Plain := by
  induction segments generalizing path with
  | nil =>
    cases run
    simp [Plain]
  | cons segment rest ih =>
    rw [readSteps] at run
    split at run
    · cases run
    · rename_i step first
      split at run
      · cases run
      · rename_i others behind
        cases run
        exact List.forall_mem_cons.2 ⟨Step.plain_of_read first, ih behind⟩

theorem plain_of_ofText {s : String} (run : ofText s = .ok path) : path.Plain := by
  unfold ofText at run
  dsimp only at run
  split at run
  · cases run
    simp [Plain, root]
  · exact plain_of_readSteps run

/-- A path is read back from its written form exactly if it can be written, and those are the paths
that texts denote; so two texts that denote paths are written alike only if they denote the same. -/
theorem text_denotes :
    (∀ path : Path, path.Plain → ofText path.text = .ok path) ∧
    (∀ (s : String) (path : Path), ofText s = .ok path →
      path.Plain ∧ ofText path.text = .ok path) ∧
    ∀ (s t : String) (p q : Path), ofText s = .ok p → ofText t = .ok q →
      (p.text = q.text ↔ p = q) := by
  refine ⟨fun path => ofText_text, fun s path run => ?_, fun s t p q first second => ?_⟩
  · have plain := plain_of_ofText run
    exact ⟨plain, ofText_text plain⟩
  · constructor
    · intro same
      have again := ofText_text (plain_of_ofText first)
      rw [same, ofText_text (plain_of_ofText second)] at again
      exact (Except.ok.inj again).symm
    · intro same
      rw [same]

/-- Blanks around the text, a sign and zeros before the index do not show in the written form. -/
theorem text_denotes_index :
    let path : Path := [⟨"body", some 7⟩, ⟨"größe_2", none⟩]
    path.Plain ∧ ofText path.text = .ok path ∧ ofText " body[+007].größe_2\n" = .ok path ∧
      path.text = "body[7].größe_2" := by
  intro path
  obtain ⟨-, accepted, -⟩ := text_denotes
  have run : ofText " body[+007].größe_2\n" = .ok path := by decide +kernel
  obtain ⟨plain, again⟩ := accepted _ path run
  exact ⟨plain, again, run, by decide +kernel⟩

end Path

end Arborist

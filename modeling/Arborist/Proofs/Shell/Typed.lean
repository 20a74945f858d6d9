import Mathlib
import Arborist.Proofs.Node.Written
import Arborist.Shell.Command

/-!
Typed commands. The words of a line may stand any blanks apart, and blanks may stand around them: the
line is decoded as the command that its words spell. The value of a `set` command is no word: it goes
from its first character that is not blank to its last, with all that is between them.
-/

namespace Arborist

namespace Text

def Blanks (cs : List Char) : Prop := ∀ c ∈ cs, isBlank c = true

structure Gap (cs : List Char) : Prop where
  blanks : Blanks cs
  some : cs ≠ []

structure Word (cs : List Char) : Prop where
  solid : ∀ c ∈ cs, isBlank c = false
  some : cs ≠ []

structure Trimmed (cs : List Char) : Prop where
  first : ∃ c ∈ cs.head?, isBlank c = false
  last : ∃ c ∈ cs.getLast?, isBlank c = false

instance (cs : List Char) : Decidable (Blanks cs) :=
  decidable_of_iff (cs.all isBlank = true) List.all_eq_true

instance (cs : List Char) : Decidable (Gap cs) :=
  decidable_of_iff (Blanks cs ∧ cs ≠ []) ⟨fun h => ⟨h.1, h.2⟩, fun h => ⟨h.blanks, h.some⟩⟩

instance (cs : List Char) : Decidable (Word cs) :=
  decidable_of_iff (cs.all (fun c => !isBlank c) = true ∧ cs ≠ [])
    ⟨fun h => ⟨by simpa using h.1, h.2⟩, fun h => ⟨by simpa using h.solid, h.some⟩⟩

instance (cs : List Char) : Decidable (Trimmed cs) :=
  decidable_of_iff (cs.head?.any (fun c => !isBlank c) = true ∧
      cs.getLast?.any (fun c => !isBlank c) = true)
    ⟨fun h => ⟨by simpa [Option.any_eq_true] using h.1, by simpa [Option.any_eq_true] using h.2⟩,
      fun h => ⟨by simpa [Option.any_eq_true] using h.first,
        by simpa [Option.any_eq_true] using h.last⟩⟩

theorem blanks_nil : Blanks [] := by simp [Blanks]

theorem Gap.head {gap : List Char} (apart : Gap gap) (rest : List Char) :
    ∀ c ∈ (gap ++ rest).head?, isBlank c = true := by
  intro c member
  obtain ⟨d, more, rfl⟩ := List.exists_cons_of_ne_nil apart.some
  simp only [List.cons_append, List.head?_cons, Option.mem_some_iff] at member
  exact member ▸ apart.blanks d List.mem_cons_self

theorem Trimmed.ne_nil {cs : List Char} (trimmed : Trimmed cs) : cs ≠ [] := by
  rintro rfl
  obtain ⟨c, member, -⟩ := trimmed.first
  simp at member

theorem Word.trimmed {cs : List Char} (word : Word cs) : Trimmed cs := by
  constructor
  · exact ⟨cs.head word.some, by rw [List.head?_eq_some_head word.some]; rfl,
      word.solid _ (List.head_mem word.some)⟩
  · exact ⟨cs.getLast word.some, by rw [List.getLast?_eq_some_getLast word.some]; rfl,
      word.solid _ (List.getLast_mem word.some)⟩

theorem Word.dotted {name : List Char} (named : Word name) : Word ('.' :: name) := by
  constructor
  · exact List.forall_mem_cons.2 ⟨by decide, named.solid⟩
  · simp

theorem Trimmed.between {front back : List Char} (before : Trimmed front) (behind : Trimmed back)
    (middle : List Char) : Trimmed (front ++ (middle ++ back)) := by
  obtain ⟨c, first, solid⟩ := before.first
  obtain ⟨d, last, firm⟩ := behind.last
  constructor
  · exact ⟨c, by rw [List.head?_append, Option.mem_def.1 first]; rfl, solid⟩
  · refine ⟨d, ?_, firm⟩
    rw [List.getLast?_append, List.getLast?_append, Option.mem_def.1 last]
    rfl

section Trimming

variable {before after gap core : List Char}

theorem dropBlank_append (blanks : Blanks before) (cs : List Char) :
    dropBlank (before ++ cs) = dropBlank cs :=
  List.dropWhile_append_of_pos blanks

theorem dropBlank_of_first (first : ∃ c ∈ core.head?, isBlank c = false) (cs : List Char) :
    dropBlank (core ++ cs) = core ++ cs := by
  obtain ⟨c, member, solid⟩ := first
  cases core with
  | nil => simp at member
  | cons d rest =>
    simp only [List.head?_cons, Option.mem_some_iff] at member
    subst member
    simp [dropBlank, solid]

theorem trimChars_surrounded (lead : Blanks before) (trail : Blanks after) (trimmed : Trimmed core) :
    trimChars (before ++ (core ++ after)) = core := by
  have ends : ∃ c ∈ core.reverse.head?, isBlank c = false := by
    rw [List.head?_reverse]
    exact trimmed.last
  have tail : Blanks after.reverse := fun c member => trail c (List.mem_reverse.1 member)
  have back := dropBlank_of_first ends []
  rw [List.append_nil] at back
  rw [trimChars, dropBlank_append lead, dropBlank_of_first trimmed.first, List.reverse_append,
    dropBlank_append tail, back, List.reverse_reverse]

theorem nextWord?_append (blanks : Blanks gap) {word rest : List Char} (isWord : Word word)
    (stop : ∀ c ∈ rest.head?, isBlank c = true) :
    nextWord? (gap ++ (word ++ rest)) = some (word, rest) := by
  have start := dropBlank_of_first isWord.trimmed.first rest
  have inside : word.all (fun c => !isBlank c) = true := by
    refine List.all_eq_true.2 fun c member => ?_
    rw [isWord.solid c member]
    rfl
  obtain ⟨front, behind⟩ := takeWhile_append_stop inside fun c member => by rw [stop c member]; rfl
  obtain ⟨c, others, shape⟩ := List.exists_cons_of_ne_nil isWord.some
  have filled : word ++ rest = c :: (others ++ rest) := by rw [shape, List.cons_append]
  calc nextWord? (gap ++ (word ++ rest))
      = some ((word ++ rest).takeWhile (fun c => !isBlank c),
          (word ++ rest).dropWhile (fun c => !isBlank c)) := by
        rw [nextWord?, dropBlank_append blanks, start, filled]
    _ = some (word, rest) := by rw [front, behind]

end Trimming

section Words

variable {gap word : List Char}

theorem words_append {c : Char} (blank : isBlank c = true) (front rest : List Char) :
    words (front ++ c :: rest) = words front ++ words rest := by
  rw [words, splitWhere_append blank, List.filter_append]
  rfl

theorem words_blanks (blanks : Blanks gap) (rest : List Char) : words (gap ++ rest) = words rest := by
  induction gap with
  | nil => rfl
  | cons c more ih =>
    obtain ⟨first, others⟩ := List.forall_mem_cons.1 blanks
    have cut := words_append first [] (more ++ rest)
    rw [List.nil_append] at cut
    rw [List.cons_append, cut, ih others]
    rfl

theorem words_apart (apart : Gap gap) (front rest : List Char) :
    words (front ++ (gap ++ rest)) = words front ++ words rest := by
  obtain ⟨c, more, rfl⟩ := List.exists_cons_of_ne_nil apart.some
  obtain ⟨first, others⟩ := List.forall_mem_cons.1 apart.blanks
  rw [List.cons_append, words_append first, words_blanks others]

theorem words_word (isWord : Word word) : words word = [word] := by
  rw [words, splitWhere_of_whole isWord.solid]
  simp [isWord.some]

theorem words_ne_nil {cs : List Char} (trimmed : Trimmed cs) : words cs ≠ [] := by
  obtain ⟨c, member, solid⟩ := trimmed.first
  cases cs with
  | nil => simp at member
  | cons d rest =>
    simp only [List.head?_cons, Option.mem_some_iff] at member
    subst member
    have some : splitWhere isBlank rest ≠ [] := splitWhere_ne_nil rest
    obtain ⟨part, parts, shape⟩ := List.exists_cons_of_ne_nil some
    simp [words, splitWhere, solid, shape]

end Words

end Text

namespace Command

open Text

section Lines

variable {before after gap name : String}

theorem ofLine_name (lead : Blanks before.toList) (trail : Blanks after.toList)
    (named : Word name.toList) : ofLine (before ++ "." ++ name ++ after) = ofName name [] := by
  have line : (before ++ "." ++ name ++ after).toList =
      before.toList ++ ('.' :: name.toList ++ after.toList) := by simp
  have first := nextWord?_append blanks_nil named
    (show ∀ c ∈ ([] : List Char).head?, isBlank c = true by simp)
  rw [List.nil_append, List.append_nil] at first
  rw [ofLine, line, trimChars_surrounded lead trail named.dotted.trimmed]
  simp only [first, String.ofList_toList]

/-- A line with arguments: its name and what stands behind the name is all that counts. -/
theorem ofLine_arguments (lead : Blanks before.toList) (trail : Blanks after.toList)
    (named : Word name.toList) (apart : Gap gap.toList) {arguments : String}
    (trimmed : Trimmed arguments.toList) :
    ofLine (before ++ "." ++ name ++ gap ++ arguments ++ after) =
      ofName name (gap.toList ++ arguments.toList) := by
  have line : (before ++ "." ++ name ++ gap ++ arguments ++ after).toList =
      before.toList ++ ('.' :: name.toList ++ (gap.toList ++ arguments.toList) ++ after.toList) := by
    simp
  have first := nextWord?_append blanks_nil named (apart.head arguments.toList)
  rw [List.nil_append] at first
  rw [ofLine, line,
    trimChars_surrounded lead trail (named.dotted.trimmed.between trimmed gap.toList)]
  simp only [List.cons_append, first, String.ofList_toList]

end Lines

variable {path : Path}

theorem readPath_text (plain : path.Plain) : readPath path.text.toList = .ok path := by
  rw [readPath, String.ofList_toList, Path.ofText_text plain]
  rfl

theorem word_text (plain : path.Plain) : Word path.text.toList := ⟨plain.solid, plain.text_ne_nil⟩

theorem readSet_text (plain : path.Plain) {field value g₁ g₂ g₃ : String} (isField : Word field.toList)
    (trimmed : Trimmed value.toList) (first : Gap g₁.toList) (second : Gap g₂.toList)
    (third : Gap g₃.toList) :
    readSet (g₁.toList ++ (path.text ++ g₂ ++ field ++ g₃ ++ value).toList) =
      .ok (.set path field value) := by
  have pathWord := nextWord?_append first.blanks (word_text plain)
    (second.head (field.toList ++ (g₃.toList ++ value.toList)))
  have fieldWord := nextWord?_append second.blanks isField (third.head value.toList)
  have rest : trimChars (g₃.toList ++ value.toList) = value.toList := by
    have kept := trimChars_surrounded third.blanks blanks_nil trimmed
    rwa [List.append_nil] at kept
  have filled : value.toList.isEmpty = false := by simpa using trimmed.ne_nil
  simp only [String.toList_append, List.append_assoc, readSet, pathWord, fieldWord, rest, filled,
    readPath_text plain, String.ofList_toList]
  rfl

inductive Pointer where
  | toggle
  | fields
  | json
  deriving DecidableEq, Repr

namespace Pointer

def name : Pointer → String
  | toggle => "toggle"
  | fields => "fields"
  | json => "json"

def form : Pointer → String
  | toggle => ".toggle <path>"
  | fields => ".fields [path]"
  | json => ".json [path]"

def command : Pointer → Path → Command
  | toggle => .toggle
  | fields => .fields
  | json => .json

theorem named (p : Pointer) : Word p.name.toList := by
  cases p <;> decide

theorem ofName_word (p : Pointer) {rest word : List Char} (alone : words rest = [word]) :
    ofName p.name rest = (readPath word).map p.command := by
  cases p <;> simp only [name, ofName, alone] <;> rfl

theorem ofName_more (p : Pointer) {rest first second : List Char} {others : List (List Char)}
    (more : words rest = first :: second :: others) :
    ofName p.name rest = .error (.usage p.form) := by
  cases p <;> simp only [name, ofName, more] <;> rfl

end Pointer

section Pointing

variable {before after gap : String}

theorem ofLine_pointer (p : Pointer) (plain : path.Plain) (lead : Blanks before.toList)
    (trail : Blanks after.toList) (apart : Gap gap.toList) :
    ofLine (before ++ "." ++ p.name ++ gap ++ path.text ++ after) = .ok (p.command path) := by
  have isWord := word_text plain
  have alone : words (gap.toList ++ path.text.toList) = [path.text.toList] := by
    rw [words_blanks apart.blanks, words_word isWord]
  rw [ofLine_arguments lead trail p.named apart isWord.trimmed, p.ofName_word alone,
    readPath_text plain]
  rfl

theorem ofLine_pointer_more (p : Pointer) (plain : path.Plain) (lead : Blanks before.toList)
    (trail : Blanks after.toList) (apart : Gap gap.toList) {second more : String}
    (between : Gap second.toList) (trimmed : Trimmed more.toList) :
    ofLine (before ++ "." ++ p.name ++ gap ++ (path.text ++ second ++ more) ++ after) =
      .error (.usage p.form) := by
  have isWord := word_text plain
  have shape : (path.text ++ second ++ more).toList =
      path.text.toList ++ (second.toList ++ more.toList) := by simp
  obtain ⟨word, others, further⟩ := List.exists_cons_of_ne_nil (words_ne_nil trimmed)
  have several : words (gap.toList ++ (path.text ++ second ++ more).toList) =
      path.text.toList :: word :: others := by
    rw [words_blanks apart.blanks, shape, words_apart between, words_word isWord, further]
    rfl
  have arguments : Trimmed (path.text ++ second ++ more).toList :=
    shape ▸ isWord.trimmed.between trimmed second.toList
  rw [ofLine_arguments lead trail p.named apart arguments, p.ofName_more several]

end Pointing

theorem ofLine_spaced (p : Pointer) (plain : path.Plain) :
    ofLine ("." ++ p.name ++ " " ++ path.text) = .ok (p.command path) := by
  have decoded := @ofLine_pointer path "" "" " " p plain blanks_nil blanks_nil (by decide +kernel)
  rwa [String.empty_append, String.append_empty] at decoded

/-- A line is decoded as the command that it spells. Blanks of any kind and number may stand around
it and between its words. A `set` command keeps its value as it is written; each of the others takes
one path, or the root if none is given where that is allowed, and no further word. -/
theorem ofLine_spells (path : Path) (plain : path.Plain) (before after : String)
    (lead : Blanks before.toList) (trail : Blanks after.toList) :
    (∀ field value g₁ g₂ g₃ : String, Word field.toList → Trimmed value.toList →
      Gap g₁.toList → Gap g₂.toList → Gap g₃.toList →
      ofLine (before ++ "." ++ "set" ++ g₁ ++ (path.text ++ g₂ ++ field ++ g₃ ++ value) ++ after) =
        .ok (.set path field value)) ∧
    ∀ p : Pointer,
      (∀ gap : String, Gap gap.toList →
        ofLine (before ++ "." ++ p.name ++ gap ++ path.text ++ after) = .ok (p.command path)) ∧
      (p ≠ .toggle → ofLine (before ++ "." ++ p.name ++ after) = .ok (p.command Path.root)) ∧
      ∀ g₁ g₂ more : String, Gap g₁.toList → Gap g₂.toList → Trimmed more.toList →
        ofLine (before ++ "." ++ p.name ++ g₁ ++ (path.text ++ g₂ ++ more) ++ after) =
          .error (.usage p.form) := by
  refine ⟨?_, fun p => ⟨?_, ?_, ?_⟩⟩
  · intro field value g₁ g₂ g₃ isField trimmed first second third
    have arguments := (word_text plain).trimmed.between
      (isField.trimmed.between trimmed g₃.toList) g₂.toList
    have decoded := ofLine_arguments lead trail (show Word "set".toList by decide +kernel) first
      (show Trimmed (path.text ++ g₂ ++ field ++ g₃ ++ value).toList by simpa using arguments)
    rw [decoded]
    exact readSet_text plain isField trimmed first second third
  · intro gap apart
    exact ofLine_pointer p plain lead trail apart
  · intro optional
    rw [ofLine_name lead trail p.named]
    cases p with
    | toggle => exact absurd rfl optional
    | fields | json => rfl
  · intro g₁ g₂ more first second trimmed
    exact ofLine_pointer_more p plain lead trail first second trimmed

/-- A value with a tab and an ideographic space in it, behind other kinds of blanks. -/
theorem ofLine_spells_value :
    let path : Path := [⟨"body", some 1⟩, ⟨"größe_2", none⟩]
    path.Plain ∧
      ofLine "\u2003.set\tbody[1].größe_2\u00a0 name\n\na\t \u3000b.\r" =
        .ok (.set path "name" "a\t \u3000b.") ∧
      ofLine "\u2003.toggle body[1].größe_2 x\r" = .error (.usage ".toggle <path>") := by
  intro path
  have plain : path.Plain := by
    intro step member
    simp only [path, List.mem_cons, List.not_mem_nil, or_false] at member
    rcases member with rfl | rfl
    · exact ⟨by decide +kernel, by decide⟩
    · exact ⟨by decide +kernel, by decide⟩
  obtain ⟨set, pointed⟩ := ofLine_spells path plain "\u2003" "\r" (by decide +kernel) (by decide +kernel)
  have decoded := set "name" "a\t \u3000b." "\t" "\u00a0 " "\n\n" (by decide +kernel)
    (by decide +kernel) (by decide +kernel) (by decide +kernel) (by decide +kernel)
  have rejected := (pointed .toggle).2.2 " " " " "x" (by decide +kernel) (by decide +kernel)
    (by decide +kernel)
  exact ⟨plain, decoded, rejected⟩

end Command

end Arborist

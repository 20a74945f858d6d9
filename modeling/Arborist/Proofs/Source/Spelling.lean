import Mathlib
import Arborist.Proofs.Number.Numeral

/-!
Tokens and their spellings. A token kind is spelled when its own text is read back as it, and it
stands apart from what follows when the first character behind it could not be taken into it. A
spelled kind that stands apart is the piece that the scanner cuts off, and every kind that a scan
answers is spelled.
-/

namespace Arborist

namespace Mark

def takes (m : Mark) (c : Char) : Bool :=
  Mark.all.any (fun longer => (m.text.toList ++ [c]).isPrefixOf longer.text.toList) ||
    (m == .divide && (c == '/' || c == '*')) || (m == .dot && c.isDigit)

def Apart (m : Mark) (after : List Char) : Prop := ∀ c ∈ after.head?, m.takes c = false

theorem text_ne_nil (m : Mark) : m.text.toList ≠ [] := by cases m <;> decide

theorem not_prefix_of_before (m : Mark) :
    ∀ earlier ∈ Mark.all.takeWhile (· != m), ¬ earlier.text.toList <+: m.text.toList := by
  cases m <;> decide

theorem not_startsWith_of_before {m earlier : Mark} {after : List Char} (apart : m.Apart after)
    (before : earlier ∈ Mark.all.takeWhile (· != m)) :
    Token.startsWith (m.text.toList ++ after) earlier = false := by
  by_contra begins
  simp only [Token.startsWith, Bool.not_eq_false, List.isPrefixOf_iff_prefix] at begins
  have notBegun := not_prefix_of_before m earlier before
  rcases List.prefix_or_prefix_of_prefix begins (List.prefix_append _ _) with shorter | ⟨more, longer⟩
  · exact notBegun shorter
  · cases more with
    | nil => exact notBegun (by simp [← longer])
    | cons c rest =>
      have inside : m.text.toList ++ (c :: rest) <+: m.text.toList ++ after := by
        rw [longer]; exact begins
      obtain ⟨tail, eq⟩ := (List.prefix_append_right_inj _).mp inside
      have head : c ∈ after.head? := by simp [← eq]
      have taken : m.takes c = true := by
        simp only [takes, Bool.or_eq_true, List.any_eq_true, List.isPrefixOf_iff_prefix]
        exact Or.inl (Or.inl ⟨earlier, mem_all earlier, rest, by simp [← longer]⟩)
      rw [apart c head] at taken
      exact absurd taken (by decide)

theorem find_of_apart {m : Mark} {after : List Char} (apart : m.Apart after) :
    Mark.all.find? (Token.startsWith (m.text.toList ++ after)) = some m := by
  have split : Mark.all = Mark.all.takeWhile (· != m) ++ m :: (Mark.all.dropWhile (· != m)).tail := by
    cases m <;> decide
  have begins : Token.startsWith (m.text.toList ++ after) m = true := by
    simp [Token.startsWith, List.isPrefixOf_iff_prefix]
  rw [split, List.find?_append, List.find?_eq_none.mpr]
  · simp [begins]
  · intro earlier before
    simp [not_startsWith_of_before apart before]

end Mark

namespace Token

theorem isBlank_of_graphic {c : Char} (low : 0x20 < c.toNat) (high : c.toNat < 0x7F) :
    Text.isBlank c = false := by
  simp only [Text.isBlank, Text.inRanges, Text.blankRanges, List.any_cons, List.any_nil,
    Bool.or_false, Bool.or_eq_false_iff, Bool.and_eq_false_iff, decide_eq_false_iff_not, not_le]
  omega

theorem graphic_of_isDigit {c : Char} (h : c.isDigit = true) :
    0x20 < c.toNat ∧ c.toNat < 0x7F := by
  simp only [Char.isDigit, Bool.and_eq_true, decide_eq_true_eq] at h
  obtain ⟨low, high⟩ := h
  have low' : (48 : Nat) ≤ c.val.toNat := by simpa using UInt32.le_iff_toNat_le.mp low
  have high' : c.val.toNat ≤ 57 := by simpa using UInt32.le_iff_toNat_le.mp high
  have same : c.toNat = c.val.toNat := rfl
  omega

theorem graphic_of_isWordStart {c : Char} (h : isWordStart c = true) :
    0x20 < c.toNat ∧ c.toNat < 0x7F ∧ c.isDigit = false := by
  have same : c.toNat = c.val.toNat := rfl
  simp only [isWordStart, Char.isAlpha, Char.isUpper, Char.isLower, Bool.or_eq_true,
    Bool.and_eq_true, decide_eq_true_eq, beq_iff_eq, ge_iff_le, UInt32.le_iff_toNat_le] at h
  simp only [Char.isDigit, Bool.and_eq_false_iff, decide_eq_false_iff_not, ge_iff_le,
    UInt32.le_iff_toNat_le, not_le]
  rcases h with (h | rfl) | rfl
  · simp at h ⊢
    omega
  · decide
  · decide

theorem scanNumber_eq_none {c : Char} {cs : List Char} (digit : c.isDigit = false)
    (point : c ≠ '.') : scanNumber (c :: cs) = none := by
  have notZero : c ≠ '0' := by rintro rfl; exact absurd digit (by decide)
  have hex : hexDigits (c :: cs) = [] := by simp [hexDigits, notZero]
  have decimal : Decimal.scan (c :: cs) = none := by
    simp only [Decimal.scan, List.takeWhile_cons, List.dropWhile_cons, digit]
    simp [point]
  simp [scanNumber, hex, decimal]

theorem numeral_chars {n : Numeral} (valid : n.Valid) :
    ∀ c ∈ n.text, c.isDigit = true ∨ c ∈ ['.', 'e', 'E', '+', '-'] := by
  have digits {ds : List Char} (all : ds.all Char.isDigit = true) :
      ∀ c ∈ ds, c.isDigit = true ∨ c ∈ ['.', 'e', 'E', '+', '-'] :=
    fun c member => .inl (List.all_eq_true.mp all c member)
  intro c member
  simp only [Numeral.text, List.mem_append] at member
  rcases member with whole | point | power
  · exact digits valid.whole c whole
  · cases fraction : n.fraction with
    | none => simp [fraction, Numeral.pointText] at point
    | some ds =>
      simp only [fraction, Numeral.pointText, List.mem_cons] at point
      rcases point with rfl | inside
      · exact .inr (by decide)
      · exact digits (by simpa [fraction] using valid.fraction) c inside
  · cases exponent : n.power with
    | none => simp [exponent, Numeral.powerText] at power
    | some p =>
      have validPower := valid.power p exponent
      simp only [exponent, Numeral.powerText, Power.text, List.mem_cons, List.mem_append] at power
      rcases power with rfl | sign | inside
      · refine .inr ?_
        rcases validPower.mark with mark | mark <;> rw [mark] <;> decide
      · refine .inr ?_
        rcases validPower.sign with eq | eq | eq <;> simp [eq] at sign <;> subst sign <;> decide
      · exact digits validPower.digits c inside

theorem ne_of_numeral {n : Numeral} (valid : n.Valid) {other : Char} (digit : other.isDigit = false)
    (sign : other ∉ ['.', 'e', 'E', '+', '-']) : ∀ c ∈ n.text, c ≠ other := by
  rintro c member rfl
  rcases numeral_chars valid c member with isDigit | isSign
  · rw [digit] at isDigit
    exact absurd isDigit (by decide)
  · exact sign isSign

theorem hexDigits_numeral {n : Numeral} (valid : n.Valid) {after : List Char}
    (stop : ∀ c ∈ after.head?, isWordPart c = false) : hexDigits (n.text ++ after) = [] := by
  have noMark : ∀ c ∈ (n.text ++ after).tail.head?, c ≠ 'x' ∧ c ≠ 'X' := by
    intro c member
    cases shape : n.text with
    | nil => exact absurd shape (Numeral.text_ne_nil valid)
    | cons first more =>
      cases more with
      | nil =>
        have part := stop c (by simpa [shape] using member)
        constructor <;> (rintro rfl; exact absurd part (by decide))
      | cons second rest =>
        have same : second = c := by simpa [shape] using member
        have member : c ∈ n.text := by simp [shape, same]
        exact ⟨ne_of_numeral valid (by decide) (by decide) c member,
          ne_of_numeral valid (by decide) (by decide) c member⟩
  simp only [hexDigits]
  split
  · rename_i rest eq
    exact absurd rfl (noMark 'x' (by simp [eq])).1
  · rename_i rest eq
    exact absurd rfl (noMark 'X' (by simp [eq])).2
  · rfl

theorem isHexDigit_isWordPart {c : Char} (h : isHexDigit c = true) : isWordPart c = true := by
  have alphanumeric : c.isAlphanum = true := by
    simp only [isHexDigit, Bool.or_eq_true, Bool.and_eq_true, decide_eq_true_eq] at h
    simp only [Char.isAlphanum, Char.isAlpha, Char.isUpper, Char.isLower, Bool.or_eq_true,
      Bool.and_eq_true, decide_eq_true_eq, ge_iff_le]
    simp only [Char.le_def, UInt32.le_iff_toNat_le] at h ⊢
    rcases h with (digit | ⟨low, high⟩) | ⟨low, high⟩
    · exact Or.inr digit
    · refine Or.inl (Or.inr ⟨low, le_trans high ?_⟩)
      decide
    · refine Or.inl (Or.inl ⟨low, le_trans high ?_⟩)
      decide
  simp [isWordPart, alphanumeric]

theorem scanNumber_hex {mark : Char} {digits after : List Char} (marked : mark = 'x' ∨ mark = 'X')
    (hex : digits.all isHexDigit = true) (nonempty : digits ≠ [])
    (stop : ∀ c ∈ after.head?, isHexDigit c = false) :
    scanNumber ('0' :: mark :: (digits ++ after)) = some (hexNumber digits, digits.length + 2) := by
  obtain ⟨taken, -⟩ := takeWhile_append_stop hex stop
  have found : hexDigits ('0' :: mark :: (digits ++ after)) = digits := by
    rcases marked with rfl | rfl <;> simpa [hexDigits] using taken
  simp [scanNumber, found, nonempty]

theorem scanNumber_numeral {n : Numeral} (valid : n.Valid) {after : List Char}
    (stop : ∀ c ∈ after.head?, isWordPart c = false ∧ (c = '.' → n.text.all Char.isDigit = false)) :
    scanNumber (n.text ++ after) = some (n.value.toNumber false, n.text.length) := by
  have hex := hexDigits_numeral valid fun c member => (stop c member).1
  have read := Numeral.scan_text valid (Numeral.closed_of_not_wordPart stop valid)
  simp [scanNumber, hex, read]

theorem exists_of_scanNumber {cs : List Char} {value : Number} {n : Nat}
    (h : scanNumber cs = some (value, n)) :
    (∃ (numeral : Numeral) (rest : List Char), numeral.Valid ∧ cs = numeral.text ++ rest ∧
      value = numeral.value.toNumber false ∧ n = numeral.text.length) ∨
    ∃ (mark : Char) (digits rest : List Char), (mark = 'x' ∨ mark = 'X') ∧
      cs = '0' :: mark :: (digits ++ rest) ∧ digits.all isHexDigit = true ∧ digits ≠ [] ∧
      value = hexNumber digits ∧ n = ('0' :: mark :: digits).length := by
  simp only [scanNumber] at h
  split at h
  · split at h
    · rename_i d rest read
      obtain ⟨numeral, valid, rfl, rfl⟩ := Numeral.exists_of_scan read
      simp only [List.length_append, Nat.add_sub_cancel, Option.some.injEq, Prod.mk.injEq] at h
      exact .inl ⟨numeral, rest, valid, rfl, h.1.symm, h.2.symm⟩
    · exact absurd h (by simp)
  · rename_i some
    simp only [Option.some.injEq, Prod.mk.injEq] at h
    obtain ⟨mark, body, marked, rfl, found⟩ : ∃ mark body, (mark = 'x' ∨ mark = 'X') ∧
        cs = '0' :: mark :: body ∧ hexDigits cs = body.takeWhile isHexDigit := by
      simp only [hexDigits] at some ⊢
      split at some
      · exact ⟨'x', _, Or.inl rfl, rfl, rfl⟩
      · exact ⟨'X', _, Or.inr rfl, rfl, rfl⟩
      · exact absurd rfl some
    rw [found] at some h
    refine .inr ⟨mark, body.takeWhile isHexDigit, body.dropWhile isHexDigit, marked, ?_,
      List.all_takeWhile, by simpa using some, h.1.symm, h.2.symm⟩
    rw [List.takeWhile_append_dropWhile]

theorem scanNumber_take {cs : List Char} {value : Number} {n : Nat}
    (h : scanNumber cs = some (value, n)) :
    0 < n ∧ n ≤ cs.length ∧ ∀ after : List Char,
      (∀ c ∈ after.head?, isWordPart c = false ∧ (c = '.' → (cs.take n).all Char.isDigit = false)) →
      scanNumber (cs.take n ++ after) = some (value, n) := by
  obtain ⟨numeral, rest, valid, rfl, rfl, rfl⟩ | ⟨mark, digits, rest, marked, rfl, hex, some, rfl, rfl⟩ :=
    exists_of_scanNumber h
  · refine ⟨List.length_pos_iff.mpr (Numeral.text_ne_nil valid), by simp, ?_⟩
    intro after stop
    rw [List.take_left] at stop ⊢
    exact scanNumber_numeral valid stop
  · refine ⟨by simp, by simp, ?_⟩
    intro after stop
    rw [← List.cons_append, ← List.cons_append, List.take_left]
    refine scanNumber_hex marked hex some fun c member => ?_
    by_contra digit
    have part := isHexDigit_isWordPart (by simpa using digit)
    rw [(stop c member).1] at part
    exact absurd part (by decide)

theorem feed_notMem_scanNumber {cs : List Char} {value : Number} {n : Nat}
    (h : scanNumber cs = some (value, n)) : '\n' ∉ cs.take n := by
  obtain ⟨numeral, rest, valid, rfl, rfl, rfl⟩ | ⟨mark, digits, rest, marked, rfl, hex, -, rfl, rfl⟩ :=
    exists_of_scanNumber h
  · rw [List.take_left]
    exact fun member => ne_of_numeral valid (by decide) (by decide) _ member rfl
  · rw [← List.cons_append, ← List.cons_append, List.take_left]
    have inside : '\n' ∉ digits := fun member =>
      absurd (List.all_eq_true.mp hex _ member) (by decide)
    rcases marked with rfl | rfl <;> simp [inside]

theorem scanString_cons {quote c : Char} {cs : List Char} (escape : c ≠ '\\') :
    scanString quote (c :: cs) = if c = quote then some ([], 1)
      else if c = '\n' then none
      else (scanString quote cs).map fun read => (c :: read.1, read.2 + 1) := by
  rw [scanString.eq_3 quote c cs fun _ _ eq _ => escape eq]
  simp only [escape, or_false]
  cases scanString quote cs <;> rfl

theorem scanString_take {quote : Char} (plain : quote ≠ '\\') {cs text : List Char} {n : Nat}
    (h : scanString quote cs = some (text, n)) (after : List Char) :
    n ≤ cs.length ∧ scanString quote (cs.take n ++ after) = some (text, n) := by
  fun_induction scanString quote cs generalizing text n with
  | case1 => simp at h
  | case2 c rest decoded inner m read escaped ih =>
    simp only [Option.some.injEq, Prod.mk.injEq] at h
    obtain ⟨rfl, rfl⟩ := h
    obtain ⟨bound, again⟩ := ih read
    refine ⟨by simpa using bound, ?_⟩
    simp [scanString, escaped, again]
  | case3 => simp at h
  | case4 rest notEscape =>
    simp only [Option.some.injEq, Prod.mk.injEq] at h
    obtain ⟨rfl, rfl⟩ := h
    refine ⟨by simp, ?_⟩
    simp [scanString_cons plain]
  | case5 => simp at h
  | case6 c rest notEscape notQuote other inner m read ih =>
    simp only [Option.some.injEq, Prod.mk.injEq] at h
    obtain ⟨rfl, rfl⟩ := h
    obtain ⟨bound, again⟩ := ih read
    simp only [not_or] at other
    refine ⟨by simpa using bound, ?_⟩
    simp [scanString_cons other.2, notQuote, other.1, again]
  | case7 => simp at h

theorem feed_notMem_scanString {quote : Char} (printed : quote ≠ '\n') {cs text : List Char} {n : Nat}
    (h : scanString quote cs = some (text, n)) : '\n' ∉ cs.take n := by
  fun_induction scanString quote cs generalizing text n with
  | case1 => simp at h
  | case2 c rest decoded inner m read escaped ih =>
    simp only [Option.some.injEq, Prod.mk.injEq] at h
    obtain ⟨-, rfl⟩ := h
    have other : '\n' ≠ c := by
      rintro rfl
      simp [escapedChar?] at escaped
    simpa [other] using ih read
  | case3 => simp at h
  | case4 rest notEscape =>
    simp only [Option.some.injEq, Prod.mk.injEq] at h
    obtain ⟨-, rfl⟩ := h
    simpa using printed.symm
  | case5 => simp at h
  | case6 c rest notEscape notQuote other inner m read ih =>
    simp only [Option.some.injEq, Prod.mk.injEq] at h
    obtain ⟨-, rfl⟩ := h
    simp only [not_or] at other
    simpa [other.1, eq_comm] using ih read
  | case7 => simp at h

namespace Kind

def spelling : Kind → List Char
  | .word name => name.toList
  | .number _ raw => raw.toList
  | .string _ raw => raw.toList
  | .mark m => m.text.toList
  | .finish => []

/-- The spelling of the kind, with nothing behind it, is read as that kind. -/
def Spelled : Kind → Prop
  | .word name =>
    ∃ c cs, name.toList = c :: cs ∧ isWordStart c = true ∧ cs.all isWordPart = true
  | .number value raw => scanNumber raw.toList = some (value, raw.toList.length)
  | .string value raw =>
    ∃ quote body, raw.toList = quote :: body ∧ (quote = '"' ∨ quote = '\x27') ∧
      scanString quote body = some (value.toList, body.length)
  | .mark _ => True
  | .finish => False

theorem Spelled.feed_notMem {kind : Kind} (spelled : kind.Spelled) : '\n' ∉ kind.spelling := by
  cases kind with
  | word name =>
    obtain ⟨c, cs, shape, start, parts⟩ := spelled
    have first : '\n' ≠ c := by rintro rfl; exact absurd start (by decide)
    have others : '\n' ∉ cs := fun member => absurd (List.all_eq_true.mp parts _ member) (by decide)
    simp [spelling, shape, first, others]
  | number value raw => simpa [spelling] using feed_notMem_scanNumber spelled
  | string value raw =>
    obtain ⟨quote, body, shape, quotes, scanned⟩ := spelled
    have printed : quote ≠ '\n' := by rcases quotes with rfl | rfl <;> decide
    have inside := feed_notMem_scanString printed scanned
    rw [List.take_length] at inside
    simp [spelling, shape, inside, printed.symm]
  | mark m => cases m <;> decide
  | finish => exact spelled.elim

/-- Nothing at the head of `after` could be taken into a token of the kind. -/
def Apart : Kind → List Char → Prop
  | .word _, after => ∀ c ∈ after.head?, isWordPart c = false
  | .number _ raw, after =>
    ∀ c ∈ after.head?, isWordPart c = false ∧ (c = '.' → raw.toList.all Char.isDigit = false)
  | .mark m, after => m.Apart after
  | .string .., _ => True
  | .finish, _ => True

end Kind

theorem apart_of_not_comment {c : Char} {cs : List Char}
    (comment : ¬ (c = '/' ∧ ∃ d ∈ cs.head?, d = '/' ∨ d = '*')) :
    c = '/' → ∀ d ∈ cs.head?, d ≠ '/' ∧ d ≠ '*' := by
  intro same d head
  constructor
  · exact fun opens => comment ⟨same, d, head, .inl opens⟩
  · exact fun opens => comment ⟨same, d, head, .inr opens⟩

theorem piece_eq_pieceOfCode {c : Char} {cs : List Char} (blank : Text.isBlank c = false)
    (slash : c = '/' → ∀ d ∈ cs.head?, d ≠ '/' ∧ d ≠ '*') (double : c ≠ '"') (single : c ≠ '\x27') :
    piece c cs = pieceOfCode c cs := by
  simp only [piece, blank, Bool.false_eq_true, if_false]
  split
  · exact absurd rfl (slash rfl '/' (by simp)).1
  · exact absurd rfl (slash rfl '*' (by simp)).2
  · simp [double, single]

theorem piece_word {c : Char} {cs after : List Char} (start : isWordStart c = true)
    (parts : cs.all isWordPart = true) (stop : ∀ d ∈ after.head?, isWordPart d = false) :
    piece c (cs ++ after) = .token (.word (String.ofList (c :: cs))) cs.length := by
  obtain ⟨low, high, digit⟩ := graphic_of_isWordStart start
  have other : ∀ d : Char, isWordStart d = false → c ≠ d := by
    rintro d notStart rfl
    rw [start] at notStart
    exact absurd notStart (by decide)
  rw [piece_eq_pieceOfCode (isBlank_of_graphic low high)
    (fun eq => absurd eq (other '/' (by decide))) (other _ (by decide)) (other _ (by decide))]
  simp only [pieceOfCode, scanNumber_eq_none digit (other '.' (by decide)), start, if_true,
    (takeWhile_append_stop parts stop).1]

theorem scanNumber_head {c : Char} {cs : List Char} {value : Number} {n : Nat}
    (h : scanNumber (c :: cs) = some (value, n)) : c.isDigit = true ∨ c = '.' := by
  by_contra neither
  simp only [not_or, Bool.not_eq_true] at neither
  rw [scanNumber_eq_none neither.1 neither.2] at h
  exact absurd h (by simp)

theorem piece_number {c : Char} {cs : List Char} {value : Number} {n : Nat}
    (h : scanNumber (c :: cs) = some (value, n)) :
    piece c cs = .token (.number value (String.ofList ((c :: cs).take n))) (n - 1) := by
  have other : ∀ d : Char, d.isDigit = false → d ≠ '.' → c ≠ d := by
    rintro d digit point rfl
    rcases scanNumber_head h with isDigit | isPoint
    · rw [isDigit] at digit
      exact absurd digit (by decide)
    · exact point isPoint
  have graphic : Text.isBlank c = false := by
    rcases scanNumber_head h with digit | rfl
    · exact isBlank_of_graphic (graphic_of_isDigit digit).1 (graphic_of_isDigit digit).2
    · decide
  rw [piece_eq_pieceOfCode graphic (fun eq => absurd eq (other '/' (by decide) (by decide)))
    (other _ (by decide) (by decide)) (other _ (by decide) (by decide))]
  simp only [pieceOfCode, h]

theorem mark_head (m : Mark) : ∀ c ∈ m.text.toList.head?, Text.isBlank c = false ∧
    c.isDigit = false ∧ c ≠ '"' ∧ c ≠ '\x27' ∧ isWordStart c = false := by
  intro c member
  cases m <;> (simp [Mark.text] at member; subst member; decide)

theorem mark_of_slash (m : Mark) (h : m.text.toList.head? = some '/') :
    m = .divide ∨ m = .divideAssign := by
  revert h
  cases m <;> decide

theorem mark_of_point (m : Mark) (h : m.text.toList.head? = some '.') : m = .dot := by
  revert h
  cases m <;> decide

theorem scanNumber_point {cs : List Char} (digit : ∀ c ∈ cs.head?, c.isDigit = false) :
    scanNumber ('.' :: cs) = none := by
  have hex : hexDigits ('.' :: cs) = [] := by simp [hexDigits]
  have decimal : Decimal.scan ('.' :: cs) = none := by
    cases cs with
    | nil => decide
    | cons c rest =>
      have noDigit := digit c (by simp)
      simp [Decimal.scan, noDigit]
  simp [scanNumber, hex, decimal]

theorem piece_mark {m : Mark} {after : List Char} (apart : m.Apart after) :
    ∃ c cs, m.text.toList = c :: cs ∧ piece c (cs ++ after) = .token (.mark m) cs.length := by
  have found := Mark.find_of_apart apart
  obtain ⟨c, cs, shape⟩ := List.exists_cons_of_ne_nil m.text_ne_nil
  obtain ⟨blank, digit, double, single, start⟩ := mark_head m c (by simp [shape])
  refine ⟨c, cs, shape, ?_⟩
  have slash : c = '/' → ∀ d ∈ (cs ++ after).head?, d ≠ '/' ∧ d ≠ '*' := by
    rintro rfl d member
    rcases mark_of_slash m (by simp [shape]) with rfl | rfl
    · obtain rfl : cs = [] := by simpa [Mark.text] using shape.symm
      have free := apart d member
      simp only [Mark.takes, Bool.or_eq_false_iff] at free
      simpa using free.1.2
    · obtain rfl : cs = ['='] := by simpa [Mark.text] using shape.symm
      obtain rfl : '=' = d := by simpa using member
      decide
  have number : scanNumber (c :: (cs ++ after)) = none := by
    by_cases isPoint : c = '.'
    · subst isPoint
      obtain rfl := mark_of_point m (by simp [shape])
      obtain rfl : cs = [] := by simpa [Mark.text] using shape.symm
      refine scanNumber_point fun d member => ?_
      have free := apart d member
      simp only [Mark.takes, Bool.or_eq_false_iff] at free
      simpa using free.2
    · exact scanNumber_eq_none digit isPoint
  rw [piece_eq_pieceOfCode blank slash double single]
  rw [shape, List.cons_append] at found
  have length : m.text.length - 1 = cs.length := by
    rw [← String.length_toList, shape]
    simp
  simp [pieceOfCode, number, start, found, length]

theorem piece_of_spelled {k : Kind} {after : List Char} (spelled : k.Spelled)
    (apart : k.Apart after) :
    ∃ c cs, k.spelling = c :: cs ∧ piece c (cs ++ after) = .token k cs.length := by
  cases k with
  | word name =>
    obtain ⟨c, cs, shape, start, parts⟩ := spelled
    refine ⟨c, cs, shape, ?_⟩
    rw [piece_word start parts apart, ← shape, String.ofList_toList]
  | number value raw =>
    simp only [Kind.Spelled] at spelled
    obtain ⟨positive, -, again⟩ := scanNumber_take spelled
    rw [List.take_length] at again
    have read := again after apart
    obtain ⟨c, cs, shape⟩ := List.exists_cons_of_length_pos positive
    refine ⟨c, cs, shape, ?_⟩
    rw [shape, List.cons_append] at read
    rw [piece_number read]
    have taken : (c :: (cs ++ after)).take (c :: cs).length = raw.toList := by simp [shape]
    rw [taken, String.ofList_toList]
    simp
  | string value raw =>
    obtain ⟨quote, body, shape, quoted, read⟩ := spelled
    have plain : quote ≠ '\\' := by rcases quoted with rfl | rfl <;> decide
    have again := (scanString_take plain read after).2
    rw [List.take_length] at again
    refine ⟨quote, body, shape, ?_⟩
    have blank : Text.isBlank quote = false := by rcases quoted with rfl | rfl <;> decide
    have rawText : String.ofList (quote :: body) = raw := by rw [← shape, String.ofList_toList]
    simp only [piece, blank, Bool.false_eq_true, if_false]
    split
    · simp at quoted
    · simp at quoted
    · simp [quoted, again, rawText]
  | mark m => exact piece_mark apart
  | finish => exact absurd spelled (by simp [Kind.Spelled])

theorem spelled_of_pieceOfCode {c : Char} {cs : List Char} {k : Kind} {n : Nat}
    (h : pieceOfCode c cs = .token k n) : k.Spelled ∧ k.spelling = c :: cs.take n := by
  simp only [pieceOfCode] at h
  split at h
  · rename_i value length read
    simp only [Piece.token.injEq] at h
    obtain ⟨rfl, rfl⟩ := h
    obtain ⟨positive, bound, again⟩ := scanNumber_take read
    have taken : (c :: cs).take length = c :: cs.take (length - 1) := by
      obtain ⟨more, rfl⟩ : ∃ more, length = more + 1 := ⟨length - 1, by omega⟩
      simp
    refine ⟨?_, by simp [Kind.spelling, taken]⟩
    have alone := again [] (by simp)
    simp only [Kind.Spelled, String.toList_ofList, List.length_take]
    rw [List.append_nil] at alone
    rw [alone, Nat.min_eq_left bound]
  · split at h
    · rename_i start
      simp only [Piece.token.injEq] at h
      obtain ⟨rfl, rfl⟩ := h
      refine ⟨⟨c, cs.takeWhile isWordPart, by simp, start, List.all_takeWhile⟩, ?_⟩
      simp [Kind.spelling, ← List.prefix_iff_eq_take.mp (List.takeWhile_prefix isWordPart)]
    · split at h
      · rename_i m found
        simp only [Piece.token.injEq] at h
        obtain ⟨rfl, rfl⟩ := h
        refine ⟨trivial, ?_⟩
        have begins := List.find?_some found
        simp only [startsWith, List.isPrefixOf_iff_prefix] at begins
        have taken := List.prefix_iff_eq_take.mp begins
        have positive : 0 < m.text.length := by
          rw [← String.length_toList]
          exact List.length_pos_iff.mpr m.text_ne_nil
        obtain ⟨more, length⟩ : ∃ more, m.text.length = more + 1 := ⟨m.text.length - 1, by omega⟩
        rw [String.length_toList, length, List.take_succ_cons] at taken
        simp [Kind.spelling, taken, length]
      · exact absurd h (by simp)

/-- The scanner cuts off spelled kinds only, and exactly their spelling. -/
theorem spelled_of_piece {c : Char} {cs : List Char} {k : Kind} {n : Nat}
    (h : piece c cs = .token k n) : k.Spelled ∧ k.spelling = c :: cs.take n := by
  simp only [piece] at h
  split at h
  · exact absurd h (by simp)
  · split at h
    · exact absurd h (by simp)
    · split at h <;> exact absurd h (by simp)
    · split at h
      · rename_i quoted
        split at h
        · rename_i text length read
          simp only [Piece.token.injEq] at h
          obtain ⟨rfl, rfl⟩ := h
          have plain : c ≠ '\\' := by rcases quoted with rfl | rfl <;> decide
          obtain ⟨bound, again⟩ := scanString_take plain read []
          refine ⟨⟨c, cs.take length, by simp, quoted, ?_⟩, by simp [Kind.spelling]⟩
          rw [List.append_nil] at again
          rw [again, List.length_take, Nat.min_eq_left bound, String.toList_ofList]
        · exact absurd h (by simp)
      · exact spelled_of_pieceOfCode h

theorem spelled_of_scanFrom {offset : Nat} {newline : Bool} {text : List Char} {tokens : List Token}
    (h : scanFrom offset newline text = .ok tokens) :
    ∃ inner last, tokens = inner ++ [last] ∧ last.kind = .finish ∧
      ∀ t ∈ inner, t.kind.Spelled := by
  fun_induction scanFrom offset newline text generalizing tokens with
  | case1 offset newline =>
    simp only [Except.ok.injEq] at h
    exact ⟨[], _, h.symm, rfl, by simp⟩
  | case2 =>
    rename_i ih
    exact ih h
  | case3 =>
    rename_i cut _ rest read ih
    simp only [Except.ok.injEq] at h
    obtain ⟨inner, last, rfl, finish, spelled⟩ := ih read
    refine ⟨_ :: inner, last, h.symm, finish, ?_⟩
    intro t member
    rcases List.mem_cons.mp member with rfl | inside
    · exact (spelled_of_piece cut).1
    · exact spelled t inside
  | case4 => simp at h
  | case5 => simp at h

end Token

end Arborist

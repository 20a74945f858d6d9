import Mathlib
import Arborist.Proofs.Script.RoundTrip

/-!
The content of a script: its tokens without parentheses, commas and semicolons. A tree determines the
content of every text that it is read from, so a parsed text and the code that is printed for it
have the same content, and nothing is dropped or invented on the way.
-/

namespace Arborist

open Token (Kind)

namespace Token

/-- The marks that group and separate, and say nothing themselves. -/
def Kind.isSeparator : Kind → Bool
  | .mark .openParen | .mark .closeParen | .mark .semicolon | .mark .comma => true
  | _ => false

def content (tokens : List Token) : List Kind :=
  (tokens.map Token.kind).filter fun kind => !kind.isSeparator

@[simp] theorem content_nil : content [] = [] := rfl

@[simp] theorem content_append (front rest : List Token) :
    content (front ++ rest) = content front ++ content rest := by simp [content]

theorem content_cons (t : Token) (rest : List Token) :
    content (t :: rest) =
      if t.kind.isSeparator then content rest else t.kind :: content rest := by
  cases separates : t.kind.isSeparator <;> simp [content, separates]

theorem content_cons_separator {t : Token} (separates : t.kind.isSeparator = true)
    (rest : List Token) : content (t :: rest) = content rest := by
  simp [content_cons, separates]

theorem content_cons_of_kind {t : Token} {kind : Kind} (same : t.kind = kind)
    (stands : kind.isSeparator = false) (rest : List Token) :
    content (t :: rest) = kind :: content rest := by
  simp [content_cons, same, stands]

end Token

namespace Script

open Token (content content_nil content_append content_cons content_cons_separator
  content_cons_of_kind)

variable {ι κ : Type}

theorem BinaryOperator.not_separator {operator : BinaryOperator} (notComma : operator ≠ .comma) :
    operator.kind.isSeparator = false := by
  cases operator <;> first | rfl | exact absurd rfl notComma

theorem UnaryOperator.not_separator (operator : UnaryOperator) :
    operator.kind.isSeparator = false := by cases operator <;> rfl

theorem UpdateOperator.not_separator (operator : UpdateOperator) :
    operator.kind.isSeparator = false := by cases operator <;> rfl

theorem AssignmentOperator.not_separator (operator : AssignmentOperator) :
    operator.kind.isSeparator = false := by cases operator <;> rfl

namespace Expr

mutual

/-- The content of an expression, literals by their spelling. -/
def content : Expr ι → List Kind
  | .name _ text => [.word text]
  | .number _ value raw => [.number value (raw.getD value.display)]
  | .string _ value raw => [.string value (raw.getD (quote value))]
  | .boolean _ value => [.word (if value then "true" else "false")]
  | .null _ => [.word "null"]
  | .array _ elements =>
    .mark .openBracket :: (contentElements elements ++ [.mark .closeBracket])
  | .binary _ operator left right => left.content ++ operator.kind :: right.content
  | .unary _ operator argument => operator.kind :: argument.content
  | .update _ operator before argument =>
    if before then operator.kind :: argument.content else argument.content ++ [operator.kind]
  | .assignment _ operator target value => target.content ++ operator.kind :: value.content
  | .conditional _ test consequent alternate =>
    test.content ++ .mark .question :: (consequent.content ++ .mark .colon :: alternate.content)
  | .sequence _ parts => contentList parts
  | .call _ callee arguments => callee.content ++ contentList arguments
  | .member _ object property computed =>
    if computed then
      object.content ++ .mark .openBracket :: (property.content ++ [.mark .closeBracket])
    else object.content ++ .mark .dot :: property.content

def contentList : List (Expr ι) → List Kind
  | [] => []
  | e :: rest => e.content ++ contentList rest

def contentElements : List (Option (Expr ι)) → List Kind
  | [] => []
  | none :: rest => contentElements rest
  | some e :: rest => e.content ++ contentElements rest

end

theorem contentList_eq_flatMap (list : List (Expr ι)) : contentList list = list.flatMap content := by
  induction list with
  | nil => rfl
  | cons e rest ih => simp [contentList, ih]

theorem contentElements_some (list : List (Expr ι)) :
    contentElements (list.map some) = contentList list := by
  induction list with
  | nil => rfl
  | cons e rest ih => simp [contentList, contentElements, ih]

theorem content_withNote (e : Expr ι) (n : ι) : (e.withNote n).content = e.content := by
  cases e <;> rfl

theorem content_mapNote (f : ι → κ) (e : Expr ι) : (e.mapNote f).content = e.content := by
  induction e using Expr.induct with
  | name | number | string | boolean | null => rfl
  | array n elements ih =>
    have members : contentElements (mapNoteElements f elements) = contentElements elements := by
      induction elements with
      | nil => rfl
      | cons entry rest inner =>
        have others := inner fun e member => ih e (List.mem_cons_of_mem _ member)
        cases entry with
        | none => simpa [mapNoteElements, contentElements] using others
        | some e =>
          rw [mapNoteElements, contentElements, contentElements, others, ih e List.mem_cons_self]
    simp only [mapNote, content, members]
  | binary _ _ _ _ left right | assignment _ _ _ _ left right | member _ _ _ _ left right =>
    simp only [mapNote, content, left, right]
  | unary _ _ _ ih | update _ _ _ _ ih => simp only [mapNote, content, ih]
  | conditional _ _ _ _ test positive negative => simp only [mapNote, content, test, positive, negative]
  | sequence n parts ih =>
    simp only [mapNote, content, contentList_eq_flatMap, mapNoteList_eq_map, List.flatMap_map]
    exact List.flatMap_congr ih
  | call n callee arguments first ih =>
    simp only [mapNote, content, contentList_eq_flatMap, mapNoteList_eq_map, List.flatMap_map, first]
    rw [List.flatMap_congr ih]

theorem content_bare (e : Expr ι) : e.bare.content = e.content := content_mapNote _ e

end Expr

def Phrase.content : Phrase → List Kind
  | .expr _ e => e.content
  | .items list | .parts list => Expr.contentList list

/-- The tokens that derive a phrase have its content. -/
theorem Derives.content_eq {phrase : Phrase} {ts : List Token} (derives : Derives phrase ts) :
    content ts = phrase.content := by
  induction derives with
  | name word _ | null word => exact content_cons_of_kind word rfl []
  | boolean word => exact content_cons_of_kind word rfl []
  | number literal | string literal => exact content_cons_of_kind literal rfl []
  | paren opening _ closing ih =>
    rw [content_cons_separator (by rw [opening]; rfl), content_append,
      content_cons_separator (by rw [closing]; rfl), content_nil, List.append_nil, ih]
    exact (Expr.content_withNote _ _).symm
  | array opening _ closing ih =>
    rw [content_cons_of_kind opening rfl, content_append, content_cons_of_kind closing rfl, ih]
    simp [Phrase.content, Expr.content, Expr.contentElements_some]
  | dot _ mark property ih =>
    rw [content_append, content_cons_of_kind mark rfl, content_cons_of_kind property rfl, ih]
    rfl
  | bracket _ opening _ closing ih index =>
    rw [content_append, content_cons_of_kind opening rfl, content_append,
      content_cons_of_kind closing rfl, ih, index]
    rfl
  | call _ opening _ closing ih arguments =>
    rw [content_append, content_cons_separator (by rw [opening]; rfl), content_append,
      content_cons_separator (by rw [closing]; rfl), ih, arguments]
    simp [Phrase.content, Expr.content]
  | updated _ mark _ ih =>
    rw [content_append, content_cons_of_kind mark (UpdateOperator.not_separator _), ih]
    rfl
  | unary mark _ ih =>
    rw [content_cons_of_kind mark (UnaryOperator.not_separator _), ih]
    rfl
  | updating mark _ ih =>
    rw [content_cons_of_kind mark (UpdateOperator.not_separator _), ih]
    rfl
  | power _ mark _ base exponent =>
    rw [content_append, content_cons_of_kind mark rfl, base, exponent]
    rfl
  | binary notComma _ _ mark _ left right =>
    rw [content_append, content_cons_of_kind mark (BinaryOperator.not_separator notComma), left, right]
    rfl
  | conditional _ question _ colon _ test positive negative =>
    rw [content_append, content_cons_of_kind question rfl, content_append,
      content_cons_of_kind colon rfl, test, positive, negative]
    rfl
  | assignment _ _ mark _ left right =>
    rw [content_append, content_cons_of_kind mark (AssignmentOperator.not_separator _), left, right]
    rfl
  | sequence _ _ _ head tail =>
    rw [content_append, head, tail]
    rfl
  | looser _ ih => exact ih
  | noItems | noParts => rfl
  | oneItem _ ih => simpa [Phrase.content, Expr.contentList] using ih
  | moreItems _ comma _ item rest =>
    rw [content_append, content_cons_separator (by rw [comma]; rfl), item, rest]
    rfl
  | moreParts comma _ _ part rest =>
    rw [content_cons_separator (by rw [comma]; rfl), content_append, part, rest]
    rfl

theorem Named.content_cons {e : Expr Place} {t : Token} (named : Named e t) (rest : List Token) :
    content (t :: rest) = e.content ++ content rest := by
  cases named with
  | intro word _ => exact content_cons_of_kind word rfl rest

theorem Parameters.content_eq {list : List (Expr Place)} {ts : List Token}
    (parameters : Parameters list ts) : content ts = Expr.contentList list := by
  induction parameters with
  | none => rfl
  | one name => simp [name.content_cons, Expr.contentList]
  | more name comma _ ih =>
    rw [name.content_cons, content_cons_separator (by rw [comma]; rfl), ih]
    rfl

def Declarator.content (d : Declarator ι) : List Kind :=
  d.target.content ++ (d.value.map fun value => .mark .assign :: value.content).getD []

def FunctionHead.content (head : FunctionHead ι) : List Kind :=
  (if head.isAsync then [.word "async"] else []) ++ .word "function" ::
    ((if head.isGenerator then [.mark .times] else []) ++
      (head.name.content ++ Expr.contentList head.parameters))

theorem Declares.content_eq {d : Declarator Place} {ts : List Token} {next : Token}
    (declares : Declares d ts next) : content ts = d.content := by
  cases declares with
  | plain name _ => simp [name.content_cons, Declarator.content]
  | initial name mark inner _ =>
    rw [name.content_cons, content_cons_of_kind mark rfl, inner.content_eq]
    rfl

theorem DeclaresAll.content_eq {list : List (Declarator Place)} {ts : List Token} {next : Token}
    (declares : DeclaresAll list ts next) : content ts = list.flatMap Declarator.content := by
  induction declares with
  | last one _ => simp [one.content_eq]
  | more one comma _ ih =>
    rw [content_append, one.content_eq, content_cons_separator (by rw [comma]; rfl), ih,
      List.flatMap_cons]

theorem Heads.content_eq {head : FunctionHead Place} {ts : List Token} (heads : Heads head ts) :
    content ts = head.content := by
  cases heads with
  | @intro f a b n front star ts isAsync isGenerator name parameters async word generator named
      opening list closing =>
    have first : content front = if isAsync then [.word "async"] else [] := by
      cases isAsync with
      | false => simp_all
      | true =>
        obtain ⟨t, rfl, kind, -⟩ := async
        exact content_cons_of_kind kind rfl []
    have second : content star = if isGenerator then [.mark .times] else [] := by
      cases isGenerator with
      | false => simp_all
      | true =>
        obtain ⟨t, rfl, kind⟩ := generator
        exact content_cons_of_kind kind rfl []
    rw [content_append, first, content_cons_of_kind word rfl, content_append, second,
      named.content_cons, content_cons_separator (by rw [opening]; rfl), content_append,
      list.content_eq,
      content_cons_separator (by rw [closing]; rfl), content_nil, List.append_nil]
    rfl

theorem Terminated.content_eq {us : List Token} {next : Token} (ends : Terminated us next) :
    content us = [] := by
  cases ends with
  | semicolon mark => exact content_cons_separator (by rw [mark]; rfl) []
  | free => rfl

namespace Stmt

def bracedContent (inner : List Kind) : List Kind :=
  .mark .openBrace :: (inner ++ [.mark .closeBrace])

mutual

def content : Stmt ι → List Kind
  | .declaration _ kind declarators => .word kind.text :: declarators.flatMap Declarator.content
  | .function _ head _ body => head.content ++ bracedContent (contentList body)
  | .block _ body => bracedContent (contentList body)
  | .ret _ argument => .word "return" :: (argument.map Expr.content).getD []
  | .expression _ body => body.content
  | .branch _ test consequent alternate =>
    .word "if" :: (test.content ++ consequent.content ++ contentElse alternate)
  | .empty _ => []

def contentElse : Option (Stmt ι) → List Kind
  | none => []
  | some alternate => .word "else" :: alternate.content

def contentList : List (Stmt ι) → List Kind
  | [] => []
  | s :: rest => s.content ++ contentList rest

end

theorem contentList_eq_flatMap (list : List (Stmt ι)) : contentList list = list.flatMap content := by
  induction list with
  | nil => rfl
  | cons s rest ih => simp [contentList, ih]

end Stmt

theorem Expr.contentList_bare (list : List (Expr ι)) :
    Expr.contentList (list.map Expr.bare) = Expr.contentList list := by
  simp [contentList_eq_flatMap, List.flatMap_map, content_bare]

theorem Declarator.content_bare (d : Declarator ι) : d.bare.content = d.content := by
  obtain ⟨note, target, value⟩ := d
  cases value <;> simp [content, bare, Expr.content_bare]

theorem FunctionHead.content_bare (head : FunctionHead ι) : head.bare.content = head.content := by
  unfold content bare
  rw [Expr.content_bare, Expr.contentList_bare]

namespace Stmt

theorem content_bare (s : Stmt ι) : s.bare.content = s.content := by
  induction s using Stmt.induct with
  | declaration n kind list =>
    simp [content, List.flatMap_map, Declarator.content_bare]
  | function n head block body ih =>
    simp only [bare_function, content, FunctionHead.content_bare, contentList_eq_flatMap,
      List.flatMap_map]
    rw [List.flatMap_congr ih]
  | block n body ih =>
    simp only [bare_block, content, contentList_eq_flatMap, List.flatMap_map]
    rw [List.flatMap_congr ih]
  | ret n argument => cases argument <;> simp [content, Expr.content_bare]
  | expression n e => simp [content, Expr.content_bare]
  | branch n test consequent alternate positive negative =>
    cases alternate with
    | none => simp [content, contentElse, Expr.content_bare, positive]
    | some s => simp [content, contentElse, Expr.content_bare, positive, negative s rfl]
  | empty n => rfl

theorem contentList_bare (list : List (Stmt ι)) :
    contentList (list.map bare) = contentList list := by
  simp [contentList_eq_flatMap, List.flatMap_map, content_bare]

end Stmt

def Passage.content : Passage → List Kind
  | .statement s => s.content
  | .block _ list => Stmt.bracedContent (Stmt.contentList list)
  | .body list => Stmt.contentList list

theorem Forms.content_eq {passage : Passage} {ts : List Token} {next : Token}
    (forms : Forms passage ts next) : content ts = passage.content := by
  induction forms with
  | declaration word declarators ends =>
    rw [content_cons_of_kind word rfl, content_append, declarators.content_eq, ends.content_eq,
      List.append_nil]
    rfl
  | function front _ ih =>
    rw [content_append, front.content_eq, ih]
    rfl
  | block _ ih => exact ih
  | leave word ends =>
    rw [content_cons_of_kind word rfl, ends.content_eq]
    rfl
  | ret word inner _ _ ends =>
    rw [content_cons_of_kind word rfl, content_append, inner.content_eq, ends.content_eq,
      List.append_nil]
    rfl
  | expression inner _ ends =>
    rw [content_append, inner.content_eq, ends.content_eq, List.append_nil]
    rfl
  | branch word opening condition closing _ _ ih =>
    rw [content_cons_of_kind word rfl, content_cons_separator (by rw [opening]; rfl), content_append,
      condition.content_eq, content_cons_separator (by rw [closing]; rfl), ih]
    simp [Passage.content, Phrase.content, Stmt.content, Stmt.contentElse]
  | choice word opening condition closing _ other _ positive negative =>
    rw [content_cons_of_kind word rfl, content_cons_separator (by rw [opening]; rfl), content_append,
      condition.content_eq, content_cons_separator (by rw [closing]; rfl), content_append, positive,
      content_cons_of_kind other rfl, negative]
    simp [Passage.content, Phrase.content, Stmt.content, Stmt.contentElse]
  | empty mark => exact content_cons_separator (by rw [mark]; rfl) []
  | braces opening _ closing ih =>
    rw [content_cons_of_kind opening rfl, content_append, ih, content_cons_of_kind closing rfl]
    rfl
  | done => rfl
  | more _ _ first rest =>
    rw [content_append, first, rest]
    rfl

theorem Accepted.content_printed {text : String} {inner : List Token} {last : Token}
    {body : List (Stmt Place)} (accepted : Accepted text inner last body) (narrow : Narrow text)
    (width : Nat) (lines : LineIndex) (length : Nat) :
    ∃ code after, compile width (programFields lines length body) = .ok code ∧
      Token.scan code.toList = .ok after ∧ content after = content (inner ++ [last]) := by
  obtain ⟨trees, front, finish, again, compiled, reads, same⟩ :=
    accepted.printed narrow width lines length
  refine ⟨_, _, compiled, reads.scanned, ?_⟩
  have inside : content front = content inner := by
    calc content front
      _ = Stmt.contentList again := reads.forms.content_eq
      _ = Stmt.contentList (again.map Stmt.bare) := (Stmt.contentList_bare _).symm
      _ = Stmt.contentList (body.map Stmt.bare) := by rw [same]
      _ = Stmt.contentList body := Stmt.contentList_bare _
      _ = content inner := accepted.forms.content_eq.symm
  rw [content_append, content_append, inside, content_cons_of_kind reads.finish rfl,
    content_cons_of_kind accepted.finish rfl]

/-- The tokens of an accepted text and those of the code printed for it have the same content. -/
theorem content_compile_parse {text : String} {tree : Fields} (parsed : parseProgram text = .ok tree)
    (narrow : Narrow text) (width : Nat) :
    ∃ code before after, compile width tree = .ok code ∧
      Token.scan text.toList = .ok before ∧ Token.scan code.toList = .ok after ∧
      content after = content before := by
  obtain ⟨inner, last, body, accepted, rfl⟩ := exists_of_parseProgram parsed
  obtain ⟨code, after, compiled, scanned, same⟩ :=
    accepted.content_printed narrow width (Source.ofString text).lines (Source.ofString text).length
  exact ⟨code, _, after, compiled, accepted.scanned, scanned, same⟩

theorem content_compile_parse_async :
    ∃ tree, parseProgram "async function* f(a,) \x7b return -(a), 'x' \x7d" = .ok tree ∧
      Narrow "async function* f(a,) \x7b return -(a), 'x' \x7d" ∧
      ∃ code before after, compile 2 tree = .ok code ∧
        Token.scan "async function* f(a,) \x7b return -(a), 'x' \x7d".toList = .ok before ∧
        Token.scan code.toList = .ok after ∧ content after = content before := by
  obtain ⟨tree, parsed⟩ : ∃ tree,
      parseProgram "async function* f(a,) \x7b return -(a), 'x' \x7d" = .ok tree :=
    exists_of_isOk (by decide +kernel)
  have narrow : Narrow "async function* f(a,) \x7b return -(a), 'x' \x7d" := by decide +kernel
  exact ⟨tree, parsed, narrow, content_compile_parse parsed narrow 2⟩

end Script

end Arborist

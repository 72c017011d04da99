import Bilingual.Proofs.CodeInFront
import Bilingual.Proofs.ScanEnds
import Bilingual.Proofs.ScanPartition

/-!
# Scanning a text that is put together

The scan of two texts one behind the other is the scan of the first one and the scan
of the second one, when the scanner comes out of the first one in code and no quote
goes on over the seam.  A run of code that reaches over the seam is one span.  The
main statements are `lexemes_append` and `scan_append`.
-/

namespace Bilingual

/-- The second text goes on with the quote with which the first one ends. -/
def QuotesMeet (first second : Text) : Prop :=
  ∃ quote : Quote, first.getLast? = some quote.character ∧ second.head? = some quote.character

/-- A span of a text that stands further behind. -/
def Span.shift (distance : Nat) (span : Span) : Span :=
  { span with start := distance + span.start }

/-- Spans in front of others.  The two at the seam are one when both are code. -/
def joinSpans (first second : List Span) : List Span :=
  match first.getLast?, second with
  | some last, next :: others =>
      if last.kind = .code ∧ next.kind = .code then
        first.dropLast ++ ⟨.code, last.start, last.text ++ next.text⟩ :: others
      else first ++ second
  | _, _ => first ++ second

/-! ### Lexemes at a seam -/

variable {first second : Text}

/-- What leaves the scanner in code may stand in front of every text that does not go
on with its quote. -/
theorem canPrecede_of_leavesCode {source rest : Text} {lexeme : Lexeme}
    (reads : Reads source lexeme rest) (leaves : lexeme.leavesCode = true)
    (other : lexeme.code? = none) (apart : ¬QuotesMeet lexeme.text second) :
    lexeme.canPrecede second.head? = true := by
  cases lexeme with
  | code text => contradiction
  | newline => rfl
  | comment text => contradiction
  | literal whole =>
      have closed : whole.closed = true := leaves
      have next : second.head? ≠ some whole.form.quote.character := by
        intro same
        exact apart ⟨whole.form.quote, reads.getLast?_literal closed, same⟩
      simp [Lexeme.canPrecede, closed, next]

/-- Behind a text that ends with code, the code goes on. -/
theorem lexemes_append_of_code {before : List Lexeme} {text : Text}
    (shape : lexemes first = before ++ [.code text]) :
    lexemes (first ++ second) = before ++ consCode text (lexemes second) := by
  have legible := legible_lexemes first
  have whole := textOf_lexemes first
  rw [shape] at legible whole
  have plain := legible.of_append_right.1.plain_of_code
  have nonempty : text ≠ [] := legible.of_append_right.1.text_ne_nil
  have parts : first ++ second = textOf (before ++ consCode text (lexemes second)) := by
    rw [← whole]
    simp [Lexeme.text]
  rw [parts]
  refine lexemes_textOf (legible.of_append_left.append
    (legible_consCode (legible_lexemes second) plain) ?_)
  obtain ⟨character, rest, rfl⟩ := List.exists_cons_of_ne_nil nonempty
  simpa [Lexeme.text] using legible.seam

/-- Behind a text that ends with something else in code, all lexemes stay. -/
theorem lexemes_append_of_not_code (code : EndsInCode first) (apart : ¬QuotesMeet first second)
    (other : ∀ lexeme ∈ (lexemes first).getLast?, lexeme.code? = none) :
    lexemes (first ++ second) = lexemes first ++ lexemes second := by
  have leaves := (endsInCode_iff first).1 code
  have legible := legible_lexemes first
  have parts : first ++ second = textOf (lexemes first ++ lexemes second) := by simp
  rw [parts]
  refine lexemes_textOf (legible.append (legible_lexemes second) ?_)
  intro last lastOf
  obtain ⟨before, shape⟩ := List.getLast?_eq_some_iff.1 lastOf
  rw [shape] at legible
  have reads := legible.of_append_right.1
  rw [textOf_lexemes]
  refine canPrecede_of_leavesCode reads (leaves last lastOf) (other last lastOf) ?_
  rintro ⟨quote, ends, next⟩
  refine apart ⟨quote, ?_, next⟩
  rw [← textOf_lexemes first, shape, textOf_append, textOf_cons, textOf_nil, List.append_nil,
    List.getLast?_append_of_ne_nil _ reads.text_ne_nil, ends]

/-- The lexemes of two texts are those of both, up to a run of code at the seam. -/
theorem lexemes_append (code : EndsInCode first) (apart : ¬QuotesMeet first second) :
    (∃ before text, lexemes first = before ++ [.code text] ∧
        lexemes (first ++ second) = before ++ consCode text (lexemes second)) ∨
      (∀ lexeme ∈ (lexemes first).getLast?, lexeme.code? = none) ∧
        lexemes (first ++ second) = lexemes first ++ lexemes second := by
  by_cases other : ∀ lexeme ∈ (lexemes first).getLast?, lexeme.code? = none
  · exact .inr ⟨other, lexemes_append_of_not_code code apart other⟩
  · push Not at other
    obtain ⟨last, lastOf, some⟩ := other
    obtain ⟨before, shape⟩ := List.getLast?_eq_some_iff.1 lastOf
    cases last with
    | code text => exact .inl ⟨before, text, shape, lexemes_append_of_code shape⟩
    | _ => exact absurd rfl some

/-! ### Newlines outside literals -/

section Newline

variable (closes : ClosesLiterals (first ++ ['\n']))

include closes

/-- The newline that ends a text outside literals is a lexeme of its own. -/
theorem exists_lexemes_append_newline :
    ∃ before, lexemes (first ++ ['\n']) = before ++ [.newline] := by
  have legible := legible_lexemes (first ++ ['\n'])
  have whole := textOf_lexemes (first ++ ['\n'])
  have complete := closes.complete
  rcases List.eq_nil_or_concat' (lexemes (first ++ ['\n'])) with none | ⟨before, last, shape⟩
  · rw [none] at whole
    simp at whole
  · rw [shape] at legible whole complete
    have reads := legible.of_append_right.1
    have ends : last.text.getLast? = some '\n' := by
      have lastOf := congrArg List.getLast? whole
      rwa [textOf_append, textOf_cons, textOf_nil, List.append_nil,
        List.getLast?_append_of_ne_nil _ reads.text_ne_nil, List.getLast?_concat] at lastOf
    cases last with
    | newline => exact ⟨before, shape⟩
    | code text =>
        have plain := List.all_eq_true.1 reads.plain_of_code _ (List.mem_of_getLast? ends)
        contradiction
    | comment text =>
        have inside : '\n' ∈ text := List.mem_of_getLast? ends
        generalize (Lexeme.comment text).text ++ textOf [] = source at reads
        cases reads with
        | comment inLine => simp [inLine] at inside
    | literal literal =>
        have ended : (Lexeme.literal literal).canPrecede (some '\n') = true :=
          complete _ List.getLast?_concat
        have closed : literal.closed = true := by
          by_contra left
          simp [Lexeme.canPrecede, left] at ended
        have other := literal.form.quote.character_ne.1
        rw [Lexeme.text, reads.getLast?_literal closed, Option.some.injEq] at ends
        exact absurd ends other

/-- What stands behind a newline outside literals is read as it is on its own. -/
theorem lexemes_append_newline (second : Text) :
    lexemes (first ++ '\n' :: second) = lexemes first ++ .newline :: lexemes second := by
  obtain ⟨before, shape⟩ := exists_lexemes_append_newline closes
  have legible := legible_lexemes (first ++ ['\n'])
  have whole := textOf_lexemes (first ++ ['\n'])
  rw [shape] at legible whole
  have text : textOf before = first := by simpa [Lexeme.text] using whole
  have cut : lexemes first = before := by
    rw [← text, lexemes_textOf legible.of_append_left]
  have joined : Legible (before ++ .newline :: lexemes second) :=
    legible.of_append_left.append ⟨.newline, legible_lexemes second⟩ legible.seam
  have parts : first ++ '\n' :: second = textOf (before ++ .newline :: lexemes second) := by
    simp [text, Lexeme.text]
  rw [parts, lexemes_textOf joined, cut]

theorem lexemeLines_append_newline (second : Text) :
    lexemeLines (first ++ '\n' :: second) = lexemeLines first ++ lexemeLines second := by
  rw [lexemeLines, lexemes_append_newline closes, List.splitOn_append_cons_self]
  rfl

end Newline

/-! ### Spans at a seam -/

theorem spansFrom_append (start : Nat) (first second : List Lexeme) :
    spansFrom start (first ++ second) =
      spansFrom start first ++ spansFrom (start + Text.byteLength (textOf first)) second := by
  rw [spansFrom, marksFrom_append, List.map_append]
  rfl

theorem map_shift_lineMarks (distance start : Nat) (kind : SpanKind) (line : Text)
    (goesOn : Bool) :
    ((lineMarks kind start line goesOn).map Prod.fst).map (Span.shift distance) =
      (lineMarks kind (distance + start) line goesOn).map Prod.fst := by
  unfold lineMarks
  split <;> rfl

theorem map_shift_literalMarks (distance start : Nat) (kind : SpanKind) (closed : Bool)
    (text : Text) :
    ((literalMarks kind closed start text).map Prod.fst).map (Span.shift distance) =
      (literalMarks kind closed (distance + start) text).map Prod.fst := by
  fun_induction literalMarks kind closed start text with
  | case1 start text line shape =>
      have whole : line = text := firstLine_eq_self shape
      have inLine : '\n' ∉ text := whole ▸ newline_notMem_firstLine text
      rw [literalMarks_of_line inLine, whole, map_shift_lineMarks]
  | case2 start text line character rest shape newline induction =>
      obtain ⟨rfl, parts⟩ := firstLine_append_newline shape
      have inLine : '\n' ∉ line := newline_notMem_firstLine text
      rw [← parts, literalMarks_of_lines inLine, List.map_append, List.map_append,
        List.map_append, List.map_cons, List.map_cons, List.map_cons, induction,
        map_shift_lineMarks]
      simp only [Span.shift, Span.stop, newline, Nat.add_assoc]

/-- The spans of lexemes that stand further behind are shifted. -/
theorem map_shift_spansFrom (distance start : Nat) (list : List Lexeme) :
    (spansFrom start list).map (Span.shift distance) = spansFrom (distance + start) list := by
  induction list generalizing start with
  | nil => rfl
  | cons lexeme others induction =>
      have rest := induction (start + Text.byteLength lexeme.text)
      rw [spansFrom] at rest ⊢
      rw [spansFrom, marksFrom, marksFrom, List.map_append, List.map_append, List.map_append,
        rest, ← Nat.add_assoc]
      cases lexeme with
      | literal whole =>
          rw [Lexeme.marks, map_shift_literalMarks]
          rfl
      | _ => rfl

theorem map_shift_scan (distance : Nat) (source : Text) :
    (scan source).map (Span.shift distance) = spansFrom distance (lexemes source) := by
  rw [scan_eq_spansFrom, map_shift_spansFrom, Nat.add_zero]

theorem Tiles.shift {start stop : Nat} {spans : List Span} (tiles : Tiles start stop spans)
    (distance : Nat) :
    Tiles (distance + start) (distance + stop) (spans.map (Span.shift distance)) := by
  induction spans generalizing start with
  | nil => exact congrArg (distance + ·) tiles
  | cons span others induction =>
      refine ⟨congrArg (distance + ·) tiles.1, ?_⟩
      have stops : (span.shift distance).stop = distance + span.stop := Nat.add_assoc _ _ _
      rw [stops]
      exact induction tiles.2

theorem joinSpans_of_head? {spans others : List Span}
    (apart : ∀ span ∈ others.head?, span.kind ≠ .code) :
    joinSpans spans others = spans ++ others := by
  unfold joinSpans
  split
  · next last next others ends =>
      rw [if_neg fun both => apart next rfl both.2]
  · rfl

theorem joinSpans_of_getLast? {spans others : List Span}
    (apart : ∀ span ∈ spans.getLast?, span.kind ≠ .code) :
    joinSpans spans others = spans ++ others := by
  unfold joinSpans
  split
  · next last next others ends =>
      rw [if_neg fun both => apart last ends both.1]
  · rfl

theorem joinSpans_of_code (spans others : List Span) (start position : Nat)
    (text behind : Text) :
    joinSpans (spans ++ [⟨.code, start, text⟩]) (⟨.code, position, behind⟩ :: others) =
      spans ++ ⟨.code, start, text ++ behind⟩ :: others := by
  simp [joinSpans]

theorem kind_head?_spansFrom {list : List Lexeme} (legible : Legible list)
    (none : leadingCode list = []) (start : Nat) :
    ∀ span ∈ (spansFrom start list).head?, span.kind ≠ .code := by
  intro span first
  match list with
  | [] => contradiction
  | .code text :: others => exact absurd none legible.1.text_ne_nil
  | .newline :: others =>
      obtain rfl : _ = span := by simpa [spansFrom, marksFrom, Lexeme.marks] using first
      simp
  | .comment text :: others =>
      obtain rfl : _ = span := by simpa [spansFrom, marksFrom, Lexeme.marks] using first
      simp
  | .literal whole :: others =>
      rw [spansFrom, marksFrom, List.map_append] at first
      have nonempty : (Lexeme.marks start (.literal whole)).map Prod.fst ≠ [] := by
        intro empty
        have text := flatMap_text_marks (.literal whole) start
        rw [empty] at text
        exact legible.1.text_ne_nil text.symm
      rw [List.head?_append_of_ne_nil _ nonempty] at first
      obtain ⟨mark, marked, rfl⟩ := List.mem_map.1 (List.mem_of_head? first)
      have other := Scanner.spanKind_mode_ne_code whole.form
      rcases kind_of_mem_literalMarks marked with kind | kind <;> simp [kind, other]

theorem kind_getLast?_spansFrom {list : List Lexeme} (legible : Legible list)
    (other : ∀ lexeme ∈ list.getLast?, lexeme.code? = none) (start : Nat) :
    ∀ span ∈ (spansFrom start list).getLast?, span.kind ≠ .code := by
  intro span last
  have kind := getLast?_spansFrom start legible
  rw [last, Option.map_some, eq_comm, Option.map_eq_some_iff] at kind
  obtain ⟨lexeme, lastOf, kind⟩ := kind
  rw [← kind]
  have other := other lexeme lastOf
  cases lexeme with
  | code text => contradiction
  | literal whole =>
      rw [Lexeme.lastKind]
      split
      · simp
      · exact Scanner.spanKind_mode_ne_code whole.form
  | _ => simp [Lexeme.lastKind]


/-- The scan of two texts is the scan of the first one and that of the second one, which
stands behind it. -/
theorem scan_append (code : EndsInCode first) (apart : ¬QuotesMeet first second) :
    scan (first ++ second) =
      joinSpans (scan first) ((scan second).map (Span.shift (Text.byteLength first))) := by
  have legible := legible_lexemes second
  have legibleFirst := legible_lexemes first
  have whole := textOf_lexemes first
  rw [map_shift_scan, scan_eq_spansFrom, scan_eq_spansFrom]
  rcases lexemes_append code apart with ⟨before, text, shape, joined⟩ | ⟨other, joined⟩
  · rw [shape] at legibleFirst whole
    have nonempty : text ≠ [] := legibleFirst.of_append_right.1.text_ne_nil
    have stop : Text.byteLength first =
        0 + Text.byteLength (textOf before) + Text.byteLength text := by
      rw [← whole]
      simp [Lexeme.text]
    have last : spansFrom 0 (before ++ [.code text]) = spansFrom 0 before ++
        [⟨.code, 0 + Text.byteLength (textOf before), text⟩] := spansFrom_append 0 before _
    rw [joined, shape, spansFrom_append, last, stop]
    rcases consCode_cases text (lexemes second) with
      ⟨behind, others, shape, same⟩ | ⟨none, ⟨empty, -⟩ | ⟨-, same⟩⟩
    · rw [same, shape]
      simp [spansFrom, marksFrom, Lexeme.marks, Lexeme.text, joinSpans_of_code, Nat.add_assoc]
    · exact absurd empty nonempty
    · rw [same, joinSpans_of_head? (kind_head?_spansFrom legible none _), List.append_assoc]
      rfl
  · rw [joined, spansFrom_append, whole, Nat.zero_add,
      joinSpans_of_getLast? (kind_getLast?_spansFrom legibleFirst other 0)]

end Bilingual

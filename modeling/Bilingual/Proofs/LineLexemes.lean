import Bilingual.Proofs.LineParts
import Bilingual.Proofs.Trimming

/-!
# Lines by their lexemes

What the formatter asks about a line, it asks its spans: the text, the class, the
comment, and whether the line ends in a literal.  This file answers from the
lexemes of the line.
-/

namespace Bilingual

namespace Lexeme

/-- The kind of the first span of a lexeme. -/
def kind : Lexeme → SpanKind
  | .code _ => .code
  | .newline => .newline
  | .comment _ => .comment
  | .literal whole => whole.form.mode.spanKind

/-- The lexeme is not just white space between others. -/
def isVisible : Lexeme → Bool
  | .code text => !Text.isBlank text
  | .newline => true
  | .comment _ => true
  | .literal _ => true

/-- The kind of the last span of a lexeme: an open literal can end with a newline. -/
def lastKind : Lexeme → SpanKind
  | .code _ => .code
  | .newline => .newline
  | .comment _ => .comment
  | .literal whole =>
      if whole.text.getLast? = some '\n' then .newline else whole.form.mode.spanKind

end Lexeme

section Attributes

variable (offset start : Nat)

@[simp] theorem text_lineOf (list : List Lexeme) :
    (lineOf offset start list).text = textOf list :=
  flatMap_text_spansFrom start list

/-- The texts of the lines give the source back. -/
theorem intercalate_map_text_logicalLines (source : Text) :
    ['\n'].intercalate ((logicalLines source).map LogicalLine.text) = source := by
  rw [logicalLines_eq_linesFrom, map_linesFrom fun line _ offset => text_lineOf offset offset line,
    intercalate_map_textOf_lexemeLines]

theorem comment?_lineOf (list : List Lexeme) :
    (lineOf offset start list).comment? = (list.filterMap Lexeme.comment?).head? := by
  rw [← comments_spansFrom start, List.head?_map, List.head?_filter]
  rfl

/-! ### The last span -/

theorem getLast?_literalMarks {kind : SpanKind} {closed : Bool} {text : Text}
    (nonempty : text ≠ []) :
    (literalMarks kind closed start text).getLast?.map (·.1.kind) =
      some (if text.getLast? = some '\n' then .newline else kind) := by
  fun_induction literalMarks kind closed start text with
  | case1 start text line shape =>
      have whole : line = text := firstLine_eq_self shape
      have visible : text.isEmpty = false := List.isEmpty_eq_false_iff.2 nonempty
      have inLine : text.getLast? ≠ some '\n' := by
        intro last
        rw [← whole] at last
        simpa using List.mem_takeWhile_imp (List.mem_of_getLast? last)
      rw [whole, lineMarks, visible, if_neg Bool.false_ne_true, if_neg inLine]
      rfl
  | case2 start text line character rest shape newline induction =>
      obtain ⟨isNewline, parts⟩ := firstLine_append_newline shape
      rw [List.getLast?_append_of_ne_nil _ (by simp)]
      by_cases empty : rest = []
      · rw [empty, literalMarks_of_line (by simp), ← parts, empty, isNewline, List.getLast?_concat]
        rfl
      · have more : literalMarks kind closed newline.stop rest ≠ [] := by
          intro none
          have last := induction empty
          rw [none] at last
          contradiction
        rw [List.getLast?_cons_of_ne_nil more, induction empty, ← parts,
          List.getLast?_append_of_ne_nil _ (by simp), List.getLast?_cons_of_ne_nil empty]

theorem getLast?_marks {lexeme : Lexeme} (nonempty : lexeme.text ≠ []) :
    ((lexeme.marks start).map Prod.fst).getLast?.map Span.kind = some lexeme.lastKind := by
  cases lexeme with
  | literal whole =>
      rw [List.getLast?_map, Option.map_map]
      exact getLast?_literalMarks start nonempty
  | _ => rfl

theorem getLast?_spansFrom {list : List Lexeme} (legible : Legible list) :
    (spansFrom start list).getLast?.map Span.kind = list.getLast?.map Lexeme.lastKind := by
  induction list generalizing start with
  | nil => rfl
  | cons lexeme others induction =>
      have rest := induction (start + Text.byteLength lexeme.text) legible.2
      rw [spansFrom] at rest ⊢
      rw [marksFrom, List.map_append]
      cases others with
      | nil =>
          rw [marksFrom, List.map_nil, List.append_nil, getLast?_marks start legible.1.text_ne_nil]
          rfl
      | cons next others =>
          rw [List.getLast?_append_of_ne_nil, rest, List.getLast?_cons_cons]
          intro none
          rw [none, List.getLast?_cons] at rest
          contradiction

theorem endsInLiteral_lineOf {list : List Lexeme} (legible : Legible list) :
    (lineOf offset start list).endsInLiteral = list.getLast?.any (·.lastKind.isLiteral) := by
  have last := getLast?_spansFrom start legible
  have any : (lineOf offset start list).endsInLiteral =
      ((spansFrom start list).getLast?.map Span.kind).any SpanKind.isLiteral := by
    rw [LogicalLine.endsInLiteral, lineOf]
    cases (spansFrom start list).getLast? <;> rfl
  rw [any, last, Option.any_map]

/-- A closed literal ends with its delimiter. -/
theorem lastKind_of_closed {whole : Literal} {source rest : Text}
    (reads : Reads source (.literal whole) rest) (closed : whole.closed = true) :
    (Lexeme.literal whole).lastKind = whole.form.mode.spanKind := by
  have other := whole.form.quote.character_ne.1
  simp [Lexeme.lastKind, reads.getLast?_literal closed, other]

theorem lastKind_consCode {text : Text} {list : List Lexeme} (nonempty : list ≠ []) :
    (consCode text list).getLast?.map Lexeme.lastKind = list.getLast?.map Lexeme.lastKind := by
  rcases consCode_cases text list with
    ⟨behind, others, rfl, same⟩ | ⟨-, ⟨-, same⟩ | ⟨-, same⟩⟩
  · rw [same]
    cases others <;> rfl
  · rw [same]
  · rw [same, List.getLast?_cons_of_ne_nil nonempty]

/-! ### The first visible span -/

theorem find?_literalMarks {kind : SpanKind} (visible : kind ≠ .code) {closed : Bool}
    {character : Char} {rest : Text} (inLine : character ≠ '\n') :
    (((literalMarks kind closed start (character :: rest)).map Prod.fst).find?
      LogicalLine.isVisible).map Span.kind = some kind := by
  have line : (character :: rest).takeWhile (· != '\n') =
      character :: rest.takeWhile (· != '\n') :=
    List.takeWhile_cons_of_pos (by simpa using inLine)
  rw [literalMarks]
  split <;>
    simp [line, lineMarks, LogicalLine.isVisible, visible]

theorem find?_marks {source rest : Text} {lexeme : Lexeme} (reads : Reads source lexeme rest) :
    (((lexeme.marks start).map Prod.fst).find? LogicalLine.isVisible).map Span.kind =
      if lexeme.isVisible then some lexeme.kind else none := by
  cases reads with
  | newline => rfl
  | comment => rfl
  | @code text rest nonempty plain whole =>
      cases blank : Text.isBlank text <;>
        simp [Lexeme.marks, LogicalLine.isVisible, Lexeme.isVisible, Lexeme.kind, blank]
  | @literal form behind opens =>
      have other := Scanner.spanKind_mode_ne_code form
      have inLine := form.quote.character_ne.1
      cases form with
      | string quote => exact find?_literalMarks start other inLine
      | docstring quote => exact find?_literalMarks start other inLine

/-- The first visible span of a line is the one of its first visible lexeme. -/
theorem find?_spansFrom {list : List Lexeme} (legible : Legible list) :
    ((spansFrom start list).find? LogicalLine.isVisible).map Span.kind =
      (list.find? Lexeme.isVisible).map Lexeme.kind := by
  induction list generalizing start with
  | nil => rfl
  | cons lexeme others induction =>
      have rest := induction (start + Text.byteLength lexeme.text) legible.2
      have first := find?_marks start legible.1
      rw [spansFrom] at rest ⊢
      rw [marksFrom, List.map_append, List.find?_append, List.find?_cons]
      cases visible : lexeme.isVisible with
      | true =>
          rw [visible, if_pos rfl] at first
          obtain ⟨span, found, kind⟩ := Option.map_eq_some_iff.1 first
          rw [found, Option.some_or]
          exact congrArg some kind
      | false =>
          rw [visible, if_neg Bool.false_ne_true, Option.map_eq_none_iff] at first
          rw [first, Option.none_or, rest]

/-- The class of a line of lexemes. -/
def classOf (list : List Lexeme) : LineClass :=
  if Text.isBlank (textOf list) then .blank
  else
    match (list.find? Lexeme.isVisible).map Lexeme.kind with
    | some .comment => .comment
    | some .docstring => .docstring
    | _ => .code

theorem lineClass_lineOf {list : List Lexeme} (legible : Legible list) :
    (lineOf offset start list).lineClass = classOf list := by
  have first := find?_spansFrom start legible
  rw [LogicalLine.lineClass, text_lineOf, classOf, ← first]
  rfl

/-! ### Lines by class -/

variable {list : List Lexeme}

/-- A line is its first visible lexeme and those behind it, with white space in
front. -/
theorem exists_of_find?_isVisible {lexeme : Lexeme} (legible : Legible list)
    (found : list.find? Lexeme.isVisible = some lexeme) :
    ∃ blank rest, Text.isBlank blank = true ∧ list = consCode blank (lexeme :: rest) ∧
      Legible (lexeme :: rest) := by
  induction list with
  | nil => contradiction
  | cons first others induction =>
      cases visible : first.isVisible with
      | true =>
          rw [List.find?_cons_of_pos visible, Option.some.injEq] at found
          subst found
          exact ⟨[], others, rfl, (consCode_nil _).symm, legible⟩
      | false =>
          rw [List.find?_cons_of_neg (by simp [visible])] at found
          obtain ⟨blank, rest, space, rfl, others⟩ := induction legible.2 found
          cases first with
          | code text =>
              have front : Text.isBlank text = true := by simpa [Lexeme.isVisible] using visible
              refine ⟨text ++ blank, rest, by rw [Text.isBlank_append, front, space]; rfl, ?_,
                others⟩
              rw [consCode_append, consCode_of_legible legible]
          | _ => contradiction

theorem exists_of_classOf_comment (legible : Legible list) (inLine : Lexeme.newline ∉ list)
    (comment : classOf list = .comment) :
    ∃ blank text, Text.isBlank blank = true ∧ list = consCode blank [.comment text] ∧
      Legible [.comment text] := by
  unfold classOf at comment
  split at comment
  · contradiction
  · cases found : list.find? Lexeme.isVisible with
    | none => simp [found] at comment
    | some lexeme =>
        obtain ⟨blank, rest, space, rfl, shown⟩ := exists_of_find?_isVisible legible found
        rw [found, Option.map_some] at comment
        cases lexeme with
        | comment text =>
            obtain rfl := eq_nil_of_comment shown fun member =>
              inLine (newline_mem_consCode.2 (by simp [member]))
            exact ⟨blank, text, space, rfl, shown⟩
        | literal whole =>
            obtain ⟨form, text, closed⟩ := whole
            cases form <;> contradiction
        | _ => contradiction

/-- The class of a line that starts with a literal. -/
def Literal.lineClass (whole : Literal) : LineClass :=
  match whole.form with
  | .string _ => .code
  | .docstring _ => .docstring

theorem exists_of_classOf_docstring (legible : Legible list)
    (docstring : classOf list = .docstring) :
    ∃ blank whole rest, Text.isBlank blank = true ∧
      list = consCode blank (.literal whole :: rest) ∧ whole.lineClass = .docstring ∧
        Legible (.literal whole :: rest) := by
  unfold classOf at docstring
  split at docstring
  · contradiction
  · cases found : list.find? Lexeme.isVisible with
    | none => simp [found] at docstring
    | some lexeme =>
        obtain ⟨blank, rest, space, rfl, shown⟩ := exists_of_find?_isVisible legible found
        rw [found, Option.map_some] at docstring
        cases lexeme with
        | literal whole =>
            refine ⟨blank, whole, rest, space, rfl, ?_, shown⟩
            obtain ⟨form, text, closed⟩ := whole
            cases form with
            | string quote => contradiction
            | docstring quote => rfl
        | _ => contradiction

theorem head?_textOf_cons_literal {whole : Literal} {rest : List Lexeme}
    (legible : Legible (.literal whole :: rest)) :
    (textOf (.literal whole :: rest)).head?.all (!isWhiteSpace ·) = true := by
  have first : (Lexeme.literal whole).text.head? = _ := head?_literal legible.1
  rw [Legible.head?_textOf_cons legible, first]
  simp [Quote.not_isWhiteSpace]

theorem isBlank_of_classOf_blank (blank : classOf list = .blank) :
    Text.isBlank (textOf list) = true := by
  unfold classOf at blank
  split at blank
  · assumption
  · split at blank <;> contradiction

/-! ### Classes of lines that are put together -/

theorem classOf_cons_code {text : Text} (shown : Text.isBlank text = false) :
    classOf (.code text :: list) = .code := by
  have visible : Lexeme.isVisible (.code text) = true := by simp [Lexeme.isVisible, shown]
  have more : Text.isBlank (Lexeme.code text).text = false := shown
  rw [classOf, textOf_cons, Text.isBlank_append, more, Bool.false_and,
    if_neg Bool.false_ne_true, List.find?_cons_of_pos visible]
  rfl

theorem classOf_cons_comment {text source rest : Text}
    (reads : Reads source (.comment text) rest) : classOf (.comment text :: list) = .comment := by
  have more : Text.isBlank (Lexeme.comment text).text = false :=
    Text.isBlank_eq_false_of_head? (head?_comment reads) (by decide)
  rw [classOf, textOf_cons, Text.isBlank_append, more, Bool.false_and,
    if_neg Bool.false_ne_true]
  rfl

theorem classOf_cons_literal {whole : Literal} {source rest : Text}
    (reads : Reads source (.literal whole) rest) :
    classOf (.literal whole :: list) = whole.lineClass := by
  have more : Text.isBlank (Lexeme.literal whole).text = false :=
    Text.isBlank_eq_false_of_head? (head?_literal reads) whole.form.quote.not_isWhiteSpace
  rw [classOf, textOf_cons, Text.isBlank_append, more, Bool.false_and,
    if_neg Bool.false_ne_true]
  obtain ⟨form, text, closed⟩ := whole
  cases form <;> rfl

theorem classOf_consCode_of_isBlank {blank : Text} (space : Text.isBlank blank = true) :
    classOf (consCode blank list) = classOf list := by
  have first : ((consCode blank list).find? Lexeme.isVisible).map Lexeme.kind =
      (list.find? Lexeme.isVisible).map Lexeme.kind := by
    rcases consCode_cases blank list with
      ⟨behind, others, rfl, same⟩ | ⟨-, ⟨-, same⟩ | ⟨-, same⟩⟩
    · rw [same, List.find?_cons, List.find?_cons]
      simp only [Lexeme.isVisible, Text.isBlank_append, space, Bool.true_and]
      cases Text.isBlank behind <;> rfl
    · rw [same]
    · rw [same, List.find?_cons_of_neg (by simp [Lexeme.isVisible, space])]
  rw [classOf, classOf, first, textOf_consCode, Text.isBlank_append, space, Bool.true_and]

theorem classOf_consCode_of_not_isBlank {text : Text} (shown : Text.isBlank text = false) :
    classOf (consCode text list) = .code := by
  rcases consCode_cases text list with
    ⟨behind, others, rfl, same⟩ | ⟨-, ⟨rfl, -⟩ | ⟨-, same⟩⟩
  · have more : Text.isBlank (text ++ behind) = false := by
      rw [Text.isBlank_append, shown, Bool.false_and]
    rw [same, classOf_cons_code more]
  · contradiction
  · rw [same, classOf_cons_code shown]

end Attributes

end Bilingual

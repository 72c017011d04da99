import Bilingual.Proofs.LexemeLists
import Bilingual.SpanScanner

/-!
# The spans of lexemes

A scan is determined by the lexemes of its text: code, comments and newlines are
one span each, and a literal has a span for each of its lines and for each of its
newlines.  The main statement is `marks_ofText`.  Besides the spans it gives what
the state of the scanner tells about them, whether the literal that a span
belongs to goes on behind it.
-/

namespace Bilingual

/-- The literal that the span belongs to goes on behind it. -/
def literalGoesOn (step : Span × Scanner) : Bool :=
  step.1.kind != .code && step.2.inLiteral

/-- The spans that a scanner gives out, each with whether its literal goes on. -/
def Scanner.marks (scanner : Scanner) : List (Span × Bool) :=
  scanner.steps.map fun step => (step.1, literalGoesOn step)

/-- The span of one line of a literal.  An empty line has none. -/
def lineMarks (kind : SpanKind) (start : Nat) (line : Text) (goesOn : Bool) :
    List (Span × Bool) :=
  if line.isEmpty then [] else [(⟨kind, start, line⟩, goesOn)]

/-- The spans of a literal and of the newlines inside it. -/
def literalMarks (kind : SpanKind) (closed : Bool) (start : Nat) (text : Text) :
    List (Span × Bool) :=
  let line := text.takeWhile (· != '\n')
  match _shape : text.dropWhile (· != '\n') with
  | [] => lineMarks kind start line (!closed)
  | character :: rest =>
      let newline : Span := ⟨.newline, start + Text.byteLength line, [character]⟩
      lineMarks kind start line true ++
        (newline, true) :: literalMarks kind closed newline.stop rest
termination_by text.length
decreasing_by
  have lengths := congrArg List.length
    (List.takeWhile_append_dropWhile (p := (· != '\n')) (l := text))
  rw [_shape, List.length_append, List.length_cons] at lengths
  omega

/-- The spans of a lexeme that starts at a given position. -/
def Lexeme.marks (start : Nat) : Lexeme → List (Span × Bool)
  | .code text => [(⟨.code, start, text⟩, false)]
  | .newline => [(⟨.newline, start, ['\n']⟩, false)]
  | .comment text => [(⟨.comment, start, text⟩, false)]
  | .literal whole => literalMarks whole.form.mode.spanKind whole.closed start whole.text

/-- The spans of lexemes the first of which starts at a given position. -/
def marksFrom (start : Nat) : List Lexeme → List (Span × Bool)
  | [] => []
  | lexeme :: others =>
      lexeme.marks start ++ marksFrom (start + Text.byteLength lexeme.text) others

/-! ### The lines of a literal -/

/-- A text is one line, or it goes on behind its first newline. -/
@[elab_as_elim]
theorem Text.lineInduction {motive : Text → Prop}
    (line : ∀ line, '\n' ∉ line → motive line)
    (lines : ∀ line rest, '\n' ∉ line → motive rest → motive (line ++ '\n' :: rest))
    (text : Text) : motive text := by
  have behind : ∀ before, '\n' ∉ before → motive (before ++ text) := by
    induction text with
    | nil =>
        intro before inLine
        rw [List.append_nil]
        exact line before inLine
    | cons character rest induction =>
        intro before inLine
        by_cases newline : character = '\n'
        · rw [newline]
          exact lines before rest inLine (induction [] (by simp))
        · rw [List.append_cons]
          exact induction _ (by simp [inLine, Ne.symm newline])
  exact behind [] (by simp)

theorem literalMarks_of_line {kind : SpanKind} {closed : Bool} {start : Nat} {line : Text}
    (inLine : '\n' ∉ line) :
    literalMarks kind closed start line = lineMarks kind start line (!closed) := by
  have run : _ ∧ (line ++ []).dropWhile (· != '\n') = [] := firstLine_append inLine rfl
  rw [List.append_nil] at run
  rw [literalMarks]
  split
  · rw [run.1]
  · next shape => simp [run.2] at shape

theorem literalMarks_of_lines {kind : SpanKind} {closed : Bool} {start : Nat}
    {line rest : Text} (inLine : '\n' ∉ line) :
    literalMarks kind closed start (line ++ '\n' :: rest) =
      lineMarks kind start line true ++
        (⟨.newline, start + Text.byteLength line, ['\n']⟩, true) ::
          literalMarks kind closed
            (start + Text.byteLength line + Text.byteLength ['\n']) rest := by
  have run : _ ∧ (line ++ '\n' :: rest).dropWhile (· != '\n') = '\n' :: rest :=
    firstLine_append inLine rfl
  rw [literalMarks]
  split
  · next shape => simp [run.2] at shape
  · next character after shape =>
      rw [run.2, List.cons.injEq] at shape
      obtain ⟨rfl, rfl⟩ := shape
      rw [run.1]
      rfl

namespace Scanner

/-! ### Single steps of a scanner -/

theorem marks_of_next? {scanner after : Scanner} {span : Span}
    (next : scanner.next? = some (span, after)) :
    scanner.marks = (span, literalGoesOn (span, after)) :: after.marks := by
  rw [marks, steps_of_next? next]
  rfl

theorem marks_of_ended {scanner : Scanner} (ended : scanner.next? = none) :
    scanner.marks = [] := by
  rw [marks, steps_of_ended ended]
  rfl

theorem marks_congr {scanner other : Scanner} (same : scanner.next? = other.next?) :
    scanner.marks = other.marks := by
  rw [marks, marks, steps_congr same]

/-- The scanner in code, with nothing pending. -/
def inCode (start : Nat) (rest : Text) : Scanner :=
  ⟨start, [], rest, .code, none⟩

/-- The scanner inside a literal, whose opening may be pending. -/
def within (form : LiteralForm) (start : Nat) (pending rest : Text) : Scanner :=
  ⟨start, pending, rest, form.mode, none⟩

theorem next?_inCode (start : Nat) (rest : Text) :
    (inCode start rest).next? = (inCode start rest).nextFromCode? := rfl

theorem next?_within (form : LiteralForm) (start : Nat) (pending rest : Text) :
    (within form start pending rest).next? =
      (within form start pending rest).finish (form.mode.body rest) := by
  cases form <;> rfl

theorem marks_inCode_nil (start : Nat) : (inCode start []).marks = [] :=
  marks_of_ended rfl

theorem marks_inCode_newline (start : Nat) (rest : Text) :
    (inCode start ('\n' :: rest)).marks =
      (⟨.newline, start, ['\n']⟩, false) ::
        (inCode (start + Text.byteLength ['\n']) rest).marks := by
  have next : (inCode start ('\n' :: rest)).next? = some (⟨.newline, start, ['\n']⟩,
      inCode (start + Text.byteLength ['\n']) rest) := rfl
  rw [marks_of_next? next]
  rfl

/-- The newline behind a span waits, and is given out next. -/
theorem marks_queued (start : Nat) (rest : Text) (mode : ScanMode) (newline : Span) :
    (⟨start, [], rest, mode, some newline⟩ : Scanner).marks =
      (newline, literalGoesOn (newline, ⟨start, [], rest, mode, none⟩)) ::
        (⟨start, [], rest, mode, none⟩ : Scanner).marks :=
  marks_of_next? rfl

theorem codeBody_append {text rest : Text} (plain : text.all isPlainCode = true)
    (whole : rest.head?.all (!isPlainCode ·) = true) :
    codeBody (text ++ rest) = ⟨text, false, rest⟩ := by
  have run := takeWhile_dropWhile_append (List.all_eq_true.1 plain) whole
  rw [codeBody, run.1, run.2]

/-- What opens is given out together with its delimiter, whether or not the
delimiter is pending. -/
theorem marks_opened {start : Nat} {source delimiter behind : Text} {mode : ScanMode}
    (opens : opening? source = some (mode, delimiter, behind)) :
    (⟨start, delimiter, behind, mode, none⟩ : Scanner).marks = (inCode start source).marks := by
  have noCode := codeBody_of_opening? opens
  have literalMode : mode ≠ .code := by
    rcases opening?_cases opens with ⟨rfl, -⟩ | ⟨form, rfl, -, -⟩
    · simp
    · exact form.mode_ne_code
  apply marks_congr
  rw [next?_inCode]
  simp only [next?, literalMode, if_false, nextFromCode?, inCode, noCode, opens,
    List.append_nil, List.isEmpty_nil, if_true, Text.byteLength_nil, Nat.add_zero]

theorem marks_inCode_code {start : Nat} {text rest : Text} (nonempty : text ≠ [])
    (plain : text.all isPlainCode = true)
    (whole : rest.head?.all (!isPlainCode ·) = true) :
    (inCode start (text ++ rest)).marks =
      (⟨.code, start, text⟩, false) ::
        (inCode (start + Text.byteLength text) rest).marks := by
  have body := codeBody_append plain whole
  have visible : text.isEmpty = false := by simpa using nonempty
  cases opens : opening? rest with
  | some found =>
      obtain ⟨mode, delimiter, behind⟩ := found
      have next : (inCode start (text ++ rest)).next? = some (⟨.code, start, text⟩,
          ⟨start + Text.byteLength text, delimiter, behind, mode, none⟩) := by
        rw [next?_inCode]
        simp only [nextFromCode?, inCode, body, opens, List.nil_append, visible,
          Bool.false_eq_true, if_false]
        rfl
      rw [marks_of_next? next, marks_opened opens]
      rfl
  | none =>
      cases rest with
      | nil =>
          have next : (inCode start (text ++ [])).next? = some (⟨.code, start, text⟩,
              inCode (start + Text.byteLength text) []) := by
            rw [next?_inCode]
            simp only [nextFromCode?, inCode, body, opens, finish, List.nil_append, visible,
              Bool.false_eq_true, if_false]
            rfl
          rw [marks_of_next? next]
          rfl
      | cons character rest =>
          have newline : character = '\n' := by
            by_contra inLine
            have plainNext := isPlainCode_of_opening? inLine opens
            simp [plainNext] at whole
          subst newline
          have next : (inCode start (text ++ '\n' :: rest)).next? =
              some (⟨.code, start, text⟩,
                ⟨start + Text.byteLength text + Text.byteLength ['\n'], [], rest, .code,
                  some ⟨.newline, start + Text.byteLength text, ['\n']⟩⟩) := by
            rw [next?_inCode]
            simp only [nextFromCode?, inCode, body, opens, finish, List.nil_append, visible,
              Bool.false_eq_true, if_false]
            rfl
          rw [marks_of_next? next, marks_queued, marks_inCode_newline]
          rfl

theorem marks_inCode_comment {start : Nat} {text rest : Text} (inLine : '\n' ∉ text)
    (whole : rest.head?.all (· = '\n') = true) :
    (inCode start ('#' :: (text ++ rest))).marks =
      (⟨.comment, start, '#' :: text⟩, false) ::
        (inCode (start + Text.byteLength ('#' :: text)) rest).marks := by
  have run := firstLine_append inLine whole
  rw [← marks_opened (opening?_hash (text ++ rest))]
  cases rest with
  | nil =>
      have next : (⟨start, ['#'], text ++ [], .comment, none⟩ : Scanner).next? =
          some (⟨.comment, start, '#' :: text⟩,
            ⟨start + Text.byteLength ('#' :: text), [], [], .comment, none⟩) := by
        simp only [next?, reduceCtorEq, if_false, continue?, ScanMode.body, commentBody, run.1,
          run.2, finish]
        rfl
      rw [marks_of_next? next, marks_of_ended rfl, marks_inCode_nil]
      rfl
  | cons character rest =>
      obtain rfl : character = '\n' := by simpa using whole
      have next : (⟨start, ['#'], text ++ '\n' :: rest, .comment, none⟩ : Scanner).next? =
          some (⟨.comment, start, '#' :: text⟩,
            ⟨start + Text.byteLength ('#' :: text) + Text.byteLength ['\n'], [], rest, .code,
              some ⟨.newline, start + Text.byteLength ('#' :: text), ['\n']⟩⟩) := by
        simp only [next?, reduceCtorEq, if_false, continue?, ScanMode.body, commentBody, run.1,
          run.2, finish]
        rfl
      rw [marks_of_next? next, marks_queued, marks_inCode_newline]
      rfl

theorem afterNewline_mode (form : LiteralForm) : form.mode.afterNewline = form.mode := by
  cases form <;> rfl

theorem literalGoesOn_of_mode {form : LiteralForm} {span : Span} {after : Scanner}
    (kind : span.kind ≠ .code) (mode : after.mode = form.mode) :
    literalGoesOn (span, after) = true := by
  have inside : after.inLiteral = true := by
    rw [inLiteral, mode]
    cases form <;> rfl
  simp [literalGoesOn, inside, kind]

theorem isLiteral_spanKind_mode (form : LiteralForm) : form.mode.spanKind.isLiteral = true := by
  cases form <;> rfl

theorem spanKind_mode_ne {form : LiteralForm} {kind : SpanKind} (other : kind.isLiteral = false) :
    form.mode.spanKind ≠ kind := by
  rintro rfl
  rw [isLiteral_spanKind_mode] at other
  contradiction

theorem spanKind_mode_ne_code (form : LiteralForm) : form.mode.spanKind ≠ .code :=
  spanKind_mode_ne rfl

theorem spanKind_mode_ne_newline (form : LiteralForm) : form.mode.spanKind ≠ .newline :=
  spanKind_mode_ne rfl

theorem spanKind_mode_ne_comment (form : LiteralForm) : form.mode.spanKind ≠ .comment :=
  spanKind_mode_ne rfl

theorem marks_within_nil (form : LiteralForm) (start : Nat) :
    (within form start [] []).marks = [] := by
  apply marks_of_ended
  cases form <;> rfl

section Within

variable {form : LiteralForm} {start : Nat} {pending source : Text}

theorem newline_notMem_pending (inLine : '\n' ∉ pending) :
    '\n' ∉ pending ++ (form.mode.body source).text := by
  rw [List.mem_append, not_or]
  exact ⟨inLine, form.newline_notMem_body source⟩

theorem marks_within_closing (inLine : '\n' ∉ pending)
    (closed : (form.mode.body source).closed = true) :
    (within form start pending source).marks =
      literalMarks form.mode.spanKind true start (pending ++ (form.mode.body source).text) ++
        (inCode (start + Text.byteLength (pending ++ (form.mode.body source).text))
          (form.mode.body source).rest).marks := by
  have visible : (pending ++ (form.mode.body source).text).isEmpty = false := by
    simp [ScanMode.body_text_ne_nil closed]
  rw [literalMarks_of_line (newline_notMem_pending inLine), lineMarks, visible]
  have next := next?_within form start pending source
  simp only [finish, closed, if_true] at next
  rw [marks_of_next? next]
  simp [literalGoesOn, inLiteral, ScanMode.spanKind, SpanKind.isLiteral, spanOf, within, inCode]

theorem marks_within_ending (inLine : '\n' ∉ pending)
    (left : (form.mode.body source).closed = false) (ended : (form.mode.body source).rest = []) :
    (within form start pending source).marks =
      literalMarks form.mode.spanKind false start (pending ++ (form.mode.body source).text) := by
  rw [literalMarks_of_line (newline_notMem_pending inLine), lineMarks]
  have next := next?_within form start pending source
  simp only [finish, left, ended, Bool.false_eq_true, if_false] at next
  cases empty : (pending ++ (form.mode.body source).text).isEmpty with
  | true =>
      rw [within, empty, if_pos rfl] at next
      rw [within, marks_of_ended next]
      rfl
  | false =>
      rw [within, empty, if_neg Bool.false_ne_true] at next
      rw [within, marks_of_next? next, literalGoesOn_of_mode (spanKind_mode_ne_code form) rfl]
      congr 1
      exact marks_within_nil form _

theorem marks_within_newline {rest : Text} (left : (form.mode.body source).closed = false)
    (newline : (form.mode.body source).rest = '\n' :: rest) :
    (within form start pending source).marks =
      lineMarks form.mode.spanKind start (pending ++ (form.mode.body source).text) true ++
        (⟨.newline, start + Text.byteLength (pending ++ (form.mode.body source).text),
            ['\n']⟩, true) ::
          (within form (start + Text.byteLength (pending ++ (form.mode.body source).text) +
            Text.byteLength ['\n']) [] rest).marks := by
  have next := next?_within form start pending source
  simp only [finish, left, newline, Bool.false_eq_true, if_false] at next
  rw [lineMarks]
  cases empty : (pending ++ (form.mode.body source).text).isEmpty with
  | true =>
      rw [within, empty, if_pos rfl, afterNewline_mode] at next
      rw [within, marks_of_next? next, literalGoesOn_of_mode (by simp) rfl]
      rfl
  | false =>
      rw [within, empty, if_neg Bool.false_ne_true, afterNewline_mode] at next
      rw [within, marks_of_next? next, literalGoesOn_of_mode (spanKind_mode_ne_code form) rfl,
        marks_queued, literalGoesOn_of_mode (by simp) rfl]
      rfl

end Within

/-- The spans of a literal of which the text `pending` was read already. -/
theorem marks_within {form : LiteralForm} {start : Nat} {pending : Text} (source : Text)
    (inLine : '\n' ∉ pending) :
    (within form start pending source).marks =
      literalMarks form.mode.spanKind (literalBody form source).closed start
          (pending ++ (literalBody form source).text) ++
        (inCode (start + Text.byteLength (pending ++ (literalBody form source).text))
          (literalBody form source).rest).marks := by
  induction source using form.lineInduction generalizing start pending with
  | closing source closed =>
      rw [literalBody_of_closed closed, closed]
      exact marks_within_closing inLine closed
  | ending source left ended =>
      rw [literalBody_of_end left ended, left, ended, marks_inCode_nil, List.append_nil]
      exact marks_within_ending inLine left ended
  | goingOn source rest left newline induction =>
      have shape : pending ++ ((form.mode.body source).text ++ ['\n'] ++
          (literalBody form rest).text) =
          (pending ++ (form.mode.body source).text) ++ '\n' :: (literalBody form rest).text := by
        simp
      have stops : start + Text.byteLength (pending ++ (form.mode.body source).text ++
          '\n' :: (literalBody form rest).text) =
          start + Text.byteLength (pending ++ (form.mode.body source).text) +
            Text.byteLength ['\n'] + Text.byteLength (literalBody form rest).text := by
        simp only [Text.byteLength_append, Text.byteLength_cons, Text.byteLength_nil]
        omega
      rw [literalBody_of_newline left newline, marks_within_newline left newline,
        @induction _ [] (by simp)]
      simp only [SpanBody.prepend, List.nil_append]
      rw [shape, literalMarks_of_lines (newline_notMem_pending inLine), stops, List.append_assoc,
        List.cons_append]

/-- A scan in code gives out the spans of the lexemes that are left. -/
theorem marks_inCode (start : Nat) (source : Text) :
    (inCode start source).marks = marksFrom start (lexemes source) := by
  induction source using lexemeInduction generalizing start with
  | nil => rw [lexemes_nil, marksFrom, marks_inCode_nil]
  | cons source lexeme rest reads induction =>
      rw [lexemes_of_reads reads, marksFrom, ← induction]
      cases reads with
      | code nonempty plain whole => rw [marks_inCode_code nonempty plain whole]; rfl
      | newline => rw [marks_inCode_newline]; rfl
      | comment inLine whole => rw [marks_inCode_comment inLine whole]; rfl
      | @literal form behind opens =>
          rw [← marks_opened (opening?_delimiter opens)]
          exact marks_within behind form.newline_notMem_delimiter

end Scanner

/-- The scan of a text gives out the spans of its lexemes. -/
theorem marks_ofText (source : Text) :
    (Scanner.ofText source).marks = marksFrom 0 (lexemes source) :=
  Scanner.marks_inCode 0 source

theorem scan_eq_marksFrom (source : Text) :
    scan source = (marksFrom 0 (lexemes source)).map Prod.fst := by
  rw [← marks_ofText, Scanner.marks, List.map_map, scan]
  rfl

end Bilingual

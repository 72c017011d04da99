import Bilingual.Proofs.LineLexemes
import Bilingual.Proofs.SpanEnds

/-!
# How a scan ends

At the end of a text the scanner is in code unless the text ends in a comment or in
a literal that was never closed.  This is what `endsInCode_iff` says, by the last
lexeme of the text.  The state of the scanner is followed to its last step only:
what that step gives out tells the mode behind it.
-/

namespace Bilingual

/-- The scanner comes to the end of the text in code. -/
def EndsInCode (source : Text) : Prop :=
  (Scanner.ofText source).final.mode = .code

instance (source : Text) : Decidable (EndsInCode source) :=
  inferInstanceAs (Decidable (_ = _))

namespace Scanner

variable {scanner after : Scanner} {span : Span} {body : SpanBody}

/-- Only newlines wait, and a comment does not go on behind them. -/
def NewlineWaits (scanner : Scanner) : Prop :=
  ∀ span ∈ scanner.queued, span.kind = .newline ∧ scanner.mode ≠ .comment

/-- The scanner is left in a comment behind a comment only, and never in a literal
behind code. -/
structure LeavesOff (span : Span) (after : Scanner) : Prop where
  comment : after.mode = .comment ↔ span.kind = .comment
  code : span.kind = .code → after.inLiteral = false

theorem afterNewline_ne_comment (mode : ScanMode) : mode.afterNewline ≠ .comment := by
  cases mode <;> simp [ScanMode.afterNewline]

theorem Finishes.newlineWaits (finishes : scanner.Finishes body span after) :
    after.NewlineWaits := by
  intro newline queued
  cases finishes with
  | closed closed => contradiction
  | ended left ended nonempty => contradiction
  | atNewline left shape empty isNewline => contradiction
  | beforeNewline left shape nonempty isNewline =>
      rw [isNewline] at queued
      obtain rfl := Option.some.inj queued
      exact ⟨rfl, afterNewline_ne_comment _⟩

theorem Finishes.leavesOff (finishes : scanner.Finishes body span after)
    (closes : body.closed = true → scanner.mode ≠ .comment) (ended : after.next? = none) :
    LeavesOff span after := by
  cases finishes with
  | closed closed =>
      have mode := closes closed
      refine ⟨iff_of_false (by simp) ?_, fun _ => rfl⟩
      cases kind : scanner.mode <;> simp_all [spanOf, ScanMode.spanKind]
  | ended left noRest nonempty =>
      cases kind : scanner.mode <;>
        exact ⟨by simp [spanOf, kind, ScanMode.spanKind],
          by simp [spanOf, kind, inLiteral, ScanMode.spanKind, SpanKind.isLiteral]⟩
  | atNewline left shape empty isNewline =>
      rw [isNewline]
      exact ⟨iff_of_false (afterNewline_ne_comment _) (by simp), by simp⟩
  | beforeNewline left shape nonempty isNewline =>
      have idle := (eq_nil_of_ended ended).1
      contradiction

theorem ne_comment_of_closed {mode : ScanMode} {source : Text}
    (closed : (mode.body source).closed = true) : mode ≠ .comment := by
  rintro rfl
  contradiction

/-- Each step of a scan leaves newlines waiting at most, and the last one leaves off
as it should. -/
theorem leavesOff_of_next? (waits : scanner.NewlineWaits)
    (next : scanner.next? = some (span, after)) :
    after.NewlineWaits ∧ (after.next? = none → LeavesOff span after) := by
  cases advances_of_next? next with
  | queued queued =>
      obtain ⟨newline, mode⟩ := waits span queued
      exact ⟨fun _ none => absurd none (by simp),
        fun _ => ⟨iff_of_false mode (by simp [newline]), by simp [newline]⟩⟩
  | code idle code plain finishes =>
      exact ⟨finishes.newlineWaits, finishes.leavesOff (by simp [code])⟩
  | codeInFront idle code opens nonempty =>
      refine ⟨fun _ none => absurd none (by simp), fun ended => ?_⟩
      exact absurd (eq_nil_of_ended ended).2.1 (opening?_delimiter_cases opens).2.1
  | opened idle code opens empty finishes =>
      exact ⟨finishes.newlineWaits, finishes.leavesOff ne_comment_of_closed⟩
  | readOn idle notCode finishes =>
      exact ⟨finishes.newlineWaits, finishes.leavesOff ne_comment_of_closed⟩

theorem leavesOff_of_getLast? (waits : scanner.NewlineWaits) :
    ∀ step ∈ scanner.steps.getLast?, LeavesOff step.1 step.2 := by
  fun_induction steps scanner with
  | case1 scanner ended => simp
  | case2 scanner span after next induction =>
      obtain ⟨waitsAfter, leavesOff⟩ := leavesOff_of_next? waits next
      intro step last
      cases nextAfter : after.next? with
      | none =>
          rw [steps_of_ended nextAfter] at last
          obtain rfl : (span, after) = step := by simpa using last
          exact leavesOff nextAfter
      | some found =>
          have more : after.steps ≠ [] := by simp [steps_of_next? nextAfter]
          rw [List.getLast?_cons_of_ne_nil more] at last
          exact induction waitsAfter step last

theorem LeavesOff.mode_iff (leavesOff : LeavesOff span after) :
    after.mode = .code ↔ span.kind ≠ .comment ∧ literalGoesOn (span, after) = false := by
  rw [ne_eq, ← leavesOff.comment, literalGoesOn]
  have code := leavesOff.code
  unfold inLiteral at code ⊢
  cases mode : after.mode <;> simp_all [ScanMode.spanKind, SpanKind.isLiteral]

end Scanner

/-- The last span of a scan and whether its literal goes on tell the last mode. -/
theorem endsInCode_iff_marks (source : Text) :
    EndsInCode source ↔ ∀ mark ∈ (Scanner.ofText source).marks.getLast?,
      mark.1.kind ≠ .comment ∧ mark.2 = false := by
  have waits : (Scanner.ofText source).NewlineWaits := by
    intro span queued
    contradiction
  have leavesOff := Scanner.leavesOff_of_getLast? waits
  rw [EndsInCode, Scanner.final, Scanner.marks, List.getLast?_map]
  cases last : (Scanner.ofText source).steps.getLast? with
  | none => simp [Scanner.ofText]
  | some step => simpa using (leavesOff step last).mode_iff

/-! ### The last lexeme -/

/-- The scanner is in code behind the lexeme. -/
def Lexeme.leavesCode : Lexeme → Bool
  | .code _ => true
  | .newline => true
  | .comment _ => false
  | .literal whole => whole.closed

theorem goesOn_getLast?_literalMarks {kind : SpanKind} {closed : Bool} {start : Nat} {text : Text}
    (inLine : closed = true → text.getLast? ≠ some '\n') {mark : Span × Bool}
    (last : mark ∈ (literalMarks kind closed start text).getLast?) : mark.2 = !closed := by
  fun_induction literalMarks kind closed start text with
  | case1 start text line shape =>
      unfold lineMarks at last
      split at last
      · contradiction
      · obtain rfl : _ = mark := by simpa using last
        rfl
  | case2 start text line character rest shape newline induction =>
      obtain ⟨isNewline, parts⟩ := firstLine_append_newline shape
      rw [List.getLast?_append_of_ne_nil _ (by simp)] at last
      by_cases empty : rest = []
      · rw [empty, literalMarks_of_line (by simp)] at last
        obtain rfl : (newline, true) = mark := by simpa [lineMarks] using last
        cases closed with
        | false => rfl
        | true =>
            rw [← parts, empty, isNewline, List.getLast?_concat] at inLine
            exact absurd rfl (inLine rfl)
      · have more : literalMarks kind closed newline.stop rest ≠ [] := by
          intro none
          have some := @getLast?_literalMarks newline.stop kind closed rest empty
          rw [none] at some
          contradiction
        rw [List.getLast?_cons_of_ne_nil more] at last
        refine induction (fun isClosed => ?_) last
        have inLine := inLine isClosed
        rwa [← parts, List.getLast?_append_of_ne_nil _ (by simp),
          List.getLast?_cons_of_ne_nil empty] at inLine

theorem goesOn_getLast?_marks {source rest : Text} {whole : Literal}
    (reads : Reads source (.literal whole) rest) {start : Nat} {mark : Span × Bool}
    (last : mark ∈ ((Lexeme.literal whole).marks start).getLast?) : mark.2 = !whole.closed := by
  refine goesOn_getLast?_literalMarks (fun closed => ?_) last
  rw [reads.getLast?_literal closed]
  have other := whole.form.quote.character_ne.1
  simpa using other

theorem mark_getLast?_iff {source rest : Text} {lexeme : Lexeme} (reads : Reads source lexeme rest)
    {start : Nat} {mark : Span × Bool} (last : mark ∈ (lexeme.marks start).getLast?) :
    mark.1.kind ≠ .comment ∧ mark.2 = false ↔ lexeme.leavesCode = true := by
  cases lexeme with
  | literal whole =>
      have goesOn := goesOn_getLast?_marks reads last
      have other : mark.1.kind ≠ .comment := by
        rcases kind_of_mem_literalMarks (List.mem_of_getLast? last) with kind | kind
        · rw [kind]
          exact Scanner.spanKind_mode_ne_comment whole.form
        · simp [kind]
      rw [goesOn, Lexeme.leavesCode]
      simp [other]
  | _ =>
      obtain rfl : _ = mark := by simpa [Lexeme.marks] using last
      simp [Lexeme.leavesCode]

theorem marksFrom_append (start : Nat) (first second : List Lexeme) :
    marksFrom start (first ++ second) =
      marksFrom start first ++ marksFrom (start + Text.byteLength (textOf first)) second := by
  induction first generalizing start with
  | nil => rfl
  | cons lexeme others induction =>
      rw [List.cons_append, marksFrom, marksFrom, induction, List.append_assoc, textOf_cons,
        Text.byteLength_append, Nat.add_assoc]

/-- The last span of a scan belongs to the last lexeme. -/
theorem exists_mark_getLast? {source : Text} {before : List Lexeme} {last : Lexeme}
    (shape : lexemes source = before ++ [last]) :
    ∃ start, ∃ mark ∈ (last.marks start).getLast?,
      (Scanner.ofText source).marks.getLast? = some mark := by
  have legible := legible_lexemes source
  rw [shape] at legible
  have lastKind := getLast?_marks (Text.byteLength (textOf before))
    legible.of_append_right.1.text_ne_nil
  rw [List.getLast?_map, Option.map_map] at lastKind
  obtain ⟨mark, lastMark, -⟩ := Option.map_eq_some_iff.1 lastKind
  refine ⟨_, mark, lastMark, ?_⟩
  rw [marks_ofText, shape, marksFrom_append, marksFrom, marksFrom, List.append_nil, Nat.zero_add,
    List.getLast?_append, lastMark, Option.some_or]

/-- The scanner comes to the end of a text in code unless the last lexeme is a comment
or a literal that was never closed. -/
theorem endsInCode_iff (source : Text) :
    EndsInCode source ↔ ∀ lexeme ∈ (lexemes source).getLast?, lexeme.leavesCode = true := by
  have legible := legible_lexemes source
  rw [endsInCode_iff_marks]
  rcases List.eq_nil_or_concat' (lexemes source) with empty | ⟨before, last, shape⟩
  · simp [marks_ofText, empty, marksFrom]
  · obtain ⟨start, mark, lastMark, found⟩ := exists_mark_getLast? shape
    rw [shape] at legible ⊢
    rw [found, List.getLast?_concat]
    simpa using mark_getLast?_iff legible.of_append_right.1 lastMark

/-! ### Closed literals -/

/-- All literals of the source are closed: the scanner comes to the end of the text
outside of them. -/
def ClosesLiterals (source : Text) : Prop :=
  (Scanner.ofText source).final.inLiteral = false

instance (source : Text) : Decidable (ClosesLiterals source) :=
  inferInstanceAs (Decidable (_ = _))

theorem closesLiterals_iff_marks (source : Text) :
    ClosesLiterals source ↔ ∀ mark ∈ (Scanner.ofText source).marks.getLast?, mark.2 = false := by
  have waits : (Scanner.ofText source).NewlineWaits := by
    intro span queued
    contradiction
  have leavesOff := Scanner.leavesOff_of_getLast? waits
  rw [ClosesLiterals, Scanner.final, Scanner.marks, List.getLast?_map]
  cases last : (Scanner.ofText source).steps.getLast? with
  | none => simp [Scanner.ofText, Scanner.inLiteral, ScanMode.spanKind, SpanKind.isLiteral]
  | some step =>
      have code := (leavesOff step last).code
      by_cases kind : step.1.kind = .code
      · simp [literalGoesOn, kind, code kind]
      · simp [literalGoesOn, kind]

/-- Behind closed literals a text can go on with a newline. -/
theorem ClosesLiterals.complete {source : Text} (closes : ClosesLiterals source) :
    Complete (lexemes source) := by
  intro last lastOf
  obtain ⟨before, shape⟩ := List.getLast?_eq_some_iff.1 lastOf
  have legible := legible_lexemes source
  rw [shape] at legible
  cases last with
  | newline => rfl
  | comment text => rfl
  | code text => simp [Lexeme.canPrecede, isPlainCode]
  | literal whole =>
      obtain ⟨start, mark, lastMark, found⟩ := exists_mark_getLast? shape
      have other := whole.form.quote.character_ne.1
      have goesOn := (closesLiterals_iff_marks source).1 closes mark found
      rw [goesOn_getLast?_marks legible.of_append_right.1 lastMark] at goesOn
      have closed : whole.closed = true := by simpa using goesOn
      simp [Lexeme.canPrecede, closed, other.symm]

end Bilingual

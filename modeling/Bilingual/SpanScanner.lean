import Bilingual.SpanBodies

/-!
# The span scanner

The scanner gives out the spans of a text one after the other.

A newline is always a span of its own.  It ends a comment, but a string or a
docstring goes on behind it.  A literal that is never closed reaches to the end
of the text, so that scanning cannot fail.

Every step leaves less text to give out, hence a scan ends; this is what
`remaining_lt_of_next?` says.
-/

namespace Bilingual

/-- The state of a scan.  The text `pending` was read but not yet given out; it
is nonempty only behind an opening delimiter whose preceding code has just been
given out.  It starts at the byte position `start`, and `rest` follows it.  A
newline that was read together with the span before it waits in `queued`. -/
structure Scanner where
  start : Nat
  pending : Text
  rest : Text
  mode : ScanMode
  queued : Option Span
  deriving DecidableEq, Repr

namespace Scanner

/-- The scanner at the start of a text. -/
def ofText (source : Text) : Scanner :=
  ⟨0, [], source, .code, none⟩

/-- The scanner is inside a string or a docstring.  This tells a newline that
ends a line from one that belongs to a literal. -/
def inLiteral (scanner : Scanner) : Bool :=
  scanner.mode.spanKind.isLiteral

/-- The span of a given text at the current position, in the current mode. -/
def spanOf (scanner : Scanner) (text : Text) : Span :=
  ⟨scanner.mode.spanKind, scanner.start, text⟩

/-- Gives out the span whose last part has been read, together with the newline
that ended it, if one did.  Nothing is given out at the end of the text when
nothing is left. -/
def finish (scanner : Scanner) (body : SpanBody) : Option (Span × Scanner) :=
  let text := scanner.pending ++ body.text
  let stop := scanner.start + Text.byteLength text
  if body.closed then
    some (scanner.spanOf text, ⟨stop, [], body.rest, .code, none⟩)
  else
    match body.rest with
    | [] =>
        if text.isEmpty then none
        else some (scanner.spanOf text, ⟨stop, [], [], scanner.mode, none⟩)
    | character :: rest =>
        let newline : Span := ⟨.newline, stop, [character]⟩
        let behind : Scanner :=
          ⟨newline.stop, [], rest, scanner.mode.afterNewline, none⟩
        if text.isEmpty then some (newline, behind)
        else some (scanner.spanOf text, { behind with queued := some newline })

/-- Reads on in the current mode. -/
def continue? (scanner : Scanner) : Option (Span × Scanner) :=
  scanner.finish (scanner.mode.body scanner.rest)

/-- Reads code.  When something opens behind it, the code is given out first and
the opening delimiter stays pending; without code in front of the delimiter the
scanner reads on in the new mode at once. -/
def nextFromCode? (scanner : Scanner) : Option (Span × Scanner) :=
  let body := codeBody scanner.rest
  let text := scanner.pending ++ body.text
  match opening? body.rest with
  | none => scanner.finish body
  | some (mode, delimiter, rest) =>
      let opened : Scanner :=
        ⟨scanner.start + Text.byteLength text, delimiter, rest, mode, none⟩
      if text.isEmpty then opened.continue?
      else some (scanner.spanOf text, opened)

/-- The next span and the state behind it, or nothing at the end. -/
def next? (scanner : Scanner) : Option (Span × Scanner) :=
  match scanner.queued with
  | some span => some (span, { scanner with queued := none })
  | none =>
      if scanner.mode = .code then scanner.nextFromCode? else scanner.continue?

/-- How much a scanner still has to give out. -/
def remaining (scanner : Scanner) : Nat :=
  2 * (scanner.pending.length + scanner.rest.length) +
    if scanner.queued.isSome then 1 else 0

/-- The ways to finish a span: behind a closing delimiter, at the end of the text, and
at a newline with or without a text in front of it. -/
inductive Finishes (scanner : Scanner) (body : SpanBody) : Span → Scanner → Prop
  | closed (closed : body.closed = true) :
      Finishes scanner body (scanner.spanOf (scanner.pending ++ body.text))
        ⟨scanner.start + Text.byteLength (scanner.pending ++ body.text), [], body.rest,
          .code, none⟩
  | ended (left : body.closed = false) (ended : body.rest = [])
      (nonempty : scanner.pending ++ body.text ≠ []) :
      Finishes scanner body (scanner.spanOf (scanner.pending ++ body.text))
        ⟨scanner.start + Text.byteLength (scanner.pending ++ body.text), [], [],
          scanner.mode, none⟩
  | atNewline {newline : Span} {character : Char} {rest : Text}
      (left : body.closed = false) (shape : body.rest = character :: rest)
      (empty : scanner.pending ++ body.text = [])
      (isNewline : newline = ⟨.newline, scanner.start, [character]⟩) :
      Finishes scanner body newline
        ⟨newline.stop, [], rest, scanner.mode.afterNewline, none⟩
  | beforeNewline {newline : Span} {character : Char} {rest : Text}
      (left : body.closed = false) (shape : body.rest = character :: rest)
      (nonempty : scanner.pending ++ body.text ≠ [])
      (isNewline : newline = ⟨.newline,
        scanner.start + Text.byteLength (scanner.pending ++ body.text), [character]⟩) :
      Finishes scanner body (scanner.spanOf (scanner.pending ++ body.text))
        ⟨newline.stop, [], rest, scanner.mode.afterNewline, some newline⟩

variable {scanner after : Scanner} {span : Span}

theorem finishes_of_finish {body : SpanBody}
    (finished : scanner.finish body = some (span, after)) :
    scanner.Finishes body span after := by
  simp only [finish] at finished
  cases closed : body.closed with
  | true =>
      rw [closed, if_pos rfl, Option.some.injEq, Prod.mk.injEq] at finished
      obtain ⟨rfl, rfl⟩ := finished
      exact .closed closed
  | false =>
      rw [closed, if_neg Bool.false_ne_true] at finished
      cases shape : body.rest with
      | nil =>
          simp only [shape] at finished
          split at finished
          · simp at finished
          · next nonempty =>
              rw [Option.some.injEq, Prod.mk.injEq] at finished
              obtain ⟨rfl, rfl⟩ := finished
              exact .ended closed shape (mt List.isEmpty_iff.2 nonempty)
      | cons character rest =>
          simp only [shape] at finished
          split at finished
          · next empty =>
              rw [List.isEmpty_iff] at empty
              rw [Option.some.injEq, Prod.mk.injEq] at finished
              obtain ⟨rfl, rfl⟩ := finished
              refine .atNewline closed shape empty ?_
              rw [empty]
              rfl
          · next nonempty =>
              rw [Option.some.injEq, Prod.mk.injEq] at finished
              obtain ⟨rfl, rfl⟩ := finished
              exact .beforeNewline closed shape (mt List.isEmpty_iff.2 nonempty) rfl

/-- The ways to take a step: a newline waits, code ends in front of a newline or at the
end, code ends in front of something that opens, something opens at once, and a literal
or a comment is read on. -/
inductive Advances (scanner : Scanner) : Span → Scanner → Prop
  | queued {span : Span} (queued : scanner.queued = some span) :
      Advances scanner span { scanner with queued := none }
  | code {span : Span} {after : Scanner} (idle : scanner.queued = none)
      (code : scanner.mode = .code) (plain : opening? (codeBody scanner.rest).rest = none)
      (finishes : scanner.Finishes (codeBody scanner.rest) span after) :
      Advances scanner span after
  | codeInFront {mode : ScanMode} {delimiter rest : Text} (idle : scanner.queued = none)
      (code : scanner.mode = .code)
      (opens : opening? (codeBody scanner.rest).rest = some (mode, delimiter, rest))
      (nonempty : scanner.pending ++ (codeBody scanner.rest).text ≠ []) :
      Advances scanner (scanner.spanOf (scanner.pending ++ (codeBody scanner.rest).text))
        ⟨scanner.start + Text.byteLength (scanner.pending ++ (codeBody scanner.rest).text),
          delimiter, rest, mode, none⟩
  | opened {mode : ScanMode} {delimiter rest : Text} {span : Span} {after : Scanner}
      (idle : scanner.queued = none) (code : scanner.mode = .code)
      (opens : opening? (codeBody scanner.rest).rest = some (mode, delimiter, rest))
      (empty : scanner.pending ++ (codeBody scanner.rest).text = [])
      (finishes : Finishes ⟨scanner.start, delimiter, rest, mode, none⟩ (mode.body rest)
        span after) :
      Advances scanner span after
  | readOn {span : Span} {after : Scanner} (idle : scanner.queued = none)
      (notCode : scanner.mode ≠ .code)
      (finishes : scanner.Finishes (scanner.mode.body scanner.rest) span after) :
      Advances scanner span after

theorem advances_of_next? (next : scanner.next? = some (span, after)) :
    scanner.Advances span after := by
  simp only [next?] at next
  split at next
  · next newline queued =>
      rw [Option.some.injEq, Prod.mk.injEq] at next
      obtain ⟨rfl, rfl⟩ := next
      exact .queued queued
  · next idle =>
      split at next
      · next code =>
          simp only [nextFromCode?] at next
          split at next
          · next plain => exact .code idle code plain (finishes_of_finish next)
          · next opens =>
              split at next
              · next empty =>
                  rw [List.isEmpty_iff] at empty
                  rw [empty] at next
                  exact .opened idle code opens empty (finishes_of_finish next)
              · next nonempty =>
                  rw [Option.some.injEq, Prod.mk.injEq] at next
                  obtain ⟨rfl, rfl⟩ := next
                  exact .codeInFront idle code opens (mt List.isEmpty_iff.2 nonempty)
      · next notCode => exact .readOn idle notCode (finishes_of_finish next)

/-- Finishing a span uses up the text of its body. -/
theorem Finishes.remaining_lt {body : SpanBody} (finishes : scanner.Finishes body span after)
    (parts : body.text ++ body.rest = scanner.rest)
    (progress : body.closed = true → body.text ≠ []) :
    after.remaining < 2 * (scanner.pending.length + scanner.rest.length) := by
  have lengths := congrArg List.length parts
  rw [List.length_append] at lengths
  cases finishes with
  | closed closed =>
      have nonempty := List.length_pos_iff.2 (progress closed)
      simp [remaining]
      omega
  | ended left ended nonempty =>
      have nonempty := List.length_pos_iff.2 nonempty
      rw [ended, List.length_nil] at lengths
      rw [List.length_append] at nonempty
      simp [remaining]
      omega
  | atNewline left shape empty isNewline =>
      rw [shape, List.length_cons] at lengths
      simp [remaining]
      omega
  | beforeNewline left shape nonempty isNewline =>
      rw [shape, List.length_cons] at lengths
      simp [remaining]
      omega

/-- Every step of a scan leaves less to give out. -/
theorem remaining_lt_of_next? (next : scanner.next? = some (span, after)) :
    after.remaining < scanner.remaining := by
  have idle_remaining (idle : scanner.queued = none) :
      scanner.remaining = 2 * (scanner.pending.length + scanner.rest.length) := by
    simp [remaining, idle]
  have codeParts := codeBody_text_append_rest scanner.rest
  cases advances_of_next? next with
  | queued queued => simp [remaining, queued]
  | code idle code plain finishes =>
      rw [idle_remaining idle]
      exact finishes.remaining_lt codeParts (fun closed => by simp [codeBody] at closed)
  | codeInFront idle code opens nonempty =>
      have lengths := congrArg List.length codeParts
      have nonempty := List.length_pos_iff.2 nonempty
      rw [← opening?_eq_some opens] at lengths
      simp only [List.length_append] at lengths nonempty
      rw [idle_remaining idle]
      simp [remaining]
      omega
  | opened idle code opens empty finishes =>
      have lengths := congrArg List.length codeParts
      have progress := finishes.remaining_lt (ScanMode.body_text_append_rest _ _)
        fun closed => ScanMode.body_text_ne_nil closed
      rw [← opening?_eq_some opens] at lengths
      simp only [List.length_append] at lengths progress
      rw [idle_remaining idle]
      omega
  | readOn idle notCode finishes =>
      rw [idle_remaining idle]
      exact finishes.remaining_lt (ScanMode.body_text_append_rest _ _)
        fun closed => ScanMode.body_text_ne_nil closed

/-- The steps of a scan: each span with the state right behind it. -/
def steps (scanner : Scanner) : List (Span × Scanner) :=
  match _found : scanner.next? with
  | none => []
  | some (span, after) => (span, after) :: after.steps
termination_by scanner.remaining
decreasing_by exact remaining_lt_of_next? (by assumption)

theorem steps_of_next? {scanner after : Scanner} {span : Span}
    (next : scanner.next? = some (span, after)) :
    scanner.steps = (span, after) :: after.steps := by
  rw [steps]
  split
  · next none => simp [none] at next
  · next other =>
      rw [next, Option.some.injEq, Prod.mk.injEq] at other
      rw [other.1, other.2]

theorem steps_of_ended {scanner : Scanner} (ended : scanner.next? = none) :
    scanner.steps = [] := by
  rw [steps]
  split
  · rfl
  · next other => simp [ended] at other

/-- Scanners that give out the same next give out the same altogether. -/
theorem steps_congr {scanner other : Scanner} (same : scanner.next? = other.next?) :
    scanner.steps = other.steps := by
  cases next : scanner.next? with
  | none => rw [steps_of_ended next, steps_of_ended (same ▸ next)]
  | some step =>
      obtain ⟨span, after⟩ := step
      rw [steps_of_next? next]
      rw [same] at next
      rw [steps_of_next? next]

/-- The state at the end of a scan. -/
def final (scanner : Scanner) : Scanner :=
  (scanner.steps.getLast?.map Prod.snd).getD scanner

end Scanner

/-- The spans of a source text, in order. -/
def scan (source : Text) : List Span :=
  (Scanner.ofText source).steps.map Prod.fst

end Bilingual

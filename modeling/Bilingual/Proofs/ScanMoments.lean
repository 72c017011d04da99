import Bilingual.Proofs.ScanCursor
import Mathlib.Data.List.ReduceOption

/-!
# A scan by positions never fails

Turn by turn, a scan by byte positions does what the scanner does, `takes_turn?`.  So
it answers every request, with the spans of the source one after the other and with
nothing behind the last one; and whenever it stops to look, what it gave out and what
it has left are the source.  The main statement is `scan_lossless`.
-/

namespace Bilingual

namespace Scanner

variable {source rest : Text} {scanner : Scanner} {spans : List Span}

/-- The scanner that has read so much more of its text. -/
def readOn (scanner : Scanner) (text rest : Text) : Scanner :=
  { scanner with pending := scanner.pending ++ text, rest := rest }

theorem finish_readOn (scanner : Scanner) (text rest : Text) (body : SpanBody) :
    (scanner.readOn text rest).finish body = scanner.finish (body.prepend text) := by
  simp only [finish, readOn, SpanBody.prepend, List.append_assoc]
  rfl

theorem next?_eq_finish (idle : scanner.queued = none) (notCode : scanner.mode ≠ .code) :
    scanner.next? = scanner.finish (scanner.mode.body scanner.rest) := by
  simp only [next?, idle, notCode, if_false, continue?]

theorem next?_readOn {text : Text} (idle : scanner.queued = none)
    (notCode : scanner.mode ≠ .code)
    (body : scanner.mode.body scanner.rest = (scanner.mode.body rest).prepend text) :
    (scanner.readOn text rest).next? = scanner.next? := by
  rw [next?_eq_finish idle notCode, body, ← finish_readOn]
  exact next?_eq_finish idle notCode

theorem next?_readOn_code {character : Char} (idle : scanner.queued = none)
    (code : scanner.mode = .code) (plain : isPlainCode character = true)
    (shape : scanner.rest = character :: rest) :
    (scanner.readOn [character] rest).next? = scanner.next? := by
  have body : codeBody (character :: rest) = (codeBody rest).prepend [character] := by
    simp [codeBody, SpanBody.prepend, plain]
  have readIdle : (scanner.readOn [character] rest).queued = none := idle
  have readMode : (scanner.readOn [character] rest).mode = .code := code
  simp only [next?, readIdle, idle, readMode, code, if_true, nextFromCode?, shape, body,
    finish_readOn]
  simp only [readOn, SpanBody.prepend, List.append_assoc]
  rfl

/-- A turn answers with the next span of a scanner, or reads on so that it stays the
next one. -/
def Takes (scanner : Scanner) (source : Text) (given : List Span) (turn : Option Turn) :
    Prop :=
  turn = some (scanner.answer scanner.next?) ∨
    ∃ further : Scanner, turn = some (.goesOn further.cursor) ∧
      further.next? = scanner.next? ∧ further.Partitions source given ∧
      further.rest.length < scanner.rest.length

variable {given : List Span} {character : Char}

theorem pass_cursor (rest : Text) :
    scanner.cursor.pass character = (scanner.readOn [character] rest).cursor := by
  simp [Cursor.pass, cursor, readOn, Nat.add_assoc]

theorem partitions_readOn {text : Text} (partitions : scanner.Partitions source given)
    (shape : scanner.rest = text ++ rest) :
    (scanner.readOn text rest).Partitions source given := by
  rw [Partitions, shape, ← List.append_assoc] at partitions
  exact partitions

theorem unread?_cursor
    (partition : IsPartition source spans scanner.start (scanner.pending ++ scanner.rest)) :
    scanner.cursor.unread? source = some scanner.rest := by
  have cut := partition.slice? (congrArg (scanner.pending ++ ·) (List.append_nil scanner.rest))
  rw [Cursor.unread?, partition.byteLength_source, Text.byteLength_append, ← Nat.add_assoc]
  exact cut

theorem takes_readOn {text : Text} (partitions : scanner.Partitions source given)
    (shape : scanner.rest = text ++ rest) (nonempty : text ≠ [])
    (same : (scanner.readOn text rest).next? = scanner.next?) :
    scanner.Takes source given (some (.goesOn (scanner.readOn text rest).cursor)) := by
  refine .inr ⟨_, rfl, same, partitions_readOn partitions shape, ?_⟩
  · have wide := List.length_pos_iff.2 nonempty
    rw [shape, List.length_append, readOn]
    exact Nat.lt_add_of_pos_left wide

section Reading

variable (partitions : scanner.Partitions source given) (idle : scanner.queued = none)
  (shape : scanner.rest = character :: rest)

include partitions idle shape

theorem takes_pass (notCode : scanner.mode ≠ .code)
    (body : scanner.mode.body (character :: rest) = (scanner.mode.body rest).prepend [character]) :
    scanner.Takes source given (some (.goesOn (scanner.cursor.pass character))) := by
  rw [pass_cursor rest]
  rw [← shape] at body
  exact takes_readOn partitions shape (by simp) (next?_readOn idle notCode body)

theorem takes_newline (newline : character = '\n')
    (next : scanner.next? = scanner.finish ⟨[], false, '\n' :: rest⟩) :
    scanner.Takes source given (scanner.cursor.newline? source) := by
  left
  rw [next]
  subst newline
  exact newline?_cursor (isPartition_of_idle partitions idle) shape

theorem takes_read_code (code : scanner.mode = .code) :
    scanner.Takes source given (scanner.cursor.read? source character rest) := by
  have mode : scanner.cursor.mode = .code := code
  have next : scanner.next? = scanner.nextFromCode? := by
    simp only [next?, idle, code, if_true]
  simp only [Cursor.read?, mode]
  split
  · next opened delimiter behind opens =>
      have partition := isPartition_of_idle partitions idle
      have notCode := (opening?_delimiter_cases opens).1
      have parts := opening?_eq_some opens
      rw [← shape] at opens parts
      have begins := open?_cursor partition idle opens
      simp only [nextFromCode?, codeBody_of_opening? opens, List.append_nil, opens] at next
      simp only [begins]
      cases pending : scanner.pending with
      | nil =>
          rw [pending, List.nil_append] at partition
          refine .inr ⟨_, rfl, ?_, ?_, ?_⟩
          · rw [next, pending]
            simp [next?, notCode]
          · rw [Partitions, Option.toList_none, List.append_nil, parts]
            exact partition
          · have wide := List.length_pos_iff.2 (opening?_delimiter_cases opens).2.1
            rw [← parts, List.length_append]
            exact Nat.lt_add_of_pos_left wide
      | cons first others =>
          left
          simp [next, pending, answer, spanOf, code, ScanMode.spanKind]
  · next opens =>
      split
      · next newline =>
          apply takes_newline partitions idle shape newline
          subst newline
          simp [next, nextFromCode?, shape, codeBody, isPlainCode, opens]
      · next inLine =>
          have plain := isPlainCode_of_opening? inLine opens
          rw [pass_cursor rest]
          exact takes_readOn partitions shape (by simp) (next?_readOn_code idle code plain shape)

theorem takes_read_comment (comment : scanner.mode = .comment) :
    scanner.Takes source given (scanner.cursor.read? source character rest) := by
  have mode : scanner.cursor.mode = .comment := comment
  simp only [Cursor.read?, mode]
  split
  · next newline =>
      apply takes_newline partitions idle shape newline
      rw [next?_eq_finish idle (by simp [comment])]
      simp [comment, shape, newline, ScanMode.body, commentBody]
  · next inLine =>
      apply takes_pass partitions idle shape (by simp [comment])
      simp [comment, ScanMode.body, commentBody, SpanBody.prepend, inLine]

theorem takes_close {delimiter behind : Text} (notCode : scanner.mode ≠ .code)
    (width : Text.byteLength delimiter = scanner.mode.delimiterWidth)
    (parts : delimiter ++ behind = character :: rest)
    (body : scanner.mode.body (character :: rest) = ⟨delimiter, true, behind⟩) :
    scanner.Takes source given (scanner.cursor.close? source) := by
  left
  rw [← shape] at parts body
  rw [next?_eq_finish idle notCode, body]
  exact close?_cursor (isPartition_of_idle partitions idle) idle parts.symm width

theorem takes_read_string {quote : Quote} (string : scanner.mode = .string quote) :
    scanner.Takes source given (scanner.cursor.read? source character rest) := by
  have mode : scanner.cursor.mode = .string quote := string
  have notCode : scanner.mode ≠ .code := by simp [string]
  simp only [Cursor.read?, mode]
  split
  · next newline =>
      apply takes_newline partitions idle shape newline
      rw [next?_eq_finish idle notCode]
      simp [string, shape, newline, ScanMode.body, stringBody]
  · next inLine =>
      split
      · next backslash =>
          obtain rfl := backslash
          have behind : (scanner.cursor.pass '\\').unread? source = some rest := by
            rw [pass_cursor rest]
            exact unread?_cursor (isPartition_of_idle (partitions_readOn partitions shape) idle)
          simp only [behind, Option.bind_eq_bind, Option.bind_some]
          cases rest with
          | nil =>
              apply takes_pass partitions idle shape notCode
              rw [string]
              rfl
          | cons escaped others =>
              simp only
              split
              · next newline =>
                  apply takes_pass partitions idle shape notCode
                  simp [string, newline, ScanMode.body, stringBody, SpanBody.prepend]
              · next ordinary =>
                  have pair : (scanner.cursor.pass '\\').pass escaped =
                      (scanner.readOn ['\\', escaped] others).cursor := by
                    simp [Cursor.pass, cursor, readOn, Nat.add_assoc]
                  simp only [pair]
                  apply takes_readOn partitions shape (by simp)
                  apply next?_readOn idle notCode
                  rw [string, shape]
                  exact stringBody_escape ordinary
      · next plain =>
          split
          · next closes =>
              apply takes_close partitions idle shape notCode ?_ List.singleton_append
              · rw [string, ScanMode.body, stringBody_cons inLine plain, if_pos closes]
              · rw [closes, string]
                cases quote <;> rfl
          · next open_ =>
              apply takes_pass partitions idle shape notCode
              rw [string, ScanMode.body, stringBody_cons inLine plain, if_neg open_]

theorem takes_read_docstring {quote : Quote} (docstring : scanner.mode = .docstring quote) :
    scanner.Takes source given (scanner.cursor.read? source character rest) := by
  have mode : scanner.cursor.mode = .docstring quote := docstring
  have notCode : scanner.mode ≠ .code := by simp [docstring]
  simp only [Cursor.read?, mode]
  split
  · next starts =>
      apply takes_close partitions idle shape notCode ?_ (triple_append_drop starts)
      · rw [docstring, ScanMode.body, docstringBody, if_pos starts]
      · rw [docstring]
        cases quote <;> rfl
  · next starts =>
      split
      · next newline =>
          apply takes_newline partitions idle shape newline
          rw [next?_eq_finish idle notCode]
          subst newline
          rw [docstring, shape, ScanMode.body, docstringBody, if_neg starts, if_pos rfl]
      · next inLine =>
          apply takes_pass partitions idle shape notCode
          rw [docstring, ScanMode.body, docstringBody, if_neg starts, if_neg inLine]

end Reading

/-- A turn by positions never fails, and does what the scanner does. -/
theorem takes_turn? (partitions : scanner.Partitions source given) :
    scanner.Takes source given (scanner.cursor.turn? source) := by
  cases queued : scanner.queued with
  | some span =>
      left
      simp [Cursor.turn?, cursor, queued, next?, answer]
  | none =>
      have partition := isPartition_of_idle partitions queued
      have cursorIdle : scanner.cursor.queued = none := queued
      simp only [Cursor.turn?, cursorIdle, unread?_cursor partition, Option.bind_eq_bind,
        Option.bind_some]
      cases shape : scanner.rest with
      | nil =>
          left
          have next : scanner.next? = scanner.finish ⟨[], false, []⟩ := by
            cases mode : scanner.mode <;>
              simp [next?, queued, mode, nextFromCode?, continue?, shape, codeBody, opening?,
                ScanMode.body, commentBody, stringBody, docstringBody]
          rw [next]
          exact end?_cursor partition queued shape
      | cons character rest =>
          cases mode : scanner.mode with
          | code => exact takes_read_code partitions queued shape mode
          | comment => exact takes_read_comment partitions queued shape mode
          | string quote => exact takes_read_string partitions queued shape mode
          | docstring quote => exact takes_read_docstring partitions queued shape mode

end Scanner

/-- What the requests so far were answered, and where a scan by positions stands. -/
structure Moment where
  answers : List (Option Span)
  cursor : Cursor
  deriving DecidableEq, Repr

namespace Moment

/-- The spans that were given out. -/
def given (moment : Moment) : List Span :=
  moment.answers.reduceOption

/-- The moment behind the next turn.  There is none when a cut fails. -/
def next? (source : Text) (moment : Moment) : Option Moment :=
  (moment.cursor.turn? source).map fun turn =>
    match turn with
    | .goesOn cursor => { moment with cursor := cursor }
    | .answers span cursor => ⟨moment.answers ++ [span], cursor⟩

/-- The moment behind so many turns. -/
def after? (source : Text) : Nat → Option Moment
  | 0 => some ⟨[], .first⟩
  | turns + 1 => (after? source turns).bind (next? source)

/-- The spans have been given out in order, with nothing behind the last one.  Together
with the waiting newline and the part of the source from the start of the current span
on they are the source, and the two positions are boundaries in it. -/
structure IsSound (source : Text) (moment : Moment) : Prop where
  answers : moment.answers =
    (List.range moment.answers.length).map fun request => (scan source)[request]?
  texts : ∃ unread,
    Text.slice? source moment.cursor.start (Text.byteLength source) = some unread ∧
      (moment.given ++ moment.cursor.queued.toList).flatMap Span.text ++ unread = source
  start_le_position : moment.cursor.start ≤ moment.cursor.position
  position_le_length : moment.cursor.position ≤ Text.byteLength source
  start_isBoundary : Text.IsBoundary source moment.cursor.start
  position_isBoundary : Text.IsBoundary source moment.cursor.position

/-- A moment is that of a scanner which has the rest of the spans to give out. -/
structure Follows (source : Text) (moment : Moment) (scanner : Scanner) : Prop where
  cursor : moment.cursor = scanner.cursor
  partitions : scanner.Partitions source moment.given
  answers : moment.answers =
    (List.range moment.answers.length).map fun request => (scan source)[request]?
  steps : scanner.steps.map Prod.fst = (scan source).drop moment.answers.length

variable {source : Text} {moment : Moment} {scanner : Scanner}

theorem Follows.isSound (follows : Follows source moment scanner) : moment.IsSound source := by
  have partition := follows.partitions
  have length := partition.byteLength_source
  have given := partition.tiles.add_byteLength
  have whole : [] ++ ((scanner.pending ++ scanner.rest) ++ []) = scanner.pending ++ scanner.rest :=
    List.append_nil _
  have unread := partition.slice? whole
  rw [Text.byteLength_nil, Nat.add_zero, ← length] at unread
  rw [Nat.zero_add] at given
  obtain ⟨answers, cursor⟩ := moment
  obtain rfl : cursor = scanner.cursor := follows.cursor
  refine ⟨follows.answers, ⟨_, unread, partition.texts⟩, Nat.le_add_right _ _, ?_,
    ⟨_, _, partition.texts, given⟩, ?_⟩
  · rw [Text.byteLength_append, ← Nat.add_assoc] at length
    rw [length]
    exact Nat.le_add_right _ _
  · have parts := partition.texts
    rw [← List.append_assoc] at parts
    refine ⟨_, _, parts, ?_⟩
    rw [Text.byteLength_append, given]
    rfl

/-- The scan is followed from its start on. -/
theorem follows_first (source : Text) :
    Follows source ⟨[], .first⟩ (Scanner.ofText source) where
  cursor := rfl
  partitions := Scanner.partitions_ofText source
  answers := rfl
  steps := rfl

theorem given_concat (answers : List (Option Span)) (answer : Option Span) (cursor after : Cursor) :
    given ⟨answers ++ [answer], cursor⟩ = given ⟨answers, after⟩ ++ answer.toList := by
  simp only [given, List.reduceOption_append, List.reduceOption_singleton]

theorem answers_concat {answers : List (Option Span)} {answer : Option Span}
    (old : answers = (List.range answers.length).map fun request => (scan source)[request]?)
    (new : (scan source)[answers.length]? = answer) :
    answers ++ [answer] = (List.range (answers ++ [answer]).length).map
      fun request => (scan source)[request]? := by
  rw [List.length_append, List.length_singleton, List.range_succ, List.map_append, ← old, ← new]
  rfl

/-- The moment behind an answer follows the scanner behind its next step. -/
theorem Follows.answered (follows : Follows source moment scanner)
    (turn : moment.cursor.turn? source = some (scanner.answer scanner.next?)) :
    ∃ next after, moment.next? source = some next ∧ Follows source next after ∧
      next.answers.length = moment.answers.length + 1 := by
  obtain ⟨answers, cursor⟩ := moment
  obtain ⟨rfl, partitions, old, steps⟩ := follows
  simp only at partitions old steps turn
  cases found : scanner.next? with
  | none =>
      have ended := steps
      rw [Scanner.steps_of_ended found, List.map_nil, eq_comm, List.drop_eq_nil_iff] at ended
      have answer := List.getElem?_eq_none ended
      refine ⟨⟨answers ++ [none], scanner.cursor⟩, scanner, ?_, ⟨rfl, ?_, ?_, ?_⟩, ?_⟩
      · rw [next?, turn, found]
        rfl
      · rw [given_concat answers none _ scanner.cursor, Option.toList_none, List.append_nil]
        exact partitions
      · exact answers_concat old answer
      · have ended' : (scan source).length ≤ (answers ++ [none]).length := by
          rw [List.length_append]
          exact Nat.le_add_right_of_le ended
        rw [Scanner.steps_of_ended found, List.drop_eq_nil_of_le ended']
        rfl
      · exact List.length_append
  | some step =>
      obtain ⟨span, after⟩ := step
      rw [Scanner.steps_of_next? found, List.map_cons] at steps
      have answer : (scan source)[answers.length]? = some span := by
        rw [← List.head?_drop, ← steps]
        rfl
      refine ⟨⟨answers ++ [some span], after.cursor⟩, after, ?_, ⟨rfl, ?_, ?_, ?_⟩, ?_⟩
      · rw [next?, turn, found]
        rfl
      · rw [given_concat answers (some span) _ scanner.cursor]
        exact Scanner.partitions_of_next? partitions found
      · exact answers_concat old answer
      · rw [List.length_append, List.length_singleton, ← List.drop_drop, ← steps]
        rfl
      · exact List.length_append

/-- A turn answers one more request, or leaves less to read until it does. -/
theorem Follows.turn (follows : Follows source moment scanner) :
    ∃ next after, moment.next? source = some next ∧ Follows source next after ∧
      (next.answers.length = moment.answers.length + 1 ∨
        next.answers.length = moment.answers.length ∧
          after.rest.length < scanner.rest.length) := by
  have turn := Scanner.takes_turn? follows.partitions
  rw [← follows.cursor] at turn
  rcases turn with answers | ⟨further, goesOn, same, partitions, less⟩
  · obtain ⟨next, after, found, follows, more⟩ := follows.answered answers
    exact ⟨next, after, found, follows, .inl more⟩
  · refine ⟨{ moment with cursor := further.cursor }, further, ?_,
      ⟨rfl, partitions, follows.answers, ?_⟩, .inr ⟨rfl, less⟩⟩
    · rw [next?, goesOn]
      rfl
    · rw [Scanner.steps_congr same]
      exact follows.steps

theorem after?_succ {turns : Nat} {next : Moment} (reached : after? source turns = some moment)
    (found : moment.next? source = some next) : after? source (turns + 1) = some next := by
  rw [after?, reached]
  exact found

/-- A scan by positions takes as many turns as it is asked to. -/
theorem follows_after? (source : Text) (turns : Nat) :
    ∃ moment scanner, after? source turns = some moment ∧ Follows source moment scanner := by
  induction turns with
  | zero => exact ⟨_, _, rfl, follows_first source⟩
  | succ turns induction =>
      obtain ⟨moment, scanner, reached, follows⟩ := induction
      obtain ⟨next, after, found, follows, -⟩ := follows.turn
      exact ⟨next, after, after?_succ reached found, follows⟩

/-- A request is answered after finitely many turns. -/
theorem Follows.request {turns : Nat} (reached : after? source turns = some moment)
    (follows : Follows source moment scanner) :
    ∃ turns next after, after? source turns = some next ∧ Follows source next after ∧
      next.answers.length = moment.answers.length + 1 := by
  -- Until the answer comes, every turn leaves less to read.
  generalize left : scanner.rest.length = bound
  induction bound using Nat.strong_induction_on generalizing turns moment scanner with
  | _ bound induction =>
      obtain ⟨next, after, found, followed, answered | ⟨same, less⟩⟩ := follows.turn
      · exact ⟨turns + 1, next, after, after?_succ reached found, followed, answered⟩
      · rw [left] at less
        rw [← same]
        exact induction _ less (after?_succ reached found) followed rfl

theorem follows_requests (source : Text) (requests : Nat) :
    ∃ turns moment scanner, after? source turns = some moment ∧
      Follows source moment scanner ∧ moment.answers.length = requests := by
  induction requests with
  | zero => exact ⟨0, _, _, rfl, follows_first source, rfl⟩
  | succ requests induction =>
      obtain ⟨turns, moment, scanner, reached, follows, rfl⟩ := induction
      exact follows.request reached

end Moment

/-- A scan gives out nonempty spans that stand one behind the other from the first byte
of its source to the last, each with its slice of the source as text.  Behind each of its
steps, the spans so far, the newline that waits, and the text that is left are the source.

By positions, too, it answers every request, with these spans and then with nothing for
ever, and no cut of the source fails in any turn.  Between any two turns the spans so
far, the newline that waits, and the source from the start of the current span on are
the source, and both positions are boundaries in order. -/
theorem scan_lossless (source : Text) :
    (Tiles 0 (Text.byteLength source) (scan source) ∧
      ∀ span ∈ scan source, span.text ≠ [] ∧
        Text.slice? source span.start span.stop = some span.text) ∧
      (∀ before step later, (Scanner.ofText source).steps = before ++ step :: later →
        step.2.Partitions source ((before ++ [step]).map Prod.fst)) ∧
      (∀ turns, ∃ moment, Moment.after? source turns = some moment ∧ moment.IsSound source) ∧
      ∀ requests, ∃ turns moment, Moment.after? source turns = some moment ∧
        moment.answers.length = requests := by
  have partition := isPartition_scan source
  refine ⟨⟨partition.tiles, fun span member => ?_⟩, fun before step later steps => ?_,
    fun turns => ?_, fun requests => ?_⟩
  · exact ⟨partition.nonempty span member, partition.slice?_of_mem member⟩
  · exact Scanner.partitions_of_steps (Scanner.partitions_ofText source) steps
  · obtain ⟨moment, scanner, reached, follows⟩ := Moment.follows_after? source turns
    exact ⟨moment, reached, follows.isSound⟩
  · obtain ⟨turns, moment, scanner, reached, -, answered⟩ :=
      Moment.follows_requests source requests
    exact ⟨turns, moment, reached, answered⟩

end Bilingual

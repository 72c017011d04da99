import Bilingual.Proofs.ScanPartition
import Bilingual.Proofs.TextSlices

/-!
# Scanning by byte positions

A scanner can also keep two byte positions in place of texts, where the span that is
being read starts and how far the source has been read, and cut all that it looks at
out of the source.  A cut fails unless its ends are boundaries between characters.

This file describes such a scan, character by character.  It also shows that the cuts
for newlines, openings, closings and the end do not fail where the positions are those
of a scanner, and that they give out what the scanner does.
-/

namespace Bilingual

/-- The state of a scan by positions. -/
structure Cursor where
  start : Nat
  position : Nat
  mode : ScanMode
  queued : Option Span
  deriving DecidableEq, Repr

/-- A turn of a scan: it goes on to read, or answers the request for a span. -/
inductive Turn
  | goesOn (cursor : Cursor)
  | answers (span : Option Span) (cursor : Cursor)
  deriving DecidableEq, Repr

/-- The number of bytes of the delimiter that opens or closes what is read in a mode. -/
def ScanMode.delimiterWidth : ScanMode → Nat
  | .docstring _ => 3
  | .code | .string _ | .comment => 1

namespace Cursor

/-- The state at the start of a source. -/
def first : Cursor :=
  ⟨0, 0, .code, none⟩

/-- Passes over a character. -/
def pass (cursor : Cursor) (character : Char) : Cursor :=
  { cursor with position := cursor.position + character.utf8Size }

variable (source : Text)

/-- The source from the position on. -/
def unread? (cursor : Cursor) : Option Text :=
  Text.slice? source cursor.position (Text.byteLength source)

/-- The span between two positions. -/
def spanAt? (kind : SpanKind) (start stop : Nat) : Option Span :=
  (Text.slice? source start stop).map fun text => ⟨kind, start, text⟩

/-- Gives out what has been read up to a position, unless that is nothing. -/
def flush? (cursor : Cursor) (stop : Nat) (kind : SpanKind) : Option (Option Span × Cursor) :=
  if stop ≤ cursor.start then some (none, cursor)
  else
    (spanAt? source kind cursor.start stop).map fun span =>
      (some span, { cursor with start := stop })

/-- Gives out a newline, or what stands in front of it. -/
def newline? (cursor : Cursor) : Option Turn := do
  let flushed ← cursor.flush? source cursor.position cursor.mode.spanKind
  let newline ← spanAt? source .newline cursor.position (cursor.position + 1)
  let behind : Cursor :=
    ⟨cursor.position + 1, cursor.position + 1, cursor.mode.afterNewline, none⟩
  match flushed.1 with
  | some span => pure (.answers (some span) { behind with queued := some newline })
  | none => pure (.answers (some newline) behind)

/-- Goes over to a mode, and gives out the code in front of its delimiter. -/
def open? (cursor : Cursor) (mode : ScanMode) : Option Turn := do
  let flushed ← cursor.flush? source cursor.position .code
  let opened : Cursor :=
    { flushed.2 with mode := mode, position := cursor.position + mode.delimiterWidth }
  match flushed.1 with
  | some span => pure (.answers (some span) opened)
  | none => pure (.goesOn opened)

/-- Gives out what the delimiter at the position closes. -/
def close? (cursor : Cursor) : Option Turn := do
  let stop := cursor.position + cursor.mode.delimiterWidth
  let behind : Cursor := { cursor with position := stop, mode := .code }
  let flushed ← behind.flush? source stop cursor.mode.spanKind
  pure (.answers flushed.1 flushed.2)

/-- Gives out what is left at the end of the source. -/
def end? (cursor : Cursor) : Option Turn := do
  let flushed ← cursor.flush? source (Text.byteLength source) cursor.mode.spanKind
  pure (.answers flushed.1 flushed.2)

/-- Reads a character in front of a text. -/
def read? (cursor : Cursor) (character : Char) (rest : Text) : Option Turn :=
  match cursor.mode with
  | .code =>
      match opening? (character :: rest) with
      | some (mode, _, _) => cursor.open? source mode
      | none =>
          if character = '\n' then cursor.newline? source
          else some (.goesOn (cursor.pass character))
  | .comment =>
      if character = '\n' then cursor.newline? source
      else some (.goesOn (cursor.pass character))
  | .string quote =>
      if character = '\n' then cursor.newline? source
      else if character = '\\' then do
        let behind := cursor.pass character
        match ← behind.unread? source with
        | escaped :: _ =>
            if escaped = '\n' then pure (.goesOn behind)
            else pure (.goesOn (behind.pass escaped))
        | [] => pure (.goesOn behind)
      else if character = quote.character then cursor.close? source
      else some (.goesOn (cursor.pass character))
  | .docstring quote =>
      if quote.triple.isPrefixOf (character :: rest) then cursor.close? source
      else if character = '\n' then cursor.newline? source
      else some (.goesOn (cursor.pass character))

/-- One turn.  There is none when a cut fails. -/
def turn? (cursor : Cursor) : Option Turn :=
  match cursor.queued with
  | some span => some (.answers (some span) { cursor with queued := none })
  | none => do
      match ← cursor.unread? source with
      | [] => cursor.end? source
      | character :: rest => cursor.read? source character rest

end Cursor

/-! ### Cuts that do not fail -/

theorem IsPartition.slice? {source unread first part rest : Text} {spans : List Span}
    {start : Nat} (partition : IsPartition source spans start unread)
    (parts : first ++ (part ++ rest) = unread) :
    Text.slice? source (start + Text.byteLength first)
      (start + Text.byteLength first + Text.byteLength part) = some part := by
  have length := partition.tiles.add_byteLength
  rw [Nat.zero_add] at length
  refine Text.slice?_eq_some_iff.2 ⟨spans.flatMap Span.text ++ first, rest, ?_, ?_, rfl⟩
  · rw [List.append_assoc, parts, partition.texts]
  · rw [Text.byteLength_append, length]

theorem IsPartition.slice?_of_mem {source unread : Text} {spans : List Span} {start : Nat}
    (partition : IsPartition source spans start unread) {span : Span} (member : span ∈ spans) :
    Text.slice? source span.start span.stop = some span.text := by
  obtain ⟨before, after, parts, length⟩ := partition.tiles.exists_of_mem member
  rw [Nat.zero_add] at length
  refine Text.slice?_eq_some_iff.2 ⟨before, after ++ unread, ?_, length, rfl⟩
  rw [← List.append_assoc span.text, ← List.append_assoc, parts, partition.texts]

theorem IsPartition.byteLength_source {source unread : Text} {spans : List Span} {start : Nat}
    (partition : IsPartition source spans start unread) :
    Text.byteLength source = start + Text.byteLength unread := by
  have length := partition.tiles.add_byteLength
  rw [← partition.texts, Text.byteLength_append, ← length, Nat.zero_add]

namespace Cursor

variable {source text : Text} {cursor : Cursor} {stop : Nat}

theorem flush?_eq (slice : Text.slice? source cursor.start stop = some text)
    (kind : SpanKind) :
    cursor.flush? source stop kind =
      some (if text = [] then (none, cursor)
        else (some ⟨kind, cursor.start, text⟩, { cursor with start := stop })) := by
  obtain ⟨-, -, -, -, length⟩ := Text.slice?_eq_some_iff.1 slice
  by_cases empty : text = []
  · have ended : stop ≤ cursor.start := by
      rw [empty, Text.byteLength_nil] at length
      omega
    rw [flush?, if_pos ended, if_pos empty]
  · have wide := mt Text.byteLength_eq_zero_iff.1 empty
    have more : ¬ stop ≤ cursor.start := by omega
    rw [flush?, if_neg more, if_neg empty, spanAt?, slice]
    rfl

end Cursor

namespace Scanner

/-- The positions that a scanner stands for. -/
def cursor (scanner : Scanner) : Cursor :=
  ⟨scanner.start, scanner.start + Text.byteLength scanner.pending, scanner.mode,
    scanner.queued⟩

/-- The answer that belongs to a step of a scanner. -/
def answer (scanner : Scanner) (step : Option (Span × Scanner)) : Turn :=
  .answers (step.map Prod.fst) ((step.map Prod.snd).getD scanner).cursor

variable {source rest : Text} {scanner : Scanner} {spans : List Span}

theorem flush?_cursor
    (partition : IsPartition source spans scanner.start (scanner.pending ++ scanner.rest))
    (kind : SpanKind) :
    scanner.cursor.flush? source scanner.cursor.position kind =
      some (if scanner.pending = [] then (none, scanner.cursor)
        else (some ⟨kind, scanner.start, scanner.pending⟩,
          { scanner.cursor with start := scanner.cursor.position })) :=
  Cursor.flush?_eq (partition.slice? (List.nil_append _)) kind

theorem newline?_cursor
    (partition : IsPartition source spans scanner.start (scanner.pending ++ scanner.rest))
    (newline : scanner.rest = '\n' :: rest) :
    scanner.cursor.newline? source =
      some (scanner.answer (scanner.finish ⟨[], false, '\n' :: rest⟩)) := by
  have slice : Cursor.spanAt? source .newline scanner.cursor.position
      (scanner.cursor.position + 1) =
        some ⟨.newline, scanner.cursor.position, ['\n']⟩ := by
    rw [newline, ← List.singleton_append] at partition
    rw [Cursor.spanAt?]
    exact congrArg (Option.map _) (partition.slice? rfl)
  rw [Cursor.newline?, flush?_cursor partition, slice]
  simp only [finish, List.append_nil, Bool.false_eq_true, if_false]
  cases pending : scanner.pending with
  | nil =>
      simp [answer, cursor, pending, Span.stop]
      rfl
  | cons character others =>
      simp [answer, cursor, pending, Span.stop, spanOf]
      rfl

theorem end?_cursor
    (partition : IsPartition source spans scanner.start (scanner.pending ++ scanner.rest))
    (idle : scanner.queued = none) (ended : scanner.rest = []) :
    scanner.cursor.end? source = some (scanner.answer (scanner.finish ⟨[], false, []⟩)) := by
  have stop : Text.byteLength source = scanner.cursor.position := by
    rw [partition.byteLength_source, ended, List.append_nil]
    rfl
  rw [Cursor.end?, stop]
  have flushed := flush?_cursor partition scanner.mode.spanKind
  rw [cursor] at flushed ⊢
  simp only [flushed, finish, List.append_nil, Bool.false_eq_true, if_false]
  cases pending : scanner.pending with
  | nil => simp [answer, cursor, pending]
  | cons character others => simp [answer, cursor, spanOf, idle]

theorem close?_cursor {delimiter : Text}
    (partition : IsPartition source spans scanner.start (scanner.pending ++ scanner.rest))
    (idle : scanner.queued = none) (closes : scanner.rest = delimiter ++ rest)
    (width : Text.byteLength delimiter = scanner.mode.delimiterWidth) :
    scanner.cursor.close? source =
      some (scanner.answer (scanner.finish ⟨delimiter, true, rest⟩)) := by
  have nonempty : scanner.pending ++ delimiter ≠ [] := by
    intro empty
    rw [(List.append_eq_nil_iff.1 empty).2] at width
    cases mode : scanner.mode <;> simp [mode, ScanMode.delimiterWidth] at width
  obtain ⟨stop, stop_eq⟩ :
      ∃ stop, scanner.cursor.position + scanner.mode.delimiterWidth = stop := ⟨_, rfl⟩
  have length : scanner.start + Text.byteLength (scanner.pending ++ delimiter) = stop := by
    rw [Text.byteLength_append, width, ← Nat.add_assoc]
    exact stop_eq
  have slice : Text.slice? source scanner.start stop = some (scanner.pending ++ delimiter) := by
    rw [closes, ← List.append_assoc] at partition
    rw [← length]
    exact partition.slice? (List.nil_append _)
  have flushed : Cursor.flush? source ⟨scanner.start, stop, .code, none⟩ stop
      scanner.mode.spanKind =
        some (some ⟨scanner.mode.spanKind, scanner.start, scanner.pending ++ delimiter⟩,
          ⟨stop, stop, .code, none⟩) := by
    rw [Cursor.flush?_eq slice, if_neg nonempty]
  have behind : { scanner.cursor with position := stop, mode := .code } =
      (⟨scanner.start, stop, .code, none⟩ : Cursor) := by
    rw [← idle]
    rfl
  have mode : scanner.cursor.mode = scanner.mode := rfl
  simp only [Cursor.close?, mode, stop_eq, behind, flushed, finish, if_true, length]
  rfl

theorem byteLength_delimiter {delimiter : Text} {mode : ScanMode} {opened : Text}
    (opens : opening? opened = some (mode, delimiter, rest)) :
    Text.byteLength delimiter = mode.delimiterWidth := by
  rcases opening?_cases opens with ⟨rfl, rfl⟩ | ⟨form, rfl, rfl, -⟩
  · rfl
  · rcases form with (_ | _) | (_ | _) <;> rfl

theorem open?_cursor {delimiter : Text} {mode : ScanMode}
    (partition : IsPartition source spans scanner.start (scanner.pending ++ scanner.rest))
    (idle : scanner.queued = none)
    (opens : opening? scanner.rest = some (mode, delimiter, rest)) :
    let opened : Scanner :=
      ⟨scanner.start + Text.byteLength scanner.pending, delimiter, rest, mode, none⟩
    scanner.cursor.open? source mode =
      some (if scanner.pending = [] then .goesOn opened.cursor
        else .answers (some ⟨.code, scanner.start, scanner.pending⟩) opened.cursor) := by
  rw [Cursor.open?, flush?_cursor partition, ← byteLength_delimiter opens]
  cases pending : scanner.pending with
  | nil => simp [cursor, pending, idle]
  | cons character others => simp [cursor, pending, idle]

end Scanner

end Bilingual

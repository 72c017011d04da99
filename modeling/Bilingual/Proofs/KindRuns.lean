import Bilingual.Proofs.CharacterKinds
import Bilingual.Proofs.SpanEnds
import Mathlib.Data.List.SplitBy

/-!
# Spans as runs of characters

The spans of a source are the longest runs of neighbours that are of one kind, are
no newlines, and have no closing delimiter between them.  The kinds are those of the
automaton that labels the source character by character.

The main statement is `scan_eq_kindRuns`.  It follows from what one step of the
scanner does, `kindRuns_of_next?`.
-/

namespace Bilingual

/-- Two neighbours lie in one span: they are of one kind, none of them is a newline,
and no closing delimiter ends between them. -/
def LabelledCharacter.joins (left right : LabelledCharacter) : Bool :=
  left.kind = right.kind && left.character != '\n' && right.character != '\n' && !left.closes

/-- The longest runs of characters that lie in one span, with their kinds. -/
def kindRuns (list : List LabelledCharacter) : List (List (Char × SpanKind)) :=
  (list.splitBy LabelledCharacter.joins).map fun run =>
    run.map fun label => (label.character, label.kind)

/-- The characters of a span with its kind. -/
def Span.characters (span : Span) : List (Char × SpanKind) :=
  span.text.map fun character => (character, span.kind)

/-! ### Runs of one kind -/

@[simp] theorem map_pair_labelled (kind : SpanKind) (closes : Bool) (text : Text) :
    (labelled kind closes text).map (fun label => (label.character, label.kind)) =
      text.map fun character => (character, kind) := by
  induction text with
  | nil => rfl
  | cons character rest induction => rw [labelled, List.map_cons, List.map_cons, induction]

theorem head?_labelled_append {kind : SpanKind} {closes : Bool} {text : Text}
    {others : List LabelledCharacter} {label : LabelledCharacter} (nonempty : text ≠ [])
    (first : label ∈ (labelled kind closes text ++ others).head?) : label.kind = kind := by
  obtain ⟨character, rest, rfl⟩ := List.exists_cons_of_ne_nil nonempty
  obtain rfl : ⟨character, kind, closes && rest.isEmpty⟩ = label := by
    simpa [labelled] using first
  rfl

theorem getLast?_labelled {kind : SpanKind} {closes : Bool} {text : Text}
    {label : LabelledCharacter} (last : label ∈ (labelled kind closes text).getLast?) :
    label.kind = kind ∧ label.closes = closes := by
  induction text with
  | nil => simp [labelled] at last
  | cons character rest induction =>
      cases rest with
      | nil =>
          obtain rfl : ⟨character, kind, closes && true⟩ = label := by simpa [labelled] using last
          simp
      | cons next rest => exact induction last

theorem isChain_labelled {kind : SpanKind} {closes : Bool} {text : Text}
    (inLine : '\n' ∉ text) :
    (labelled kind closes text).IsChain fun left right => left.joins right := by
  induction text with
  | nil => exact .nil
  | cons character rest induction =>
      cases rest with
      | nil => exact .singleton _
      | cons next rest =>
          simp only [List.mem_cons, not_or] at inLine
          refine .cons_cons ?_ (induction (by simpa using inLine.2))
          simp [LabelledCharacter.joins, Ne.symm inLine.1, Ne.symm inLine.2.1]

theorem labelled_ne_nil {kind : SpanKind} {closes : Bool} {text : Text} (nonempty : text ≠ []) :
    labelled kind closes text ≠ [] := by
  obtain ⟨character, rest, rfl⟩ := List.exists_cons_of_ne_nil nonempty
  simp [labelled]

/-- A text of one kind is a run when a delimiter ends with it or something else follows. -/
theorem kindRuns_labelled_append {kind : SpanKind} {closes : Bool} {text : Text}
    {others : List LabelledCharacter} (nonempty : text ≠ []) (inLine : '\n' ∉ text)
    (apart : closes = true ∨
      ∀ next ∈ others.head?, next.character = '\n' ∨ next.kind ≠ kind) :
    kindRuns (labelled kind closes text ++ others) =
      text.map (fun character => (character, kind)) :: kindRuns others := by
  have cut : (labelled kind closes text ++ others).splitBy LabelledCharacter.joins =
      [labelled kind closes text] ++ others.splitBy LabelledCharacter.joins := by
    rw [List.splitBy_append, List.splitBy_of_isChain (labelled_ne_nil nonempty)
      (isChain_labelled inLine)]
    intro left last right first
    obtain ⟨kindEq, closesEq⟩ := getLast?_labelled last
    rcases apart with ends | apart
    · simp [LabelledCharacter.joins, closesEq, ends]
    · rcases apart right first with newline | other
      · simp [LabelledCharacter.joins, newline]
      · simp [LabelledCharacter.joins, kindEq, Ne.symm other]
  rw [kindRuns, cut, List.map_append, List.map_singleton, map_pair_labelled]
  rfl

theorem kindRuns_newline (others : List LabelledCharacter) :
    kindRuns (⟨'\n', .newline, false⟩ :: others) = [('\n', .newline)] :: kindRuns others := by
  have cut : (⟨'\n', .newline, false⟩ :: others).splitBy LabelledCharacter.joins =
      [[⟨'\n', .newline, false⟩]] ++ others.splitBy LabelledCharacter.joins := by
    rw [← List.singleton_append, List.splitBy_append]
    · rfl
    intro left last right first
    obtain rfl : ⟨'\n', .newline, false⟩ = left := by simpa using last
    simp [LabelledCharacter.joins]
  rw [kindRuns, cut]
  rfl

/-! ### Steps of the scanner -/

namespace Scanner

/-- The kinds of the characters that a scanner has not given out yet. -/
def labels (scanner : Scanner) : List LabelledCharacter :=
  scanner.queued.toList.flatMap (fun span => labelled span.kind false span.text) ++
    (labelled scanner.mode.spanKind false scanner.pending ++
      Bilingual.labels scanner.mode scanner.rest)

/-- No newline is pending, and only a newline is queued. -/
structure IsSound (scanner : Scanner) : Prop where
  newline_notMem_pending : '\n' ∉ scanner.pending
  queued : ∀ span ∈ scanner.queued, span.kind = .newline ∧ span.text = ['\n']

theorem isSound_ofText (source : Text) : (ofText source).IsSound where
  newline_notMem_pending := by simp [ofText]
  queued := by simp [ofText]

variable {scanner after : Scanner} {span : Span}

theorem kindRuns_of_finishes {body : SpanBody} (finishes : scanner.Finishes body span after)
    (inLine : '\n' ∉ scanner.pending ++ body.text)
    (closes : body.closed = true → body.text ≠ [])
    (stops : body.closed = false → body.rest = [] ∨ body.rest.head? = some '\n') :
    after.IsSound ∧
      kindRuns (labelled scanner.mode.spanKind body.closed (scanner.pending ++ body.text) ++
          Bilingual.labels (scanner.mode.behind body) body.rest) =
        span.characters :: kindRuns after.labels := by
  cases finishes with
  | closed closed =>
      have nonempty : scanner.pending ++ body.text ≠ [] := by simp [closes closed]
      refine ⟨⟨by simp, by simp⟩, ?_⟩
      rw [ScanMode.behind, if_pos closed,
        kindRuns_labelled_append nonempty inLine (.inl closed)]
      rfl
  | ended left ended nonempty =>
      refine ⟨⟨by simp, by simp⟩, ?_⟩
      rw [ScanMode.behind, left, if_neg Bool.false_ne_true, ended,
        kindRuns_labelled_append nonempty inLine (.inr (by simp))]
      rfl
  | @atNewline newline character rest left shape empty isNewline =>
      obtain rfl : character = '\n' := by simpa [shape] using stops left
      refine ⟨⟨by simp, by simp⟩, ?_⟩
      rw [ScanMode.behind, left, if_neg Bool.false_ne_true, shape, labels_newline, empty,
        isNewline]
      exact kindRuns_newline _
  | @beforeNewline newline character rest left shape nonempty isNewline =>
      obtain rfl : character = '\n' := by simpa [shape] using stops left
      refine ⟨⟨by simp, by simp [isNewline]⟩, ?_⟩
      rw [ScanMode.behind, left, if_neg Bool.false_ne_true, shape, labels_newline,
        kindRuns_labelled_append nonempty inLine (.inr (by simp)), isNewline]
      rfl

theorem kindRuns_of_readOn
    (finishes : scanner.Finishes (scanner.mode.body scanner.rest) span after)
    (notCode : scanner.mode ≠ .code) (inLine : '\n' ∉ scanner.pending) :
    after.IsSound ∧
      kindRuns (labelled scanner.mode.spanKind false scanner.pending ++
          Bilingual.labels scanner.mode scanner.rest) =
        span.characters :: kindRuns after.labels := by
  have closes := @ScanMode.body_text_ne_nil scanner.mode scanner.rest
  rw [labels_eq_append, ← List.append_assoc, ← labelled_append closes]
  refine kindRuns_of_finishes finishes ?_ closes (ScanMode.body_rest notCode)
  rw [List.mem_append, not_or]
  exact ⟨inLine, scanner.mode.newline_notMem_body scanner.rest⟩

theorem labelled_append_labels_code (pending rest : Text) :
    labelled .code false pending ++ Bilingual.labels .code rest =
      labelled .code false (pending ++ (codeBody rest).text) ++
        Bilingual.labels .code (codeBody rest).rest := by
  rw [labels_codeBody, ← List.append_assoc, ← labelled_append (by simp)]

/-- A step of the scanner gives out the first run of what is left. -/
theorem kindRuns_of_next? (sound : scanner.IsSound)
    (next : scanner.next? = some (span, after)) :
    after.IsSound ∧ kindRuns scanner.labels = span.characters :: kindRuns after.labels := by
  have inCode : '\n' ∉ scanner.pending ++ (codeBody scanner.rest).text := by
    rw [List.mem_append, not_or]
    exact ⟨sound.newline_notMem_pending, ScanMode.code.newline_notMem_body scanner.rest⟩
  have idle_labels (idle : scanner.queued = none) :
      scanner.labels = labelled scanner.mode.spanKind false scanner.pending ++
        Bilingual.labels scanner.mode scanner.rest := by
    rw [labels, idle, Option.toList_none, List.flatMap_nil, List.nil_append]
  cases advances_of_next? next with
  | queued queued =>
      obtain ⟨kind, text⟩ := sound.queued span queued
      refine ⟨⟨sound.newline_notMem_pending, by simp⟩, ?_⟩
      simp only [labels, queued, Option.toList_some, List.flatMap_singleton, kind, text,
        labelled, Bool.false_and]
      rw [List.singleton_append, kindRuns_newline, Span.characters, kind, text]
      rfl
  | code idle code plain finishes =>
      have runs := kindRuns_of_finishes finishes inCode
        (fun closed => by simp [codeBody] at closed) fun _ => codeBody_rest plain
      rw [idle_labels idle, code, ScanMode.spanKind, labelled_append_labels_code]
      rwa [code] at runs
  | @codeInFront mode delimiter rest idle code opens nonempty =>
      obtain ⟨notCode, delimited, inDelimiter⟩ := opening?_delimiter_cases opens
      refine ⟨⟨inDelimiter, by simp⟩, ?_⟩
      rw [idle_labels idle, code, ScanMode.spanKind, labelled_append_labels_code,
        labels_opening opens, kindRuns_labelled_append nonempty inCode]
      · simp [spanOf, code, Span.characters, labels, ScanMode.spanKind]
      · refine .inr fun first head => .inr ?_
        rw [head?_labelled_append delimited head]
        cases mode <;> simp_all [ScanMode.spanKind]
  | opened idle code opens empty finishes =>
      obtain ⟨notCode, -, inDelimiter⟩ := opening?_delimiter_cases opens
      rw [idle_labels idle, code, ScanMode.spanKind, labelled_append_labels_code,
        labels_opening opens, empty]
      exact kindRuns_of_readOn finishes notCode inDelimiter
  | readOn idle notCode finishes =>
      rw [idle_labels idle]
      exact kindRuns_of_readOn finishes notCode sound.newline_notMem_pending

theorem labels_of_ended (ended : scanner.next? = none) :
    scanner.labels = [] := by
  obtain ⟨queued, pending, rest⟩ := eq_nil_of_ended ended
  rw [labels, queued, pending, rest, labels_nil]
  rfl

/-- A scan gives out the runs of what is left. -/
theorem map_characters_steps (sound : scanner.IsSound) :
    scanner.steps.map (fun step => step.1.characters) = kindRuns scanner.labels := by
  fun_induction steps scanner with
  | case1 scanner ended =>
      rw [labels_of_ended ended]
      rfl
  | case2 scanner span after next induction =>
      obtain ⟨soundAfter, runs⟩ := kindRuns_of_next? sound next
      rw [List.map_cons, induction soundAfter, runs]

end Scanner

/-- The automaton labels the characters of a source one by one.  The spans of the source
are the longest runs of these without a boundary, and the characters of a span are of
its kind: there is a boundary exactly where the kind changes, before and behind each
newline, and behind each closing delimiter. -/
theorem scan_eq_kindRuns (source : Text) :
    (labels .code source).map LabelledCharacter.character = source ∧
      (scan source).map Span.characters = kindRuns (labels .code source) := by
  refine ⟨map_character_labels .code source, ?_⟩
  rw [scan, List.map_map]
  exact Scanner.map_characters_steps (Scanner.isSound_ofText source)

end Bilingual

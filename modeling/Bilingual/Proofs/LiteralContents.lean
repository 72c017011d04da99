import Bilingual.Proofs.AlikeLines
import Bilingual.Proofs.FormattingKeepsContents
import Bilingual.Proofs.SubstitutedLines

/-!
# What a literal says

Two sources that differ in nothing but what their literals say are formatted and translated
in the same way: the results differ in their literals only, and each literal stands where its
counterpart stands.  The main statement is `DifferInLiterals.sameUpToLiterals`.
-/

namespace Bilingual

/-- The steps of two scans differ in nothing but the text of a literal. -/
structure SameStep (first second : Span × Scanner) : Prop where
  kind : first.1.kind = second.1.kind
  text : first.1.kind.isLiteral = false → first.1.text = second.1.text
  inLiteral : first.1.kind = .newline → first.2.inLiteral = second.2.inLiteral

instance (first second : Span × Scanner) : Decidable (SameStep first second) :=
  decidable_of_iff
    (first.1.kind = second.1.kind ∧
      (first.1.kind.isLiteral = false → first.1.text = second.1.text) ∧
        (first.1.kind = .newline → first.2.inLiteral = second.2.inLiteral))
    ⟨fun ⟨kind, text, inside⟩ => ⟨kind, text, inside⟩, fun same =>
      ⟨same.kind, same.text, same.inLiteral⟩⟩

/-- The sources have spans of the same kinds, with the same newlines inside literals, and
all spans but those of literals have the same texts. -/
def DifferInLiterals (first second : Text) : Prop :=
  List.Forall₂ SameStep (Scanner.ofText first).steps (Scanner.ofText second).steps

instance (first second : Text) : Decidable (DifferInLiterals first second) :=
  inferInstanceAs (Decidable (List.Forall₂ _ _ _))

/-- The texts of the literal spans. -/
def literalTexts (spans : List Span) : List Text :=
  (spans.filter (·.kind.isLiteral)).map Span.text

/-- The text of spans in which the literal spans are replaced, in order, by given texts. -/
def refill : List Span → List Text → Text
  | [], _ => []
  | span :: spans, texts =>
      if span.kind.isLiteral then texts.head?.getD span.text ++ refill spans texts.tail
      else span.text ++ refill spans texts

/-- What is written of two sources is the same text, except that each literal span is
replaced in place by its counterpart. -/
structure SameUpToLiterals (first second written other : Text) : Prop where
  differ : DifferInLiterals written other
  literals : literalTexts (scan written) = literalTexts (scan first)
  literalsOther : literalTexts (scan other) = literalTexts (scan second)
  refilled : other = refill (scan written) (literalTexts (scan second))

/-! ### Scans and lexemes -/

theorem sameStep_iff {first second : Span × Scanner} :
    SameStep first second ↔
      (Fragment.ofMark (first.1, literalGoesOn first)).Alike
        (Fragment.ofMark (second.1, literalGoesOn second)) := by
  have goesOn : ∀ step : Span × Scanner, step.1.kind = .newline →
      literalGoesOn step = step.2.inLiteral := by
    intro step newline
    simp [literalGoesOn, newline]
  constructor
  · intro same
    refine ⟨same.kind, same.text, fun newline => ?_⟩
    have newlineToo : second.1.kind = .newline := same.kind.symm.trans newline
    exact ((goesOn first newline).trans (same.inLiteral newline)).trans
      (goesOn second newlineToo).symm
  · intro alike
    refine ⟨alike.kind, alike.text, fun newline => ?_⟩
    have newlineToo : second.1.kind = .newline := alike.kind.symm.trans newline
    rw [← goesOn first newline, ← goesOn second newlineToo]
    exact alike.goesOn newline

theorem differInLiterals_iff_fragments {first second : Text} :
    DifferInLiterals first second ↔
      List.Forall₂ Fragment.Alike ((lexemes first).flatMap Lexeme.fragments)
        ((lexemes second).flatMap Lexeme.fragments) := by
  have fragments : ∀ source : Text, (lexemes source).flatMap Lexeme.fragments =
      (Scanner.ofText source).steps.map fun step =>
        Fragment.ofMark (step.1, literalGoesOn step) := by
    intro source
    rw [← map_ofMark_marksFrom 0, ← marks_ofText, Scanner.marks, List.map_map]
    rfl
  rw [fragments, fragments, List.forall₂_map_left_iff, List.forall₂_map_right_iff,
    DifferInLiterals]
  have same : SameStep = fun first second : Span × Scanner =>
      (Fragment.ofMark (first.1, literalGoesOn first)).Alike
        (Fragment.ofMark (second.1, literalGoesOn second)) := by
    funext first second
    exact propext sameStep_iff
  rw [same]

theorem differInLiterals_of_alike {first second : Text}
    (alike : List.Forall₂ Lexeme.Alike (lexemes first) (lexemes second)) :
    DifferInLiterals first second := by
  obtain ⟨closed, closedOther⟩ := allClosed_of_alike alike
  exact differInLiterals_iff_fragments.2 ((forall₂_alike_iff (legible_lexemes first)
    (legible_lexemes second) closed closedOther).2 alike)

theorem DifferInLiterals.alike {first second : Text} (differ : DifferInLiterals first second)
    (closes : ClosesLiterals first) (closesOther : ClosesLiterals second) :
    List.Forall₂ Lexeme.Alike (lexemes first) (lexemes second) := by
  have legible := legible_lexemes first
  have legibleOther := legible_lexemes second
  exact (forall₂_alike_iff legible legibleOther ((complete_iff legible).1 closes.complete)
    ((complete_iff legibleOther).1 closesOther.complete)).1
    (differInLiterals_iff_fragments.1 differ)

/-! ### Literal spans -/

/-- The lines of a literal that are not empty. -/
def literalLines (text : Text) : List Text :=
  (text.splitOn '\n').filter (!·.isEmpty)

theorem literalTexts_append (first second : List Span) :
    literalTexts (first ++ second) = literalTexts first ++ literalTexts second := by
  simp [literalTexts]

theorem literalTexts_literalMarks {kind : SpanKind} (literal : kind.isLiteral = true)
    (closed : Bool) (start : Nat) (text : Text) :
    literalTexts ((literalMarks kind closed start text).map Prod.fst) = literalLines text := by
  have line : ∀ start line goesOn, literalTexts ((lineMarks kind start line goesOn).map Prod.fst) =
      [line].filter (!·.isEmpty) := by
    intro start line goesOn
    cases line <;> simp [lineMarks, literalTexts, literal]
  induction text using Text.lineInduction generalizing start with
  | line text inLine =>
      rw [literalMarks_of_line inLine, line, literalLines, List.splitOn_eq_singleton inLine]
  | lines first rest inLine induction =>
      have newline : ∀ start, literalTexts [⟨.newline, start, ['\n']⟩] = [] := fun _ => rfl
      rw [literalMarks_of_lines inLine, literalLines,
        List.splitOn_append_cons_self_of_not_mem inLine, List.map_append, List.map_cons,
        literalTexts_append, ← List.singleton_append, literalTexts_append, newline, line,
        List.nil_append, induction]
      exact (List.filter_append [first] _).symm

theorem literalTexts_spansFrom (start : Nat) (list : List Lexeme) :
    literalTexts (spansFrom start list) =
      (list.filterMap Lexeme.literal?).flatMap literalLines := by
  induction list generalizing start with
  | nil => rfl
  | cons lexeme others induction =>
      have rest := induction (start + Text.byteLength lexeme.text)
      rw [spansFrom] at rest ⊢
      rw [marksFrom, List.map_append, literalTexts_append, rest]
      cases lexeme with
      | literal whole =>
          rw [Lexeme.marks, literalTexts_literalMarks (Scanner.isLiteral_spanKind_mode whole.form)]
          rfl
      | _ => rfl

/-- The literal spans of a source are the lines of its literals. -/
theorem literalTexts_scan (source : Text) :
    literalTexts (scan source) = (literals source).flatMap literalLines := by
  rw [scan_eq_spansFrom, literalTexts_spansFrom, literals_eq]

theorem allClosed_of_intercalate {lines : List (List Lexeme)}
    (closed : AllClosed ([Lexeme.newline].intercalate lines)) :
    ∀ line ∈ lines, AllClosed line := by
  induction lines with
  | nil => simp
  | cons line lines induction =>
      cases lines with
      | nil => simpa using closed
      | cons next lines =>
          rw [List.intercalate_cons_cons] at closed
          exact List.forall_mem_cons.2 ⟨fun whole member => closed whole (by simp [member]),
            induction fun whole member => closed whole (by simp [member])⟩

/-- Formatting keeps literals that are closed. -/
theorem ClosesLiterals.literals_formatWith {source : Text} (closes : ClosesLiterals source)
    (rules : FormatRules) : literals (formatWith rules source) = literals source := by
  have legible := legibleLines_lexemeLines source
  have closed : AllClosed ([Lexeme.newline].intercalate (lexemeLines source)) := by
    rw [intercalate_lexemeLines]
    exact (complete_iff (legible_lexemes source)).1 closes.complete
  rw [literals_eq_flatMap, literals_eq_flatMap]
  refine (literals_eq_iff_of_keeps legible (keeps_formatWith rules source)).2
    fun line member => ?_
  obtain ⟨shown, inLine⟩ := legible.forall_mem line member
  exact losesLiteralEnd_of_complete shown inLine
    ((complete_iff shown).2 (allClosed_of_intercalate closed line member))

theorem literals_substitute (table : KeywordTable) (direction : Direction) (source : Text) :
    literals (substitute table direction source) = literals source := by
  rw [literals_eq, literals_eq, lexemes_substitute, literals_map_substitute]

/-! ### Replacing in place -/

theorem refill_literalTexts {spans others : List Span}
    (same : List.Forall₂ (fun span other : Span => span.kind = other.kind ∧
      (span.kind.isLiteral = false → span.text = other.text)) spans others) :
    refill spans (literalTexts others) = others.flatMap Span.text := by
  induction same with
  | nil => rfl
  | @cons span other spans others first rest induction =>
      obtain ⟨kind, text⟩ := first
      rw [refill, List.flatMap_cons, ← induction, literalTexts, literalTexts]
      cases literal : span.kind.isLiteral with
      | true => simp [← kind, literal]
      | false => simp [← kind, literal, text literal]

theorem flatMap_text_scan (source : Text) : (scan source).flatMap Span.text = source := by
  rw [scan_eq_spansFrom, flatMap_text_spansFrom, textOf_lexemes]

theorem DifferInLiterals.refill_eq {first second : Text} (differ : DifferInLiterals first second) :
    refill (scan first) (literalTexts (scan second)) = second := by
  have spans : List.Forall₂ (fun span other : Span => span.kind = other.kind ∧
      (span.kind.isLiteral = false → span.text = other.text)) (scan first) (scan second) := by
    rw [scan, scan, List.forall₂_map_left_iff, List.forall₂_map_right_iff]
    exact List.Forall₂.imp (fun _ _ same => ⟨same.kind, same.text⟩) differ
  rw [refill_literalTexts spans, flatMap_text_scan]

/-- Sources that are alike and keep the literals of two others are the same up to these. -/
theorem sameUpToLiterals_of_alike {first second written other : Text}
    (alike : List.Forall₂ Lexeme.Alike (lexemes written) (lexemes other))
    (kept : literals written = literals first) (keptOther : literals other = literals second) :
    SameUpToLiterals first second written other := by
  have differ := differInLiterals_of_alike alike
  have texts : literalTexts (scan other) = literalTexts (scan second) := by
    rw [literalTexts_scan, literalTexts_scan, keptOther]
  refine ⟨differ, ?_, texts, ?_⟩
  · rw [literalTexts_scan, literalTexts_scan, kept]
  · rw [← texts, differ.refill_eq]

/-- What a literal says never matters: what is formatted or translated of two sources that
differ in nothing else is the same text, except that each literal span is replaced in place
by its counterpart. -/
theorem DifferInLiterals.sameUpToLiterals {first second : Text}
    (differ : DifferInLiterals first second) (closes : ClosesLiterals first)
    (closesOther : ClosesLiterals second) :
    (∀ rules, SameUpToLiterals first second (formatWith rules first) (formatWith rules second)) ∧
      ∀ table direction, SameUpToLiterals first second (substitute table direction first)
        (substitute table direction second) := by
  have alike := differ.alike closes closesOther
  constructor
  · intro rules
    exact sameUpToLiterals_of_alike (forall₂_alike_formatWith rules alike)
      (closes.literals_formatWith rules) (closesOther.literals_formatWith rules)
  · intro table direction
    exact sameUpToLiterals_of_alike (forall₂_alike_substitute table direction alike)
      (literals_substitute table direction first) (literals_substitute table direction second)

/-- A condition on an empty string, with a docstring of two lines behind it. -/
def quietLiterals : Text :=
  "if ( '' ):\n  '''a\n b''' \n".toList

/-- The same with a string and a docstring that look like code. -/
def loudLiterals : Text :=
  "if ( \") if # x:\" ):\n  \"\"\"def f ( ) :\n#\"\"\" \n".toList

/-- Keywords, brackets, comment signs and colons do not matter in a literal. -/
theorem sameUpToLiterals_loudLiterals :
    DifferInLiterals quietLiterals loudLiterals ∧ ClosesLiterals quietLiterals ∧
      ClosesLiterals loudLiterals ∧
      (∀ rules, SameUpToLiterals quietLiterals loudLiterals (formatWith rules quietLiterals)
        (formatWith rules loudLiterals)) ∧
      ∀ table direction, SameUpToLiterals quietLiterals loudLiterals
        (substitute table direction quietLiterals) (substitute table direction loudLiterals) := by
  have differ : DifferInLiterals quietLiterals loudLiterals := by decide +kernel
  have closes : ClosesLiterals quietLiterals := by decide +kernel
  have closesOther : ClosesLiterals loudLiterals := by decide +kernel
  exact ⟨differ, closes, closesOther, differ.sameUpToLiterals closes closesOther⟩

end Bilingual

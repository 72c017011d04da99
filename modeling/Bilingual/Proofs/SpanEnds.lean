import Bilingual.Proofs.Lexemes
import Bilingual.SpanScanner

/-!
# Where the scanner stops

The scanner reads up to a newline, to something that opens or closes, or to the end
of the text.  This file says so for every mode.  By `Scanner.eq_nil_of_ended` nothing
is left when it has nothing more to give out.
-/

namespace Bilingual

theorem ScanMode.mode_cases (mode : ScanMode) :
    mode = .code ∨ mode = .comment ∨ ∃ form : LiteralForm, mode = form.mode := by
  cases mode with
  | code => exact .inl rfl
  | comment => exact .inr (.inl rfl)
  | string quote => exact .inr (.inr ⟨.string quote, rfl⟩)
  | docstring quote => exact .inr (.inr ⟨.docstring quote, rfl⟩)

theorem ScanMode.newline_notMem_body (mode : ScanMode) (source : Text) :
    '\n' ∉ (mode.body source).text := by
  rcases mode.mode_cases with rfl | rfl | ⟨form, rfl⟩
  · intro member
    have plain := List.mem_takeWhile_imp member
    simp [isPlainCode] at plain
  · exact newline_notMem_firstLine source
  · exact form.newline_notMem_body source

theorem ScanMode.body_rest {mode : ScanMode} (notCode : mode ≠ .code) {source : Text}
    (left : (mode.body source).closed = false) :
    (mode.body source).rest = [] ∨ (mode.body source).rest.head? = some '\n' := by
  rcases mode.mode_cases with rfl | rfl | ⟨form, rfl⟩
  · exact absurd rfl notCode
  · have stops := head?_dropWhile_all_not (· != '\n') source
    cases rest : source.dropWhile (· != '\n') with
    | nil => exact .inl rest
    | cons character behind =>
        rw [rest] at stops
        right
        simpa [ScanMode.body, commentBody, rest] using stops
  · exact form.body_rest left

theorem ScanMode.eq_nil_of_body (mode : ScanMode) {source : Text}
    (text : (mode.body source).text = []) (rest : (mode.body source).rest = []) :
    source = [] := by
  rw [← mode.body_text_append_rest source, text, rest]
  rfl

theorem codeBody_rest {source : Text} (opens : opening? (codeBody source).rest = none) :
    (codeBody source).rest = [] ∨ (codeBody source).rest.head? = some '\n' := by
  have stops := head?_dropWhile_all_not isPlainCode source
  rw [codeBody] at opens ⊢
  cases rest : source.dropWhile isPlainCode with
  | nil => exact .inl rfl
  | cons character behind =>
      right
      rw [rest] at stops opens
      by_contra inLine
      have plain := isPlainCode_of_opening? (by simpa using inLine) opens
      simp [plain] at stops

theorem opening?_delimiter_cases {source delimiter rest : Text} {mode : ScanMode}
    (opens : opening? source = some (mode, delimiter, rest)) :
    mode ≠ .code ∧ delimiter ≠ [] ∧ '\n' ∉ delimiter := by
  rcases opening?_cases opens with ⟨rfl, rfl⟩ | ⟨form, rfl, rfl, -⟩
  · simp
  · exact ⟨form.mode_ne_code, form.delimiter_ne_nil, form.newline_notMem_delimiter⟩

namespace Scanner

theorem finish_eq_none {scanner : Scanner} {body : SpanBody}
    (ended : scanner.finish body = none) : scanner.pending ++ body.text = [] ∧ body.rest = [] := by
  simp only [finish] at ended
  split at ended
  · simp at ended
  · split at ended
    · next rest =>
        split at ended
        · next empty => exact ⟨List.isEmpty_iff.1 empty, rest⟩
        · simp at ended
    · split at ended <;> simp at ended

/-- A scanner that gives out nothing has nothing left. -/
theorem eq_nil_of_ended {scanner : Scanner} (ended : scanner.next? = none) :
    scanner.queued = none ∧ scanner.pending = [] ∧ scanner.rest = [] := by
  simp only [next?] at ended
  split at ended
  · simp at ended
  · next queued =>
      refine ⟨queued, ?_⟩
      split at ended
      · simp only [nextFromCode?] at ended
        split at ended
        · obtain ⟨text, rest⟩ := finish_eq_none ended
          rw [List.append_eq_nil_iff] at text
          exact ⟨text.1, ScanMode.code.eq_nil_of_body text.2 rest⟩
        · next opens =>
            split at ended
            · have text := (finish_eq_none ended).1
              rw [List.append_eq_nil_iff] at text
              exact absurd text.1 (opening?_delimiter_cases opens).2.1
            · simp at ended
      · obtain ⟨text, rest⟩ := finish_eq_none ended
        rw [List.append_eq_nil_iff] at text
        exact ⟨text.1, scanner.mode.eq_nil_of_body text.2 rest⟩

end Scanner

end Bilingual

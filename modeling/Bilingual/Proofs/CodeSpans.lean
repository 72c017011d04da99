import Bilingual.Proofs.LexemeSpans
import Bilingual.WordTokens
import Mathlib.Data.List.Basic

/-!
# Code among the spans

This file picks the code out of a scan, and the words out of the code.  By
`codeTexts_spansFrom` the code spans of a text are the runs of code among its
lexemes.
-/

namespace Bilingual

/-- The spans of lexemes without what the scanner tells about them. -/
def spansFrom (start : Nat) (list : List Lexeme) : List Span :=
  (marksFrom start list).map Prod.fst

theorem scan_eq_spansFrom (source : Text) : scan source = spansFrom 0 (lexemes source) :=
  scan_eq_marksFrom source

/-- The texts of the code spans. -/
def codeTexts (spans : List Span) : List Text :=
  (spans.filter (·.kind = .code)).map Span.text

/-- The words in the code of a source. -/
def codeWords (source : Text) : List Text :=
  (codeTexts (scan source)).flatMap fun code =>
    ((wordTokens code).filter (·.kind = .word)).map Token.text

/-- The text of a run of code. -/
def Lexeme.code? : Lexeme → Option Text
  | .code text => some text
  | .newline => none
  | .comment _ => none
  | .literal _ => none

theorem codeTexts_append (first second : List Span) :
    codeTexts (first ++ second) = codeTexts first ++ codeTexts second := by
  simp [codeTexts]

/-! ### The spans of a literal -/

@[simp] theorem flatMap_text_lineMarks (kind : SpanKind) (start : Nat) (line : Text)
    (goesOn : Bool) :
    ((lineMarks kind start line goesOn).map Prod.fst).flatMap Span.text = line := by
  unfold lineMarks
  split
  · next empty => simpa using empty.symm
  · simp

theorem kind_of_mem_lineMarks {kind : SpanKind} {start : Nat} {line : Text} {goesOn : Bool}
    {mark : Span × Bool} (member : mark ∈ lineMarks kind start line goesOn) :
    mark.1.kind = kind := by
  unfold lineMarks at member
  split at member
  · simp at member
  · rw [List.mem_singleton.1 member]

theorem flatMap_text_literalMarks (kind : SpanKind) (closed : Bool) (start : Nat)
    (text : Text) :
    ((literalMarks kind closed start text).map Prod.fst).flatMap Span.text = text := by
  fun_induction literalMarks kind closed start text with
  | case1 start text line shape =>
      rw [flatMap_text_lineMarks]
      exact firstLine_eq_self shape
  | case2 start text line character rest shape newline induction =>
      rw [List.map_append, List.flatMap_append, flatMap_text_lineMarks, List.map_cons,
        List.flatMap_cons, induction]
      exact (firstLine_append_newline shape).2

/-- A literal consists of parts of its own kind and newlines. -/
theorem kind_of_mem_literalMarks {kind : SpanKind} {closed : Bool} {start : Nat} {text : Text}
    {mark : Span × Bool} (member : mark ∈ literalMarks kind closed start text) :
    mark.1.kind = kind ∨ mark.1.kind = .newline := by
  fun_induction literalMarks kind closed start text with
  | case1 start text line shape => exact .inl (kind_of_mem_lineMarks member)
  | case2 start text line character rest shape newline induction =>
      rcases List.mem_append.1 member with first | others
      · exact .inl (kind_of_mem_lineMarks first)
      · rcases List.mem_cons.1 others with rfl | others
        · exact .inr rfl
        · exact induction others

/-! ### The spans of lexemes -/

theorem flatMap_text_marks (lexeme : Lexeme) (start : Nat) :
    ((lexeme.marks start).map Prod.fst).flatMap Span.text = lexeme.text := by
  cases lexeme with
  | literal whole => exact flatMap_text_literalMarks _ _ start whole.text
  | _ => simp [Lexeme.marks, Lexeme.text]

theorem flatMap_text_spansFrom (start : Nat) (list : List Lexeme) :
    (spansFrom start list).flatMap Span.text = textOf list := by
  induction list generalizing start with
  | nil => rfl
  | cons lexeme others induction =>
      rw [spansFrom, marksFrom, List.map_append, List.flatMap_append, flatMap_text_marks,
        textOf_cons]
      exact congrArg (lexeme.text ++ ·) (induction _)

theorem codeTexts_marks (lexeme : Lexeme) (start : Nat) :
    codeTexts ((lexeme.marks start).map Prod.fst) = lexeme.code?.toList := by
  cases lexeme with
  | literal whole =>
      have none : ((literalMarks whole.form.mode.spanKind whole.closed start whole.text).map
          Prod.fst).filter (·.kind = .code) = [] := by
        rw [List.filter_eq_nil_iff]
        intro span member
        obtain ⟨mark, marked, rfl⟩ := List.mem_map.1 member
        have other := Scanner.spanKind_mode_ne_code whole.form
        rcases kind_of_mem_literalMarks marked with kind | kind <;> simp [kind, other]
      simp [Lexeme.marks, codeTexts, none, Lexeme.code?]
  | _ => rfl

/-- The text of a lexeme, rewritten if it is code. -/
def Lexeme.rewriteCode (rewrite : Text → Text) : Lexeme → Text
  | .code text => rewrite text
  | .newline => ['\n']
  | .comment text => text
  | .literal whole => whole.text

theorem flatMap_rewriteCode_marks (rewrite : Text → Text) (lexeme : Lexeme) (start : Nat) :
    ((lexeme.marks start).map Prod.fst).flatMap
        (fun span => if span.kind = .code then rewrite span.text else span.text) =
      lexeme.rewriteCode rewrite := by
  cases lexeme with
  | literal whole =>
      have kept : ∀ span ∈ (literalMarks whole.form.mode.spanKind whole.closed start
          whole.text).map Prod.fst,
          (if span.kind = .code then rewrite span.text else span.text) = span.text := by
        intro span member
        obtain ⟨mark, marked, rfl⟩ := List.mem_map.1 member
        have other := Scanner.spanKind_mode_ne_code whole.form
        rcases kind_of_mem_literalMarks marked with kind | kind <;> simp [kind, other]
      rw [Lexeme.marks, List.flatMap_congr kept]
      exact flatMap_text_literalMarks _ _ start whole.text
  | _ => simp [Lexeme.marks, Lexeme.rewriteCode]

/-- What is rewritten in the code spans is rewritten in the runs of code. -/
theorem flatMap_rewriteCode_spansFrom (rewrite : Text → Text) (start : Nat)
    (list : List Lexeme) :
    (spansFrom start list).flatMap
        (fun span => if span.kind = .code then rewrite span.text else span.text) =
      list.flatMap (Lexeme.rewriteCode rewrite) := by
  induction list generalizing start with
  | nil => rfl
  | cons lexeme others induction =>
      have rest := induction (start + Text.byteLength lexeme.text)
      rw [spansFrom] at rest ⊢
      rw [marksFrom, List.map_append, List.flatMap_append, flatMap_rewriteCode_marks, rest,
        List.flatMap_cons]

/-- The code spans are the runs of code among the lexemes. -/
theorem codeTexts_spansFrom (start : Nat) (list : List Lexeme) :
    codeTexts (spansFrom start list) = list.filterMap Lexeme.code? := by
  induction list generalizing start with
  | nil => rfl
  | cons lexeme others induction =>
      have rest := induction (start + Text.byteLength lexeme.text)
      rw [spansFrom] at rest ⊢
      rw [marksFrom, List.map_append, codeTexts_append, codeTexts_marks, rest]
      cases code : lexeme.code? <;> simp [code]

theorem mem_codeWords_iff {source word : Text} :
    word ∈ codeWords source ↔
      ∃ code, Lexeme.code code ∈ lexemes source ∧
        ⟨WordTokenKind.word, word⟩ ∈ wordTokens code := by
  have runs : ∀ code, code ∈ (lexemes source).filterMap Lexeme.code? ↔
      Lexeme.code code ∈ lexemes source := by
    intro code
    rw [List.mem_filterMap]
    constructor
    · rintro ⟨lexeme, member, same⟩
      cases lexeme <;> simp_all [Lexeme.code?]
    · intro member
      exact ⟨_, member, rfl⟩
  simp only [codeWords, scan_eq_spansFrom, codeTexts_spansFrom, List.mem_flatMap, runs,
    List.mem_map, List.mem_filter, decide_eq_true_eq]
  constructor
  · rintro ⟨code, run, ⟨kind, text⟩, ⟨member, rfl⟩, rfl⟩
    exact ⟨code, run, member⟩
  · rintro ⟨code, run, member⟩
    exact ⟨code, run, _, ⟨member, rfl⟩, rfl⟩

end Bilingual

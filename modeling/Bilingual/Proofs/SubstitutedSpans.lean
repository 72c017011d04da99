import Bilingual.Proofs.SubstitutedLexemes
import Mathlib.Data.List.Forall2

/-!
# Substitution keeps the spans

A text with replaced keywords is scanned into the same spans as before, although
they stand at other positions.  Literals, comments and newlines keep their texts.
A code span keeps its tokens, of which only whole words that are keywords change.
The main statement is `spanReplaced_scan_substitute`.
-/

namespace Bilingual

variable (table : KeywordTable) (direction : Direction)

/-- A token of code and the one that takes its place: a word is looked up, and
anything else stays as it is. -/
structure TokenReplaced (before after : Token WordTokenKind) : Prop where
  kind : after.kind = before.kind
  word : before.kind = .word →
    after.text = (table.lookup? before.text direction).getD before.text
  separator : before.kind ≠ .word → after.text = before.text

/-- A span and the one that takes its place: code keeps its tokens up to the
replacement, and anything else keeps its text. -/
structure SpanReplaced (before after : Span) : Prop where
  kind : after.kind = before.kind
  code : before.kind = .code →
    List.Forall₂ (TokenReplaced table direction) (wordTokens before.text)
      (wordTokens after.text)
  other : before.kind ≠ .code → after.text = before.text

theorem tokenReplaced_replacedToken (token : Token WordTokenKind) :
    TokenReplaced table direction token (table.replacedToken direction token) where
  kind := rfl
  word isWord := by
    rw [KeywordTable.replacedToken, KeywordTable.replaceToken, if_pos isWord]
    rfl
  separator isOther := by
    rw [KeywordTable.replacedToken, KeywordTable.replaceToken, if_neg isOther]

theorem spanReplaced_code (start position : Nat) (code : Text) :
    SpanReplaced table direction ⟨.code, start, code⟩
      ⟨.code, position, substituteCode table direction code⟩ where
  kind := rfl
  code _ := by
    rw [wordTokens_substituteCode, List.forall₂_map_right_iff, List.forall₂_same]
    intro token _
    exact tokenReplaced_replacedToken table direction token
  other isOther := absurd rfl isOther

variable {table direction}

/-- A span that is not code may only move. -/
theorem spanReplaced_moved {kind : SpanKind} (isOther : kind ≠ .code) (start position : Nat)
    (text : Text) :
    SpanReplaced table direction ⟨kind, start, text⟩ ⟨kind, position, text⟩ where
  kind := rfl
  code isCode := absurd isCode isOther
  other _ := rfl

theorem spanReplaced_lineMarks {kind : SpanKind} (isOther : kind ≠ .code)
    (start position : Nat) (line : Text) (goesOn : Bool) :
    List.Forall₂ (SpanReplaced table direction)
      ((lineMarks kind start line goesOn).map Prod.fst)
      ((lineMarks kind position line goesOn).map Prod.fst) := by
  unfold lineMarks
  split
  · exact .nil
  · exact .cons (spanReplaced_moved isOther start position line) .nil

theorem spanReplaced_literalMarks {kind : SpanKind} (isOther : kind ≠ .code) (closed : Bool)
    (start position : Nat) (text : Text) :
    List.Forall₂ (SpanReplaced table direction)
      ((literalMarks kind closed start text).map Prod.fst)
      ((literalMarks kind closed position text).map Prod.fst) := by
  fun_induction literalMarks kind closed start text generalizing position with
  | case1 start text line shape =>
      have whole : line = text := firstLine_eq_self shape
      have inLine : '\n' ∉ text := whole ▸ newline_notMem_firstLine text
      rw [literalMarks_of_line inLine, whole]
      exact spanReplaced_lineMarks isOther start position text _
  | case2 start text line character rest shape newline induction =>
      obtain ⟨isNewline, parts⟩ := firstLine_append_newline shape
      have inLine : '\n' ∉ line := newline_notMem_firstLine text
      subst isNewline
      rw [← parts, literalMarks_of_lines inLine, List.map_append, List.map_append,
        List.map_cons, List.map_cons]
      apply List.rel_append (spanReplaced_lineMarks isOther start position line true)
      exact .cons (spanReplaced_moved (by simp) _ _ _) (induction _)

variable (table direction)

theorem spanReplaced_marks (lexeme : Lexeme) (start position : Nat) :
    List.Forall₂ (SpanReplaced table direction) ((lexeme.marks start).map Prod.fst)
      (((lexeme.substitute table direction).marks position).map Prod.fst) := by
  cases lexeme with
  | code text => exact .cons (spanReplaced_code table direction start position text) .nil
  | newline => exact .cons (spanReplaced_moved (by simp) start position _) .nil
  | comment text => exact .cons (spanReplaced_moved (by simp) start position text) .nil
  | literal whole =>
      exact spanReplaced_literalMarks (Scanner.spanKind_mode_ne_code whole.form) whole.closed
        start position whole.text

theorem spanReplaced_spansFrom (start position : Nat) (list : List Lexeme) :
    List.Forall₂ (SpanReplaced table direction) (spansFrom start list)
      (spansFrom position (list.map (Lexeme.substitute table direction))) := by
  induction list generalizing start position with
  | nil => exact .nil
  | cons lexeme others induction =>
      rw [List.map_cons, spansFrom, spansFrom, marksFrom, marksFrom, List.map_append,
        List.map_append]
      exact List.rel_append (spanReplaced_marks table direction lexeme start position)
        (induction _ _)

/-- A text with replaced keywords has as many spans as before, of the same kinds in
the same order.  Spans that are not code have the same texts, and code spans have
the same tokens, except that a word which is a keyword as a whole is replaced. -/
theorem spanReplaced_scan_substitute (source : Text) :
    List.Forall₂ (SpanReplaced table direction) (scan source)
      (scan (substitute table direction source)) := by
  rw [scan_eq_spansFrom, scan_eq_spansFrom, lexemes_substitute]
  exact spanReplaced_spansFrom table direction 0 0 (lexemes source)

end Bilingual

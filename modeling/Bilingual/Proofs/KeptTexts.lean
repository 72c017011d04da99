import Bilingual.Proofs.LineLevels
import Bilingual.Proofs.ScannedSeams

/-!
# What is kept of a line

A line that starts with a docstring is written without its indentation and without the white
space at its end, unless that belongs to a literal.  The main statement is
`content_eq_keptText`: the content of a line follows from the text that is kept in this way.
-/

namespace Bilingual

namespace LogicalLine

/-- The characters of spans, each with the kind of its span. -/
def kindedCharacters (spans : List Span) : List (SpanKind × Char) :=
  spans.flatMap fun span => span.text.map (span.kind, ·)

/-- White space that belongs to no literal.  A newline within a line belongs to one. -/
def isOutsideSpace (character : SpanKind × Char) : Bool :=
  (character.1 = .code || character.1 = .comment) && isWhiteSpace character.2

/-- The line without its indentation, and without the white space at its end that belongs
to no literal. -/
def keptText (line : LogicalLine) : Text :=
  Text.trimStart (((kindedCharacters line.spans).rdropWhile isOutsideSpace).map Prod.snd)

end LogicalLine

section Kept

open LogicalLine

theorem map_snd_kindedCharacters (spans : List Span) :
    (kindedCharacters spans).map Prod.snd = spans.flatMap Span.text := by
  simp [kindedCharacters, List.map_flatMap, Function.comp_def]

theorem kindedCharacters_append (first second : List Span) :
    kindedCharacters (first ++ second) = kindedCharacters first ++ kindedCharacters second :=
  List.flatMap_append

/-- Code and comments lose the white space at their end.  What stands in front of blank code
must end with something visible. -/
theorem map_snd_rdropWhile {kind : SpanKind} (outside : kind = .code ∨ kind = .comment)
    {before : List (SpanKind × Char)} {text : Text}
    (shown : Text.isBlank text = false ∨
      (before.map Prod.snd).getLast?.all (!isWhiteSpace ·) = true) :
    ((before ++ text.map (kind, ·)).rdropWhile isOutsideSpace).map Prod.snd =
      Text.trimEnd (before.map Prod.snd ++ text) := by
  induction text using List.reverseRecOn with
  | nil =>
      have visible := shown.resolve_left (by simp [Text.isBlank])
      have kept : before.rdropWhile isOutsideSpace = before := by
        rw [List.rdropWhile_eq_self_iff]
        intro nonempty white
        rw [List.getLast?_map, List.getLast?_eq_some_getLast nonempty] at visible
        simp_all [isOutsideSpace]
      rw [List.map_nil, List.append_nil, List.append_nil, kept, Text.trimEnd_eq_self_iff.2 visible]
  | append_singleton text character induction =>
      rw [List.map_append, List.map_singleton, ← List.append_assoc, ← List.append_assoc]
      by_cases white : isWhiteSpace character = true
      · have space : isOutsideSpace (kind, character) = true := by
          rcases outside with rfl | rfl <;> simp [isOutsideSpace, white]
        have blank : Text.isBlank [character] = true := by simp [Text.isBlank, white]
        have shownBefore := shown
        rw [Text.isBlank_append, blank, Bool.and_true] at shownBefore
        rw [List.rdropWhile_concat_pos _ _ _ space, induction shownBefore,
          Text.trimEnd_append _ [character], if_pos blank]
      · have other : ¬isOutsideSpace (kind, character) = true := by simp [isOutsideSpace, white]
        have visible : ([character] : Text).getLast?.all (!isWhiteSpace ·) = true := by
          simpa using white
        have shownCharacter : Text.isBlank [character] = false := by
          simpa [Text.isBlank] using white
        rw [List.rdropWhile_concat_neg _ _ _ other,
          Text.trimEnd_append_of_not_isBlank _ shownCharacter, Text.trimEnd_eq_self_iff.2 visible,
          List.map_append, List.map_append, List.map_map]
        simp [Function.comp_def]

/-- No white space is dropped at the end of a literal. -/
theorem rdropWhile_literal {before : List (SpanKind × Char)} {whole : Literal}
    (nonempty : whole.text ≠ []) (start : Nat) :
    (before ++ kindedCharacters (((Lexeme.literal whole).marks start).map Prod.fst)).rdropWhile
        isOutsideSpace =
      before ++ kindedCharacters (((Lexeme.literal whole).marks start).map Prod.fst) := by
  have some : kindedCharacters (((Lexeme.literal whole).marks start).map Prod.fst) ≠ [] := by
    intro none
    have text := map_snd_kindedCharacters (((Lexeme.literal whole).marks start).map Prod.fst)
    rw [none, flatMap_text_marks] at text
    exact nonempty text.symm
  rw [List.rdropWhile_eq_self_iff]
  intro _
  rw [List.getLast_append_of_ne_nil _ some]
  have member := List.getLast_mem some
  generalize (kindedCharacters _).getLast some = last at member
  obtain ⟨span, inLiteral, found⟩ := List.mem_flatMap.1 member
  obtain ⟨mark, marked, rfl⟩ := List.mem_map.1 inLiteral
  obtain ⟨character, -, rfl⟩ := List.mem_map.1 found
  have code := Scanner.spanKind_mode_ne_code whole.form
  have comment := Scanner.spanKind_mode_ne_comment whole.form
  rcases kind_of_mem_literalMarks marked with kind | kind <;>
    simp [isOutsideSpace, kind, code, comment]

variable {list : List Lexeme}

theorem map_snd_rdropWhile_spansFrom (start : Nat) (legible : Legible list)
    (inLine : Lexeme.newline ∉ list) :
    ((kindedCharacters (spansFrom start list)).rdropWhile isOutsideSpace).map Prod.snd =
      if list.getLast?.any (·.kind.isLiteral) then textOf list else Text.trimEnd (textOf list) := by
  rcases List.eq_nil_or_concat' list with rfl | ⟨before, last, rfl⟩
  · rfl
  · have own := legible.of_append_right.1
    have front : (kindedCharacters (spansFrom start before)).map Prod.snd = textOf before := by
      rw [map_snd_kindedCharacters, flatMap_text_spansFrom]
    rw [spansFrom_append, kindedCharacters_append, List.getLast?_concat, Option.any_some,
      textOf_append, ← front]
    cases last with
    | newline => simp at inLine
    | code text =>
        have visible : (textOf before).getLast?.all (!isWhiteSpace ·) = true :=
          getLast?_textOf_of_code legible fun member => inLine (by simp [member])
        rw [← front] at visible
        have dropped := @map_snd_rdropWhile .code (.inl rfl) _ text (.inr visible)
        simpa [kindedCharacters, spansFrom, marksFrom, Lexeme.marks, Lexeme.text,
          Lexeme.kind, SpanKind.isLiteral] using dropped
    | comment text =>
        have shown : Text.isBlank text = false := isBlank_text_comment own
        have dropped := @map_snd_rdropWhile .comment (.inr rfl)
          (kindedCharacters (spansFrom start before)) text (.inl shown)
        simpa [kindedCharacters, spansFrom, marksFrom, Lexeme.marks, Lexeme.text,
          Lexeme.kind, SpanKind.isLiteral] using dropped
    | literal whole =>
        have literal : (Lexeme.literal whole).kind.isLiteral = true :=
          Scanner.isLiteral_spanKind_mode whole.form
        have same : ∀ position, spansFrom position [.literal whole] =
            ((Lexeme.literal whole).marks position).map Prod.fst := by
          intro position
          rw [spansFrom, marksFrom, marksFrom, List.append_nil]
        rw [if_pos literal, same, rdropWhile_literal own.text_ne_nil, List.map_append,
          map_snd_kindedCharacters (List.map _ _), flatMap_text_marks, textOf_cons, textOf_nil,
          List.append_nil]

theorem keptText_lineOf (offset start : Nat) (legible : Legible list)
    (inLine : Lexeme.newline ∉ list) :
    (lineOf offset start list).keptText =
      if list.getLast?.any (·.kind.isLiteral) then Text.trimStart (textOf list)
      else Text.trim (textOf list) := by
  rw [keptText, lineOf, map_snd_rdropWhile_spansFrom start legible inLine]
  split
  · rfl
  · exact Text.trimStart_trimEnd _

/-- The content of a line follows from what is kept of it. -/
theorem content_eq_keptText {line : LogicalLine} {source : Text}
    (member : line ∈ logicalLines source) :
    line.content =
      if line.keptText.getLast? = some '\n' then Text.trimEnd line.keptText
      else line.keptText := by
  obtain ⟨offset, list, legible, inLine, rfl⟩ := exists_lineOf member
  rw [keptText_lineOf offset offset legible inLine, LogicalLine.content, text_lineOf,
    endsInLiteral_lineOf offset offset legible]
  have trimmed : (Text.trim (textOf list)).getLast? ≠ some '\n' := by
    have visible := Text.trimEnd_eq_self_iff.1 (Text.trimEnd_trimEnd (Text.trimStart (textOf list)))
    intro newline
    rw [Text.trim] at newline
    rw [newline] at visible
    contradiction
  rcases List.eq_nil_or_concat' list with rfl | ⟨before, last, rfl⟩
  · rfl
  · rw [List.getLast?_concat, Option.any_some, Option.any_some]
    cases last with
    | literal whole =>
        have own := legible.of_append_right.1
        have literal : (Lexeme.literal whole).kind.isLiteral = true :=
          Scanner.isLiteral_spanKind_mode whole.form
        have shown : Text.isBlank (textOf (before ++ [.literal whole])) = false := by
          have visible : Text.isBlank (Lexeme.literal whole).text = false :=
            isBlank_text_literal own
          rw [textOf_append, Text.isBlank_append, textOf_cons, Text.isBlank_append, visible,
            Bool.false_and, Bool.and_false]
        have last : (textOf (before ++ [.literal whole])).getLast? = whole.text.getLast? := by
          rw [textOf_append, textOf_cons, textOf_nil, List.append_nil,
            List.getLast?_append_of_ne_nil _ own.text_ne_nil]
          rfl
        -- A literal at the end is kept as it is, but a newline as the last span is trimmed.
        rw [if_pos literal, Text.getLast?_trimStart shown, last, Lexeme.lastKind]
        by_cases newline : whole.text.getLast? = some '\n'
        · rw [if_pos newline, if_pos newline]
          rfl
        · rw [if_neg newline, if_neg newline]
          exact if_pos literal
    | _ =>
        simp only [Lexeme.kind, Lexeme.lastKind, SpanKind.isLiteral, Bool.false_eq_true, if_false,
          if_neg trimmed]

end Kept

end Bilingual

import Bilingual.LineFormatter
import Bilingual.Proofs.KeptParts
import Bilingual.Proofs.LineLexemes

/-!
# What is written of a line

A line is written as its indentation and its body.  The body depends on the line
alone, and the indentation on the depth at which the tracker puts the line.  The
main statements are `formatLine_fst` and `body_lineOf`, which gives the body by
the lexemes of the line.
-/

namespace Bilingual

/-- What is written of a line behind its indentation. -/
def LogicalLine.body (line : LogicalLine) (rules : FormatRules) : Text :=
  match line.lineClass with
  | .blank => []
  | .comment => Text.trim line.text
  | .docstring => line.content
  | .code =>
      line.spacedCode rules ++ trailingComment (line.spacedCode rules) line.comment?

/-- The depth at which a line is written. -/
def IndentTracker.depthOf (tracker : IndentTracker) (rules : FormatRules)
    (line : LogicalLine) : Nat :=
  let leading := tracker.leadingWidth line.text
  match line.lineClass with
  | .blank => 0
  | .comment => if rules.reindentComments then tracker.commentDepth leading else 0
  | .docstring | .code => (tracker.observe leading).depth

/-- A line is written as its indentation and its body. -/
theorem formatLine_fst (rules : FormatRules) (tracker : IndentTracker) (line : LogicalLine) :
    (formatLine rules tracker line).1 =
      tracker.indentation (tracker.depthOf rules line) ++ line.body rules := by
  unfold formatLine IndentTracker.depthOf LogicalLine.body
  cases line.lineClass with
  | blank => simp [IndentTracker.indentation, Text.spaces]
  | comment => rfl
  | docstring => rfl
  | code => simp only [List.append_assoc]; rfl

theorem trailingComment_map_trimEnd (code : Text) (comment : Option Text) :
    trailingComment code (comment.map Text.trimEnd) = trailingComment code comment := by
  cases comment with
  | none => rfl
  | some text => simp [trailingComment]

/-- The body of a line of lexemes. -/
def bodyOf (rules : FormatRules) (list : List Lexeme) : Text :=
  match classOf list with
  | .blank => []
  | .comment => Text.trim (textOf list)
  | .docstring =>
      if list.getLast?.any (·.lastKind.isLiteral) then Text.trimStart (textOf list)
      else Text.trim (textOf list)
  | .code =>
      codeOf rules list ++
        trailingComment (codeOf rules list) (list.filterMap Lexeme.comment?).head?

theorem body_lineOf {list : List Lexeme} (legible : Legible list)
    (inLine : Lexeme.newline ∉ list) (rules : FormatRules) (offset start : Nat) :
    (lineOf offset start list).body rules = bodyOf rules list := by
  have code : (lineOf offset start list).spacedCode rules = codeOf rules list :=
    spacedCode_eq legible inLine offset start
  rw [LogicalLine.body, bodyOf, lineClass_lineOf offset start legible, LogicalLine.content,
    endsInLiteral_lineOf offset start legible, text_lineOf, comment?_lineOf, code]

/-! ### White space in front -/

theorem codeOf_consCode {blank : Text} {list : List Lexeme} (space : Text.isBlank blank = true)
    (visible : (textOf list).head?.all (!isWhiteSpace ·) = true) (rules : FormatRules) :
    codeOf rules (consCode blank list) = codeOf rules list := by
  by_cases empty : blank = []
  · rw [empty, consCode_nil]
  · have start : (leadingCode list).head?.all (!isWhiteSpace ·) = true := by
      match list with
      | .code [] :: _ => rfl
      | .code (_ :: _) :: _ => exact visible
      | [] | .newline :: _ | .comment _ :: _ | .literal _ :: _ => rfl
    have reads : lineMunch.Reads ⟨.whiteSpace, blank⟩ (leadingCode list) :=
      reads_of_isLineToken (.whiteSpace empty (Text.isBlank_iff.1 space)) start
    have parts : (consCode blank list).flatMap Lexeme.parts = _ := parts_consCode reads
    rw [codeOf, parts]
    rfl

/-- White space in front of a line is not part of its body. -/
theorem bodyOf_consCode {blank : Text} {list : List Lexeme} (space : Text.isBlank blank = true)
    (visible : (textOf list).head?.all (!isWhiteSpace ·) = true) (rules : FormatRules) :
    bodyOf rules (consCode blank list) = bodyOf rules list := by
  rw [bodyOf, bodyOf, classOf_consCode_of_isBlank space]
  cases kind : classOf list with
  | blank => rfl
  | comment =>
      simp only [Text.trim, textOf_consCode, Text.trimStart_of_isBlank_append space]
  | docstring =>
      have nonempty : list ≠ [] := by
        rintro rfl
        contradiction
      have last : (consCode blank list).getLast?.any (·.lastKind.isLiteral) =
          list.getLast?.any (·.lastKind.isLiteral) := by
        have same : (consCode blank list).getLast?.map Lexeme.lastKind =
            list.getLast?.map Lexeme.lastKind := lastKind_consCode nonempty
        have any := congrArg (Option.any SpanKind.isLiteral) same
        rwa [Option.any_map, Option.any_map] at any
      simp only [Text.trim, textOf_consCode, Text.trimStart_of_isBlank_append space, last]
  | code =>
      have comments : (consCode blank list).filterMap Lexeme.comment? =
          list.filterMap Lexeme.comment? := filterMap_consCode (fun _ => rfl) blank list
      simp only [codeOf_consCode space visible, comments]

/-! ### Lines that stay the same -/

/-- The end of the last literal is trimmed: the line starts with a docstring and
ends with a newline inside a literal that is left open. -/
def losesLiteralEnd (list : List Lexeme) : Bool :=
  classOf list = .docstring && list.getLast?.map Lexeme.lastKind = some .newline

/-- The lexemes that are written for a line can be read back, and they have the
class, the tokens and the comments of the line.  They have its literals as well
unless the end of the last one is trimmed. -/
structure Keeps (list written : List Lexeme) : Prop where
  legible : Legible written
  inLine : Lexeme.newline ∉ written
  lineClass : classOf written = classOf list
  complete : Complete list → Complete written
  tokens : lexemeTokens written = lexemeTokens list
  comments : (written.filterMap Lexeme.comment?).map Text.trimEnd =
    (list.filterMap Lexeme.comment?).map Text.trimEnd
  literals : written.filterMap Lexeme.literal? = list.filterMap Lexeme.literal? ↔
    losesLiteralEnd list = false

namespace Keeps

variable {list written : List Lexeme}

theorem indent {blank : Text} (space : Text.isBlank blank = true)
    (plain : blank.all isPlainCode = true) (keeps : Keeps list written) :
    Keeps list (consCode blank written) where
  legible := legible_consCode keeps.legible plain
  inLine := fun member => keeps.inLine (newline_mem_consCode.1 member)
  lineClass := by rw [classOf_consCode_of_isBlank space, keeps.lineClass]
  complete := fun complete => complete_consCode_iff.2 (keeps.complete complete)
  tokens := by rw [lexemeTokens_consCode_blank (Text.isBlank_iff.1 space), keeps.tokens]
  comments := by rw [filterMap_consCode fun _ => rfl, keeps.comments]
  literals := by rw [filterMap_consCode fun _ => rfl, keeps.literals]

theorem losesLiteralEnd_consCode {blank : Text} (space : Text.isBlank blank = true) :
    losesLiteralEnd (consCode blank list) = losesLiteralEnd list := by
  rw [losesLiteralEnd, losesLiteralEnd, classOf_consCode_of_isBlank space]
  by_cases empty : list = []
  · rw [empty]
    rfl
  · rw [lastKind_consCode empty]

theorem of_consCode {blank : Text} (space : Text.isBlank blank = true)
    (keeps : Keeps list written) : Keeps (consCode blank list) written where
  legible := keeps.legible
  inLine := keeps.inLine
  lineClass := by rw [classOf_consCode_of_isBlank space, keeps.lineClass]
  complete := fun complete => keeps.complete (complete_consCode_iff.1 complete)
  tokens := by rw [lexemeTokens_consCode_blank (Text.isBlank_iff.1 space), keeps.tokens]
  comments := by rw [filterMap_consCode fun _ => rfl, keeps.comments]
  literals := by
    rw [filterMap_consCode fun _ => rfl, losesLiteralEnd_consCode space, keeps.literals]

theorem refl (legible : Legible list) (inLine : Lexeme.newline ∉ list)
    (kept : losesLiteralEnd list = false) : Keeps list list where
  legible := legible
  inLine := inLine
  lineClass := rfl
  complete := id
  tokens := rfl
  comments := rfl
  literals := by simp [kept]

end Keeps

end Bilingual

import Bilingual.Proofs.Fragments
import Bilingual.Proofs.ParallelRuns
import Bilingual.Proofs.SubstitutedLexemes

/-!
# Lines that differ in their literals

What a literal says does not matter to the formatter.  Where two lines are alike, they have
the same class and the same indentation, they end with a colon or not, and what is written of
them is alike again.  The main statements are `forall₂_writtenBody` and
`forall₂_alike_formatWith`.
-/

namespace Bilingual

/-! ### Alike lexemes -/

section Lexemes

variable {list other : List Lexeme}

/-- Literals that are alike are closed. -/
theorem allClosed_of_alike (alike : List.Forall₂ Lexeme.Alike list other) :
    AllClosed list ∧ AllClosed other := by
  induction alike with
  | nil => simp [AllClosed]
  | cons first rest induction =>
      rw [allClosed_cons, allClosed_cons]
      cases first with
      | @literal whole whole' alike =>
          exact ⟨⟨by rintro _ ⟨⟩; exact alike.closed, induction.1⟩,
            by rintro _ ⟨⟩; exact alike.closedOther, induction.2⟩
      | _ => exact ⟨⟨by simp, induction.1⟩, by simp, induction.2⟩

theorem comments_eq_of_alike (alike : List.Forall₂ Lexeme.Alike list other) :
    list.filterMap Lexeme.comment? = other.filterMap Lexeme.comment? := by
  induction alike with
  | nil => rfl
  | cons first rest induction =>
      cases first with
      | comment text => exact congrArg (text :: ·) induction
      | _ => exact induction

theorem leadingCode_eq_of_alike (alike : List.Forall₂ Lexeme.Alike list other) :
    leadingCode list = leadingCode other := by
  cases alike with
  | nil => rfl
  | cons first rest => cases first <;> rfl

theorem Literal.Alike.lineClass {whole other : Literal} (alike : whole.Alike other) :
    whole.lineClass = other.lineClass := by
  have kind := alike.kind
  rw [Literal.lineClass, Literal.lineClass]
  cases form : whole.form <;> cases form' : other.form <;> rw [form, form'] at kind <;>
    first | rfl | contradiction

/-- Alike lines are of one class. -/
theorem classOf_eq_of_alike (alike : List.Forall₂ Lexeme.Alike list other)
    (legible : Legible list) (legibleOther : Legible other) (inLine : Lexeme.newline ∉ list) :
    classOf list = classOf other := by
  induction alike with
  | nil => rfl
  | @cons _ _ list other first rest induction =>
      cases first with
      | newline => simp at inLine
      | comment text => rw [classOf_cons_comment legible.1, classOf_cons_comment legibleOther.1]
      | literal alike =>
          rw [classOf_cons_literal legible.1, classOf_cons_literal legibleOther.1, alike.lineClass]
      | code text =>
          have others := induction legible.2 legibleOther.2 fun member => inLine (by simp [member])
          rw [← consCode_of_legible legible, ← consCode_of_legible legibleOther]
          cases blank : Text.isBlank text with
          | true =>
              rw [classOf_consCode_of_isBlank blank, classOf_consCode_of_isBlank blank, others]
          | false =>
              rw [classOf_consCode_of_not_isBlank blank, classOf_consCode_of_not_isBlank blank]

theorem forall₂_consCode (text : Text) (alike : List.Forall₂ Lexeme.Alike list other) :
    List.Forall₂ Lexeme.Alike (consCode text list) (consCode text other) := by
  by_cases empty : text = []
  · rwa [empty, consCode_nil, consCode_nil]
  · have more : text.isEmpty = false := List.isEmpty_eq_false_iff.2 empty
    cases alike with
    | nil =>
        simp only [consCode, more, Bool.false_eq_true, if_false]
        exact .cons (.code text) .nil
    | cons first rest =>
        cases first with
        | code behind => exact .cons (.code (text ++ behind)) rest
        | _ =>
            simp only [consCode, more, Bool.false_eq_true, if_false]
            exact .cons (.code text) (.cons (by constructor <;> assumption) rest)

/-! ### Lines that are written as they stand -/

theorem forall₂_dropMargin (alike : List.Forall₂ Lexeme.Alike list other) :
    List.Forall₂ Lexeme.Alike (dropMargin list) (dropMargin other) := by
  cases alike with
  | nil => exact .nil
  | cons first rest =>
      cases first with
      | code text =>
          rw [dropMargin, dropMargin]
          split
          · exact rest
          · exact .cons (.code text) rest
      | _ => exact .cons (by constructor <;> assumption) rest

/-- Nothing is trimmed but code and comments. -/
theorem forall₂_trimLast (alike : List.Forall₂ Lexeme.Alike list other) (legible : Legible list)
    (legibleOther : Legible other) :
    List.Forall₂ Lexeme.Alike (trimLast list) (trimLast other) := by
  induction alike with
  | nil => exact .nil
  | @cons lexeme lexeme' list other first rest induction =>
      cases rest with
      | cons next rest =>
          exact .cons first (induction legible.2 legibleOther.2)
      | nil =>
          cases first with
          | newline => exact .nil
          | comment text => exact .cons (.comment _) .nil
          | code text =>
              rw [trimLast, if_neg (by simp [Lexeme.lastKind, SpanKind.isLiteral]),
                Lexeme.trimmed]
              split
              · exact .nil
              · exact .cons (.code _) .nil
          | @literal whole whole' alike =>
              have literal := Scanner.isLiteral_spanKind_mode
              rw [trimLast, trimLast, lastKind_of_closed legible.1 alike.closed,
                lastKind_of_closed legibleOther.1 alike.closedOther, if_pos (literal _),
                if_pos (literal _)]
              exact .cons (.literal alike) .nil

end Lexemes

/-! ### Parts -/

/-- The parts are the same, or literals that are alike. -/
inductive Part.Alike : Part → Part → Prop
  | code (token : Token LineTokenKind) : Alike (.code token) (.code token)
  | literal {whole other : Literal} (alike : whole.Alike other) :
      Alike (.literal whole) (.literal other)

namespace Part.Alike

variable {part other : Part}

theorem kind? (alike : part.Alike other) : part.piece.kind? = other.piece.kind? := by
  cases alike <;> rfl

theorem isBlank (alike : part.Alike other) : part.isBlank = other.isBlank := by
  cases alike <;> rfl

theorem closesGroup_literal {whole : Literal} (valid : (Part.literal whole).IsValid) :
    (Part.literal whole).piece.closesGroup = false := by
  obtain ⟨rest, reads⟩ := valid
  have first : (Part.literal whole).piece.text.head? = _ := head?_literal reads
  rw [Piece.closesGroup, first]
  cases whole.form.quote <;> rfl

theorem closesGroup (alike : part.Alike other) (valid : part.IsValid)
    (validOther : other.IsValid) : part.piece.closesGroup = other.piece.closesGroup := by
  cases alike with
  | code token => rfl
  | literal alike => rw [closesGroup_literal valid, closesGroup_literal validOther]

end Part.Alike

theorem forall₂_parts {list other : List Lexeme} (alike : List.Forall₂ Lexeme.Alike list other) :
    List.Forall₂ Part.Alike (list.flatMap Lexeme.parts) (other.flatMap Lexeme.parts) := by
  refine List.rel_flatMap alike fun lexeme lexeme' first => ?_
  cases first with
  | newline => exact .nil
  | comment text => exact .nil
  | literal alike => exact .cons (.literal alike) .nil
  | code text =>
      refine List.forall₂_same.2 fun part member => ?_
      obtain ⟨token, -, rfl⟩ := List.mem_map.1 member
      exact .code token

/-- Alike lines end with a colon, or none of them does. -/
theorem endsInColon_eq_of_alike {list other : List Lexeme}
    (alike : List.Forall₂ Lexeme.Alike list other) : endsInColon list = endsInColon other := by
  have parts := forall₂_parts alike
  rw [endsInColon_eq_any, endsInColon_eq_any, piecesOf, piecesOf]
  congr 1
  generalize list.flatMap Lexeme.parts = partsOf, other.flatMap Lexeme.parts = partsOfOther at parts
  induction parts with
  | nil => rfl
  | cons first rest induction =>
      rw [List.foldr_cons, List.foldr_cons, lastVisible?_consPiece, lastVisible?_consPiece,
        induction, first.isBlank, first.kind?]

section Spaces

variable (rules : FormatRules) {parts others : List Part} {behind behindOther : List Lexeme}

theorem gapParts_eq_of_alike {previous previous' next next' : Part}
    (alike : previous.Alike previous') (alikeNext : next.Alike next') (valid : next.IsValid)
    (validOther : next'.IsValid) (hadSpace : Bool) :
    gapParts rules previous next hadSpace = gapParts rules previous' next' hadSpace := by
  have text (word : previous.piece.kind? = some .word) :
      previous.piece.text = previous'.piece.text := by
    cases alike with
    | code token => rfl
    | literal alike => contradiction
  have decision : needsSpace rules previous.piece next.piece hadSpace =
      needsSpace rules previous'.piece next'.piece hadSpace :=
    needsSpace_congr alike.kind? alikeNext.kind? (alikeNext.closesGroup valid validOther)
      fun _ => text
  rw [gapParts, gapParts, decision]

theorem forall₂_spacedBehind (alike : List.Forall₂ Part.Alike parts others)
    (valid : ∀ part ∈ parts, part.IsValid) (validOther : ∀ part ∈ others, part.IsValid)
    {previous previous' : Part} (alikePrevious : previous.Alike previous') (hadSpace : Bool) :
    List.Forall₂ Part.Alike (spacedBehind rules previous hadSpace parts)
      (spacedBehind rules previous' hadSpace others) := by
  induction alike generalizing previous previous' hadSpace with
  | nil => exact .nil
  | cons first rest induction =>
      obtain ⟨validFirst, valid⟩ := List.forall_mem_cons.1 valid
      obtain ⟨validFirstOther, validOther⟩ := List.forall_mem_cons.1 validOther
      have behind := fun {previous previous'} => @induction valid validOther previous previous'
      rw [spacedBehind, spacedBehind, first.isBlank,
        gapParts_eq_of_alike rules alikePrevious first validFirst validFirstOther]
      split
      · exact behind alikePrevious true
      · refine List.rel_append (List.forall₂_same.2 fun part member => ?_)
          (.cons first (behind first false))
        rw [mem_gapParts member]
        exact .code _

/-- Alike parts are spaced alike. -/
theorem forall₂_spaced (alike : List.Forall₂ Part.Alike parts others)
    (valid : ∀ part ∈ parts, part.IsValid) (validOther : ∀ part ∈ others, part.IsValid) :
    List.Forall₂ Part.Alike (spaced rules parts) (spaced rules others) := by
  induction alike with
  | nil => exact .nil
  | cons first rest induction =>
      obtain ⟨-, valid⟩ := List.forall_mem_cons.1 valid
      obtain ⟨-, validOther⟩ := List.forall_mem_cons.1 validOther
      rw [spaced, spaced, first.isBlank]
      split
      · exact induction valid validOther
      · exact .cons first (forall₂_spacedBehind rules rest valid validOther first false)

theorem forall₂_assemble (alike : List.Forall₂ Part.Alike parts others)
    (ends : List.Forall₂ Lexeme.Alike behind behindOther) :
    List.Forall₂ Lexeme.Alike (assemble parts behind) (assemble others behindOther) := by
  induction alike with
  | nil => exact ends
  | cons first rest induction =>
      cases first with
      | code token => exact forall₂_consCode token.text induction
      | literal alike => exact .cons (.literal alike) induction

end Spaces

/-! ### What is written -/

section Written

variable (rules : FormatRules) {list other : List Lexeme}

theorem forall₂_writtenComment (alike : List.Forall₂ Lexeme.Alike list other) :
    List.Forall₂ Lexeme.Alike (writtenComment list) (writtenComment other) := by
  rw [writtenComment, writtenComment, comments_eq_of_alike alike]
  split
  · exact .nil
  · exact .cons (.code _) (.cons (.comment _) .nil)

/-- Of alike lines alike bodies are written. -/
theorem forall₂_writtenBody (alike : List.Forall₂ Lexeme.Alike list other)
    (legible : Legible list) (legibleOther : Legible other) (inLine : Lexeme.newline ∉ list) :
    List.Forall₂ Lexeme.Alike (writtenBody rules list) (writtenBody rules other) := by
  have kind := classOf_eq_of_alike alike legible legibleOther inLine
  rw [writtenBody, writtenBody, ← kind]
  cases shape : classOf list with
  | blank => exact .nil
  | comment =>
      simp only [comments_eq_of_alike alike]
      refine List.forall₂_same.2 fun lexeme member => ?_
      obtain ⟨text, -, rfl⟩ := List.mem_map.1 member
      exact .comment _
  | docstring =>
      obtain ⟨blank, whole, rest, space, rfl, -, shown⟩ :=
        exists_of_classOf_docstring legible shape
      obtain ⟨blank', whole', rest', space', rfl, -, shown'⟩ :=
        exists_of_classOf_docstring legibleOther (kind.symm.trans shape)
      have dropped := forall₂_dropMargin alike
      rw [dropMargin_consCode_literal space, dropMargin_consCode_literal space'] at dropped
      simp only [dropMargin_consCode_literal space, dropMargin_consCode_literal space']
      exact forall₂_trimLast dropped shown shown'
  | code =>
      exact forall₂_assemble
        (forall₂_spaced rules (forall₂_parts alike) (isValid_of_mem_flatMap_parts legible)
          (isValid_of_mem_flatMap_parts legibleOther))
        (forall₂_writtenComment alike)

theorem writtenAlike_of_alike (alike : List.Forall₂ Lexeme.Alike list other)
    (legible : Legible list) (legibleOther : Legible other) (inLine : Lexeme.newline ∉ list) :
    WrittenAlike rules (List.Forall₂ Lexeme.Alike) list other where
  lineClass := classOf_eq_of_alike alike legible legibleOther inLine
  margin := by rw [leadingCode_eq_of_alike alike]
  opensBlock := by
    obtain ⟨closed, closedOther⟩ := allClosed_of_alike alike
    have complete := (complete_iff legible).2 closed
    have completeOther := (complete_iff legibleOther).2 closedOther
    rw [opensBlock_codeOf legible complete, opensBlock_codeOf legibleOther completeOther,
      endsInColon_eq_of_alike alike]
  bodies := fun _ =>
    forall₂_consCode _ (forall₂_writtenBody rules alike legible legibleOther inLine)

end Written

/-! ### Whole sources -/

section Sources

variable {list other : List Lexeme}

theorem forall₂_splitOn (alike : List.Forall₂ Lexeme.Alike list other) :
    List.Forall₂ (List.Forall₂ Lexeme.Alike) (list.splitOn .newline) (other.splitOn .newline) := by
  induction alike with
  | nil => exact .cons .nil .nil
  | @cons lexeme lexeme' list other first rest induction =>
      rw [List.splitOn_cons_eq_if_modifyHead, List.splitOn_cons_eq_if_modifyHead]
      by_cases newline : lexeme = .newline
      · subst newline
        cases first with
        | newline => exact .cons .nil induction
      · have newline' : lexeme' ≠ .newline := by
          rintro rfl
          cases first with
          | newline => exact newline rfl
        rw [if_neg (by simpa using newline), if_neg (by simpa using newline')]
        generalize list.splitOn .newline = lines, other.splitOn .newline = others at induction
        cases induction with
        | nil => exact .nil
        | cons line lines => exact .cons (.cons first line) lines

theorem forall₂_intercalate {lines others : List (List Lexeme)}
    (alike : List.Forall₂ (List.Forall₂ Lexeme.Alike) lines others) :
    List.Forall₂ Lexeme.Alike ([Lexeme.newline].intercalate lines)
      ([Lexeme.newline].intercalate others) := by
  induction alike with
  | nil => exact .nil
  | cons first rest induction =>
      cases rest with
      | nil => simpa using first
      | cons next rest =>
          rw [List.intercalate_cons_cons, List.intercalate_cons_cons]
          exact List.rel_append (List.rel_append first (.cons .newline .nil)) induction

/-- Formatting sources that are alike gives sources that are alike. -/
theorem forall₂_alike_formatWith (rules : FormatRules) {first second : Text}
    (alike : List.Forall₂ Lexeme.Alike (lexemes first) (lexemes second)) :
    List.Forall₂ Lexeme.Alike (lexemes (formatWith rules first))
      (lexemes (formatWith rules second)) := by
  have lines : List.Forall₂ (List.Forall₂ Lexeme.Alike) (lexemeLines first)
      (lexemeLines second) := forall₂_splitOn alike
  rw [← intercalate_lexemeLines, ← intercalate_lexemeLines (formatWith rules second)]
  apply forall₂_intercalate
  apply forall₂_formatWith
  refine (forall₂_legible lines).imp ?_
  rintro line other ⟨alike, ⟨legible, inLine⟩, legibleOther, -⟩
  exact writtenAlike_of_alike rules alike legible legibleOther inLine

theorem forall₂_alike_substitute (table : KeywordTable) (direction : Direction)
    {first second : Text} (alike : List.Forall₂ Lexeme.Alike (lexemes first) (lexemes second)) :
    List.Forall₂ Lexeme.Alike (lexemes (substitute table direction first))
      (lexemes (substitute table direction second)) := by
  rw [lexemes_substitute, lexemes_substitute, List.forall₂_map_left_iff,
    List.forall₂_map_right_iff]
  refine alike.imp fun lexeme other alike => ?_
  cases alike <;> constructor
  assumption

end Sources

end Bilingual

import Bilingual.LineSpacing
import Bilingual.Proofs.CodeInFront

/-!
# Parts of a line

A line of code is put together from tokens and whole literals, with a comment or
nothing behind them.  Whether the lexemes of such a line are the ones that are
put in depends on neighbours only: this is `legible_assemble`.  By
`assemble_parts` every line is put together from its own parts.
-/

namespace Bilingual

/-- What a line of code is put together from. -/
inductive Part
  | code (token : Token LineTokenKind)
  | literal (whole : Literal)
  deriving DecidableEq, Repr

namespace Part

/-- The characters of a part. -/
def text : Part → Text
  | .code token => token.text
  | .literal whole => whole.text

/-- The tokens of a part that are not white space. -/
def visibleTokens : Part → List (Token WordTokenKind)
  | .code token => Bilingual.visibleTokens token.text
  | .literal _ => []

/-- The text of a literal. -/
def literal? : Part → Option Text
  | .code _ => none
  | .literal whole => some whole.text

/-- The part is read back as it is, when what stands behind it allows that. -/
def IsValid : Part → Prop
  | .code token => IsLineToken token ∧ token.text.all isPlainCode = true
  | .literal whole => ∃ rest, Reads ((Lexeme.literal whole).text ++ rest) (.literal whole) rest

/-- The second part can stand behind the first one: no word grows over the seam,
and no literal changes. -/
def Meets : Part → Part → Prop
  | .code first, .code second => joinsWords first.text second.text = false
  | .code _, .literal _ => True
  | .literal whole, next => (Lexeme.literal whole).canPrecede next.text.head? = true

/-- The second part can stand behind the first one, and both are read back as the
parts that they are. -/
def Fits : Part → Part → Prop
  | .code first, .code second => first.canPrecede second.text.head? = true
  | .code _, .literal _ => True
  | .literal whole, next => (Lexeme.literal whole).canPrecede next.text.head? = true

/-- Something can stand behind the part. -/
def IsClosed : Part → Prop
  | .code _ => True
  | .literal whole => whole.closed = true

theorem IsValid.text_ne_nil {part : Part} (valid : part.IsValid) : part.text ≠ [] := by
  cases part with
  | code token => exact valid.1.text_ne_nil
  | literal whole =>
      obtain ⟨rest, reads⟩ := valid
      exact reads.text_ne_nil

theorem Fits.meets {first second : Part} (valid : first.IsValid) (fits : first.Fits second) :
    first.Meets second := by
  match first, second with
  | .code first, .code second =>
      exact joinsWords_of_reads (reads_lineMunch_iff.2 ⟨valid.1, fits⟩)
  | .code _, .literal _ => trivial
  | .literal _, _ => exact fits

theorem Meets.isClosed {first second : Part} (valid : second.IsValid)
    (meets : first.Meets second) : first.IsClosed := by
  match first with
  | .code _ => trivial
  | .literal whole =>
      obtain ⟨character, text, shape⟩ := List.exists_cons_of_ne_nil valid.text_ne_nil
      by_contra left
      simp only [IsClosed, Bool.not_eq_true] at left
      simp [Meets, Lexeme.canPrecede, left, shape] at meets

end Part

/-- What something stands behind is closed. -/
theorem Part.isClosed_of_fits {part : Part} {parts : List Part} (valid : part.IsValid)
    (validParts : ∀ next ∈ parts, next.IsValid) (fits : ∀ next ∈ parts.head?, part.Fits next)
    (more : parts ≠ []) : part.IsClosed := by
  obtain ⟨next, others, rfl⟩ := List.exists_cons_of_ne_nil more
  exact ((fits next rfl).meets valid).isClosed (validParts next (by simp))

/-- The parts of a lexeme.  Line ends and comments have none. -/
def Lexeme.parts : Lexeme → List Part
  | .code text => (lineTokens text).map .code
  | .newline => []
  | .comment _ => []
  | .literal whole => [.literal whole]

/-- Puts parts together in front of lexemes. -/
def assemble : List Part → List Lexeme → List Lexeme
  | [], behind => behind
  | .code token :: parts, behind => consCode token.text (assemble parts behind)
  | .literal whole :: parts, behind => .literal whole :: assemble parts behind

@[simp] theorem assemble_nil (behind : List Lexeme) : assemble [] behind = behind := rfl

theorem assemble_append (first second : List Part) (behind : List Lexeme) :
    assemble (first ++ second) behind = assemble first (assemble second behind) := by
  induction first with
  | nil => rfl
  | cons part parts induction =>
      cases part <;> simp only [List.cons_append, assemble, induction]

@[simp] theorem textOf_assemble (parts : List Part) (behind : List Lexeme) :
    textOf (assemble parts behind) = parts.flatMap Part.text ++ textOf behind := by
  induction parts with
  | nil => rfl
  | cons part parts induction =>
      cases part <;> simp [assemble, induction, Part.text, Lexeme.text]

theorem newline_mem_assemble {parts : List Part} {behind : List Lexeme} :
    Lexeme.newline ∈ assemble parts behind ↔ Lexeme.newline ∈ behind := by
  induction parts with
  | nil => rfl
  | cons part parts induction =>
      cases part <;> simp [assemble, induction, newline_mem_consCode]

theorem literal_mem_assemble {parts : List Part} {behind : List Lexeme} {whole : Literal} :
    .literal whole ∈ assemble parts behind ↔ .literal whole ∈ parts ∨ .literal whole ∈ behind := by
  induction parts with
  | nil => simp
  | cons part parts induction =>
      cases part <;> simp [assemble, literal_mem_consCode, induction, or_assoc]

theorem comments_assemble (parts : List Part) (behind : List Lexeme) :
    (assemble parts behind).filterMap Lexeme.comment? = behind.filterMap Lexeme.comment? := by
  induction parts with
  | nil => rfl
  | cons part parts induction =>
      cases part with
      | code token => rw [assemble, filterMap_consCode (fun _ => rfl), induction]
      | literal whole => exact induction

theorem literals_assemble (parts : List Part) (behind : List Lexeme) :
    (assemble parts behind).filterMap Lexeme.literal? =
      parts.filterMap Part.literal? ++ behind.filterMap Lexeme.literal? := by
  induction parts with
  | nil => rfl
  | cons part parts induction =>
      cases part with
      | code token => rw [assemble, filterMap_consCode (fun _ => rfl), induction]; rfl
      | literal whole => exact congrArg (whole.text :: ·) induction

/-! ### Reading back what was put together -/

section Assemble

variable {parts : List Part} {behind : List Lexeme}

theorem head?_assemble {next : Part} (valid : next.IsValid) :
    (textOf (assemble (next :: parts) behind)).head? = next.text.head? := by
  obtain ⟨character, text, shape⟩ := List.exists_cons_of_ne_nil valid.text_ne_nil
  rw [textOf_assemble, List.flatMap_cons, shape]
  rfl

/-- Valid parts are read back when each of them can stand behind the one before. -/
theorem legible_assemble (valid : ∀ part ∈ parts, part.IsValid)
    (chain : parts.IsChain Part.Meets) (legible : Legible behind)
    (seam : ∀ whole, .literal whole ∈ parts.getLast? →
      (Lexeme.literal whole).canPrecede (textOf behind).head? = true) :
    Legible (assemble parts behind) := by
  induction parts with
  | nil => exact legible
  | cons part parts induction =>
      obtain ⟨first, others⟩ := List.isChain_cons.1 chain
      have rest : Legible (assemble parts behind) := by
        refine induction (fun other member => valid other (by simp [member])) others ?_
        intro whole last
        apply seam whole
        cases parts with
        | nil => simp at last
        | cons next parts => exact last
      cases part with
      | code token => exact legible_consCode rest (valid (.code token) (by simp)).2
      | literal whole =>
          obtain ⟨after, reads⟩ := valid (.literal whole) (by simp)
          refine ⟨reads.replaceRest ?_, rest⟩
          cases parts with
          | nil => exact seam whole rfl
          | cons next parts =>
              rw [head?_assemble (valid next (by simp))]
              exact first next rfl

theorem leadingCode_assemble {next : Token LineTokenKind} (nonempty : next.text ≠ []) :
    (leadingCode (assemble (.code next :: parts) behind)).head? = next.text.head? := by
  obtain ⟨character, text, shape⟩ := List.exists_cons_of_ne_nil nonempty
  rw [assemble, leadingCode_consCode, shape]
  rfl

/-- No word reaches over the seam in front of parts that can stand there. -/
theorem joinsWords_leadingCode_assemble {token : Token LineTokenKind}
    (valid : ∀ part ∈ parts, part.IsValid)
    (first : ∀ next ∈ parts.head?, (Part.code token).Meets next)
    (apart : joinsWords token.text (leadingCode behind) = false) :
    joinsWords token.text (leadingCode (assemble parts behind)) = false := by
  match parts with
  | [] => exact apart
  | .literal whole :: parts => simp [assemble, leadingCode, joinsWords]
  | .code next :: parts =>
      have nonempty := (valid (.code next) (by simp)).text_ne_nil
      have apart : joinsWords token.text next.text = false := first (.code next) rfl
      rwa [joinsWords, leadingCode_assemble nonempty]

theorem lexemeTokens_assemble (valid : ∀ part ∈ parts, part.IsValid)
    (chain : parts.IsChain Part.Meets)
    (apart : ∀ text, joinsWords text (leadingCode behind) = false) :
    lexemeTokens (assemble parts behind) =
      parts.flatMap Part.visibleTokens ++ lexemeTokens behind := by
  induction parts with
  | nil => rfl
  | cons part parts induction =>
      obtain ⟨first, others⟩ := List.isChain_cons.1 chain
      have validOthers : ∀ other ∈ parts, other.IsValid := by
        intro other member
        exact valid other (by simp [member])
      have rest := induction validOthers others
      cases part with
      | literal whole => exact rest
      | code token =>
          rw [assemble, lexemeTokens_consCode
            (joinsWords_leadingCode_assemble validOthers first (apart token.text)), rest,
            List.flatMap_cons, List.append_assoc]
          rfl

end Assemble

/-! ### The parts of given lexemes -/

theorem literal_mem_flatMap_parts {list : List Lexeme} {whole : Literal} :
    .literal whole ∈ list.flatMap Lexeme.parts ↔ .literal whole ∈ list := by
  have part : ∀ lexeme : Lexeme,
      .literal whole ∈ lexeme.parts ↔ lexeme = .literal whole := by
    intro lexeme
    cases lexeme <;> simp [Lexeme.parts, eq_comm]
  simp [List.mem_flatMap, part]

theorem isValid_of_mem_parts {source rest : Text} {lexeme : Lexeme}
    (reads : Reads source lexeme rest) {part : Part} (member : part ∈ lexeme.parts) :
    part.IsValid := by
  cases lexeme with
  | newline => simp [Lexeme.parts] at member
  | comment text => simp [Lexeme.parts] at member
  | literal whole =>
      obtain rfl := List.mem_singleton.1 member
      exact ⟨rest, by rwa [reads.parts]⟩
  | code text =>
      obtain ⟨token, known, rfl⟩ := List.mem_map.1 member
      refine ⟨isLineToken_of_mem_lineTokens known, List.all_eq_true.2 ?_⟩
      intro character inside
      apply List.all_eq_true.1 reads.plain_of_code
      rw [← flatMap_text_tokens lineMunch text]
      exact List.mem_flatMap.2 ⟨token, known, inside⟩

theorem isValid_of_mem_flatMap_parts {list : List Lexeme} (legible : Legible list) :
    ∀ part ∈ list.flatMap Lexeme.parts, part.IsValid := by
  induction list with
  | nil => simp
  | cons lexeme others induction =>
      intro part member
      rw [List.flatMap_cons, List.mem_append] at member
      rcases member with first | rest
      · exact isValid_of_mem_parts legible.1 first
      · exact induction legible.2 part rest

theorem isChain_parts (lexeme : Lexeme) : lexeme.parts.IsChain Part.Fits := by
  cases lexeme with
  | newline => exact .nil
  | comment text => exact .nil
  | literal whole => exact .singleton _
  | code text =>
      have legible := legible_lineTokens text
      rw [Lexeme.parts, List.isChain_map]
      generalize lineTokens text = list at legible
      induction list with
      | nil => exact .nil
      | cons token others induction =>
          refine List.isChain_cons.2 ⟨?_, induction legible.2⟩
          intro next head
          obtain ⟨rest, rfl⟩ := List.head?_eq_some_iff.1 head
          obtain ⟨valid, fits⟩ := reads_lineMunch_iff.1 legible.1
          have nonempty := (reads_lineMunch_iff.1 legible.2.1).1.text_ne_nil
          obtain ⟨character, text, shape⟩ := List.exists_cons_of_ne_nil nonempty
          rw [List.flatMap_cons, shape] at fits
          rw [Part.Fits, shape]
          exact fits

/-- A token that is read in front of lexemes is the first part of all. -/
theorem parts_consCode {token : Token LineTokenKind} {list : List Lexeme}
    (reads : lineMunch.Reads token (leadingCode list)) :
    (consCode token.text list).flatMap Lexeme.parts =
      .code token :: list.flatMap Lexeme.parts := by
  rcases consCode_cases token.text list with
    ⟨behind, others, rfl, same⟩ | ⟨none, ⟨empty, -⟩ | ⟨-, same⟩⟩
  · have cut : lineTokens (token.text ++ behind) = token :: lineTokens behind :=
      tokens_of_reads reads
    rw [same, List.flatMap_cons, List.flatMap_cons, Lexeme.parts, Lexeme.parts, cut]
    rfl
  · exact absurd empty (reads_lineMunch_iff.1 reads).1.text_ne_nil
  · rw [none] at reads
    have cut : lineTokens (token.text ++ []) = token :: tokens lineMunch [] :=
      tokens_of_reads reads
    rw [List.append_nil, tokens_nil] at cut
    rw [same, List.flatMap_cons, Lexeme.parts, cut]
    rfl

/-- Behind a comment a line ends. -/
theorem eq_nil_of_comment {text : Text} {others : List Lexeme}
    (legible : Legible (.comment text :: others)) (inLine : Lexeme.newline ∉ others) :
    others = [] := by
  have next := legible.1.canPrecede
  cases others with
  | nil => rfl
  | cons lexeme others =>
      have reads := legible.2.1
      obtain ⟨character, rest, shape⟩ := List.exists_cons_of_ne_nil reads.text_ne_nil
      rw [textOf_cons, shape] at next
      rw [shape] at reads
      obtain rfl : character = '\n' := by simpa [Lexeme.canPrecede] using next
      obtain ⟨rfl, -⟩ := reads.unique .newline
      simp at inLine

theorem flatMap_text_parts {lexeme : Lexeme} (noComment : lexeme.comment? = none)
    (inLine : lexeme ≠ .newline) : lexeme.parts.flatMap Part.text = lexeme.text := by
  cases lexeme with
  | newline => contradiction
  | comment text => contradiction
  | literal whole => simp [Lexeme.parts, Part.text, Lexeme.text]
  | code text =>
      rw [Lexeme.parts, List.flatMap_map]
      exact flatMap_text_tokens lineMunch text

theorem head?_of_mem_parts {lexeme : Lexeme} {others : List Lexeme}
    (legible : Legible (lexeme :: others)) (inLine : Lexeme.newline ∉ lexeme :: others)
    {part : Part} (first : part ∈ ((lexeme :: others).flatMap Lexeme.parts).head?) :
    (textOf (lexeme :: others)).head? = part.text.head? := by
  cases comment : lexeme.comment? with
  | some text =>
      obtain rfl : lexeme = .comment text := by cases lexeme <;> simp_all [Lexeme.comment?]
      obtain rfl := eq_nil_of_comment legible (by simp_all)
      simp [Lexeme.parts] at first
  | none =>
      have whole := flatMap_text_parts comment (by rintro rfl; simp at inLine)
      have nonempty := legible.1.text_ne_nil
      rw [textOf_cons, ← whole]
      rw [← whole] at nonempty
      rw [List.flatMap_cons] at first
      cases shape : lexeme.parts with
      | nil => simp [shape] at nonempty
      | cons next parts =>
          obtain rfl : next = part := by simpa [shape] using first
          have valid : next.IsValid := isValid_of_mem_parts legible.1 (by simp [shape])
          obtain ⟨character, text, textEq⟩ := List.exists_cons_of_ne_nil valid.text_ne_nil
          rw [List.flatMap_cons, textEq]
          rfl

/-- In a line each part can stand behind the one before. -/
theorem isChain_flatMap_parts {list : List Lexeme} (legible : Legible list)
    (inLine : Lexeme.newline ∉ list) :
    (list.flatMap Lexeme.parts).IsChain Part.Fits := by
  induction list with
  | nil => exact .nil
  | cons lexeme others induction =>
      have inLineOthers : Lexeme.newline ∉ others := by
        intro member
        exact inLine (by simp [member])
      rw [List.flatMap_cons, List.isChain_append]
      refine ⟨isChain_parts lexeme, induction legible.2 inLineOthers, ?_⟩
      intro last lastOf next nextOf
      cases lexeme with
      | newline => simp at inLine
      | comment text => simp [Lexeme.parts] at lastOf
      | literal whole =>
          obtain rfl : .literal whole = last := by simpa [Lexeme.parts] using lastOf
          cases others with
          | nil => simp at nextOf
          | cons following others =>
              rw [Part.Fits, ← head?_of_mem_parts legible.2 inLineOthers nextOf]
              exact legible.1.canPrecede
      | code text =>
          have noCode := leadingCode_of_legible legible
          obtain ⟨token, -, rfl⟩ := List.mem_map.1 (List.mem_of_getLast? lastOf)
          match others with
          | [] => simp at nextOf
          | .newline :: others => simp at inLineOthers
          | .code next :: others => exact absurd noCode legible.2.1.text_ne_nil
          | .comment comment :: others =>
              obtain rfl := eq_nil_of_comment legible.2 (by simp_all)
              simp [Lexeme.parts] at nextOf
          | .literal whole :: others =>
              obtain rfl : .literal whole = next := by simpa [Lexeme.parts] using nextOf
              trivial

/-- A line is put together from its parts and the comment behind them. -/
theorem assemble_parts {list : List Lexeme} (legible : Legible list)
    (inLine : Lexeme.newline ∉ list) :
    assemble (list.flatMap Lexeme.parts)
      ((list.filterMap Lexeme.comment?).map Lexeme.comment) = list := by
  induction list with
  | nil => rfl
  | cons lexeme others induction =>
      have inLineOthers : Lexeme.newline ∉ others := by
        intro member
        exact inLine (by simp [member])
      have rest := induction legible.2 inLineOthers
      rw [List.flatMap_cons, assemble_append]
      cases lexeme with
      | newline => simp at inLine
      | literal whole => exact congrArg (Lexeme.literal whole :: ·) rest
      | comment text =>
          obtain rfl := eq_nil_of_comment legible inLineOthers
          rfl
      | code text =>
          have tokens : ∀ list : List (Token LineTokenKind), assemble (list.map .code) others =
              consCode (list.flatMap Token.text) others := by
            intro list
            induction list with
            | nil => simp
            | cons token list induction =>
                rw [List.map_cons, assemble, induction, List.flatMap_cons, consCode_append]
          have whole : (lineTokens text).flatMap Token.text = text :=
            flatMap_text_tokens lineMunch text
          simp only [Lexeme.parts, List.filterMap_cons, Lexeme.comment?]
          rw [rest, tokens, whole, consCode_of_legible legible]

theorem lexemeTokens_eq_flatMap_parts (list : List Lexeme) :
    lexemeTokens list = (list.flatMap Lexeme.parts).flatMap Part.visibleTokens := by
  induction list with
  | nil => rfl
  | cons lexeme others induction =>
      rw [List.flatMap_cons, List.flatMap_append, ← induction]
      cases lexeme with
      | code text =>
          rw [Lexeme.parts, List.flatMap_map]
          exact congrArg (· ++ _) (visibleTokens_eq_flatMap text)
      | _ => rfl

theorem literals_eq_filterMap_parts (list : List Lexeme) :
    list.filterMap Lexeme.literal? =
      (list.flatMap Lexeme.parts).filterMap Part.literal? := by
  induction list with
  | nil => rfl
  | cons lexeme others induction =>
      rw [List.flatMap_cons, List.filterMap_append, ← induction]
      cases lexeme with
      | code text =>
          have none : (Lexeme.parts (.code text)).filterMap Part.literal? = [] := by
            rw [List.filterMap_eq_nil_iff]
            intro part member
            obtain ⟨token, -, rfl⟩ := List.mem_map.1 member
            rfl
          rw [none]
          rfl
      | _ => rfl

end Bilingual

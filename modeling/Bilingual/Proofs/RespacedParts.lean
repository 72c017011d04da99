import Bilingual.Proofs.PlacedParts

/-!
# Spacing a line again

The code of a line that was written once is cut into parts anew and put together
anew.  The main statement is `codeOf_assemble_iff`: the same text comes out exactly
when no colon has come to stand directly in front of `==`.  The two would be read
as `:=` and `=`, and the `=` gets spaces around it.
-/

namespace Bilingual

/-- A line that has nothing but white space and perhaps a comment. -/
structure IsLineEnd (list : List Lexeme) : Prop where
  blank : ∀ part ∈ list.flatMap Lexeme.parts, part.isBlank = true
  start : (leadingCode list).head?.all isWhiteSpace = true

/-- Among visible parts a colon comes to stand directly in front of `==`. -/
def gluesPlaced (afterColon : Bool) : List (Bool × Part) → Bool
  | [] => false
  | (_, part) :: others =>
      (afterColon && part = .equality) || gluesPlaced (part = .colon) others

/-! ### Parts of lexemes with code in front -/

theorem exists_parts_consCode {character : Char} (shown : isWhiteSpace character = false)
    (rest : Text) (list : List Lexeme) :
    ∃ part parts, (consCode (character :: rest) list).flatMap Lexeme.parts = part :: parts ∧
      part.isBlank = false ∧ part.text.head? = some character := by
  have first : ∀ behind, ∃ token others, lineTokens (character :: behind) = token :: others ∧
      (Part.code token).isBlank = false ∧ token.text.head? = some character := by
    intro behind
    obtain ⟨token, others, cut, starts⟩ : ∃ token others,
        lineTokens (character :: behind) = token :: others ∧
          token.text.head? = some character :=
      ⟨_, _, tokens_cons lineMunch character behind, rfl⟩
    refine ⟨token, others, cut, Bool.eq_false_iff.2 ?_, starts⟩
    intro blank
    have valid : IsLineToken token := isLineToken_of_mem_lineTokens (cut ▸ List.mem_cons_self)
    have kind : token.kind = .whiteSpace := by
      simpa [Part.isBlank, Part.piece, Piece.ofToken, Piece.kind?] using blank
    rw [valid.blank kind character (List.mem_of_head? starts)] at shown
    contradiction
  rcases consCode_cases (character :: rest) list with
    ⟨behind, others, rfl, same⟩ | ⟨-, ⟨empty, -⟩ | ⟨-, same⟩⟩
  · obtain ⟨token, later, cut, visible⟩ := first (rest ++ behind)
    refine ⟨.code token, later.map .code ++ others.flatMap Lexeme.parts, ?_, visible⟩
    rw [same, List.flatMap_cons, Lexeme.parts, List.cons_append, cut]
    rfl
  · contradiction
  · obtain ⟨token, later, cut, visible⟩ := first rest
    refine ⟨.code token, later.map .code ++ list.flatMap Lexeme.parts, ?_, visible⟩
    rw [same, List.flatMap_cons, Lexeme.parts, cut]
    rfl

theorem exists_parts_assemble {part : Part} (valid : part.IsValid)
    (visible : part.isBlank = false) (parts : List Part) (behind : List Lexeme) :
    ∃ first others, (assemble (part :: parts) behind).flatMap Lexeme.parts = first :: others ∧
      first.isBlank = false ∧ first.text.head? = part.text.head? := by
  cases part with
  | literal whole =>
      exact ⟨.literal whole, (assemble parts behind).flatMap Lexeme.parts, rfl, rfl, rfl⟩
  | code token =>
      obtain ⟨character, rest, shape⟩ := List.exists_cons_of_ne_nil valid.text_ne_nil
      have starts := valid.head?_visible visible
      rw [shape] at starts
      have first := exists_parts_consCode (by simpa using starts) rest (assemble parts behind)
      rw [← shape] at first
      rw [shape]
      exact first

/-! ### Writing parts behind others -/

section Behind

variable {rules : FormatRules}

theorem spacedBehind_of_blank {previous : Part} {hadSpace : Bool} {parts : List Part}
    (blank : ∀ part ∈ parts, part.isBlank = true) :
    spacedBehind rules previous hadSpace parts = [] := by
  induction parts generalizing hadSpace with
  | nil => rfl
  | cons part parts induction =>
      rw [spacedBehind, if_pos (blank part (by simp)),
        induction fun other member => blank other (by simp [member])]

theorem spacedBehind_cons {previous part : Part} (visible : part.isBlank = false)
    (hadSpace : Bool) (parts : List Part) :
    spacedBehind rules previous hadSpace (part :: parts) =
      gapParts rules previous part hadSpace ++ part :: spacedBehind rules part false parts := by
  rw [spacedBehind, visible, if_neg Bool.false_ne_true]

theorem codeOf_of_parts {list : List Lexeme} {part : Part} {parts : List Part}
    (shape : list.flatMap Lexeme.parts = part :: parts) (visible : part.isBlank = false) :
    codeOf rules list = part.text ++ (spacedBehind rules part false parts).flatMap Part.text := by
  rw [codeOf, shape, spaced, visible, if_neg Bool.false_ne_true, List.flatMap_cons]

theorem flatMap_text_spacedBehind {list : List Lexeme} {previous first : Part}
    {others : List Part} (shape : list.flatMap Lexeme.parts = first :: others)
    (visible : first.isBlank = false) (hadSpace : Bool) :
    (spacedBehind rules previous hadSpace (list.flatMap Lexeme.parts)).flatMap Part.text =
      gap rules previous.piece first.piece hadSpace ++ codeOf rules list := by
  rw [codeOf_of_parts shape visible, shape, spacedBehind_cons visible, List.flatMap_append,
    flatMap_text_gapParts, List.flatMap_cons]

end Behind

/-! ### What changes -/

section Glued

variable {rules : FormatRules} {tail : List Lexeme}

/-- Where an `=` comes next, it is the start of `==`. -/
theorem placeBehind_of_sign {previous : Part} {others : List (Bool × Part)}
    (lineEnd : IsLineEnd tail) (follows : Follows previous others)
    (sign : (leadingCode (assemble (placeBehind rules previous others) tail)).head? = some '=') :
    ∃ later, placeBehind rules previous others =
      .equality :: placeBehind rules .equality later ∧ Follows .equality later ∧
        later.length < others.length := by
  match others with
  | [] =>
      have space := lineEnd.start
      rw [placeBehind, assemble_nil] at sign
      rw [sign] at space
      contradiction
  | (hadSpace, part) :: later =>
      obtain ⟨-, -, ⟨valid, -⟩, rest⟩ := follows
      rw [placeBehind] at sign ⊢
      unfold gapParts at sign ⊢
      split at sign
      · rw [List.singleton_append, assemble_space, leadingCode_consCode] at sign
        exact absurd (Option.some.inj sign) (by decide)
      · next dropped =>
          rw [List.nil_append] at sign
          rw [if_neg dropped]
          cases part with
          | literal whole => contradiction
          | code token =>
              rw [leadingCode_assemble valid.text_ne_nil] at sign
              rcases Part.eq_of_head?_sign valid.1 sign with assign | equality
              · have kind : (Part.code token).piece.kind? = some .assign := congrArg some assign
                exact absurd (needsSpace_of_assign kind) dropped
              · rw [equality] at rest ⊢
                exact ⟨later, rfl, rest, by simp⟩

/-- The second `=` of a `==` whose first one was read with a colon, and the parts
behind it. -/
def strandedSign (rules : FormatRules) (tail : List Lexeme) (others : List (Bool × Part)) :
    List Lexeme :=
  consCode ['='] (assemble (placeBehind rules .equality others) tail)

/-- In front of another `==`, the sign takes the first half of that with it. -/
theorem parts_strandedSign {others later : List (Bool × Part)}
    (shape : placeBehind rules .equality others =
      .equality :: placeBehind rules .equality later) :
    (strandedSign rules tail others).flatMap Lexeme.parts =
      .equality :: (strandedSign rules tail later).flatMap Lexeme.parts := by
  have swap : strandedSign rules tail others =
      consCode ['=', '='] (strandedSign rules tail later) := by
    rw [strandedSign, shape, strandedSign, ← consCode_append]
    exact (consCode_append _ _ _).symm
  rw [swap]
  exact parts_consCode (reads_of_isLineToken .equality rfl)

/-- In the end the sign is read as `=`, and gets a space in front. -/
theorem spacedBehind_strandedSign_ne {others : List (Bool × Part)} (lineEnd : IsLineEnd tail)
    (follows : Follows .equality others) {previous : Part}
    (operator : previous.piece.kind? = some .operator) :
    (spacedBehind rules previous false
        ((strandedSign rules tail others).flatMap Lexeme.parts)).flatMap Part.text ≠
      '=' :: (placeBehind rules .equality others).flatMap Part.text := by
  induction lengthEq : others.length using Nat.strongRecOn generalizing others previous with
  | ind length induction =>
      by_cases sign : (leadingCode (assemble (placeBehind rules .equality others) tail)).head? =
          some '='
      · obtain ⟨later, shape, rest, shorter⟩ := placeBehind_of_sign lineEnd follows sign
        have noSpace : needsSpace rules previous.piece Part.equality.piece false = false := by
          rw [needsSpace, operator]
          rfl
        have later_ne : (spacedBehind rules .equality false
            ((strandedSign rules tail later).flatMap Lexeme.parts)).flatMap Part.text ≠
              '=' :: (placeBehind rules .equality later).flatMap Part.text :=
          induction later.length (by omega) rest rfl rfl
        rw [parts_strandedSign shape, spacedBehind_cons rfl, gapParts, noSpace, shape]
        simpa [Part.equality, Part.text] using later_ne
      · have reads : lineMunch.Reads ⟨.assign, ['=']⟩
            (leadingCode (assemble (placeBehind rules .equality others) tail)) :=
          reads_of_isLineToken .assign (by simpa [Token.canPrecede] using sign)
        have parts : (strandedSign rules tail others).flatMap Lexeme.parts = _ :=
          parts_consCode reads
        have space : needsSpace rules previous.piece (Part.code ⟨.assign, ['=']⟩).piece false =
            true := needsSpace_of_assign rfl
        rw [parts, spacedBehind_cons rfl, gapParts, space, if_pos rfl]
        simp [Part.space, Part.text]

/-- A token is read back where it was placed, unless it is a colon directly in front
of `==`. -/
theorem reads_or_glued {token : Token LineTokenKind} {others : List (Bool × Part)}
    (lineEnd : IsLineEnd tail) (valid : (Part.code token).IsValid)
    (visible : (Part.code token).isBlank = false) (follows : Follows (.code token) others) :
    lineMunch.Reads token
        (leadingCode (assemble (placeBehind rules (.code token) others) tail)) ∨
      Part.code token = .colon ∧ rules.spaceAfterColon = false ∧
        ∃ hadSpace later, others = (hadSpace, .equality) :: later := by
  match others with
  | [] =>
      left
      apply reads_of_isLineToken valid.1
      have start := lineEnd.start
      rw [placeBehind, assemble_nil]
      cases head : (leadingCode tail).head? with
      | none => exact token.canPrecede_none
      | some character =>
          rw [head] at start
          exact Part.canPrecede_of_isWhiteSpace visible start
  | (hadSpace, part) :: later =>
      obtain ⟨closed, first, ⟨validPart, -⟩, -⟩ := follows
      rw [placeBehind, gapParts]
      split
      · left
        apply reads_of_isLineToken valid.1
        rw [List.singleton_append, assemble_space, leadingCode_consCode]
        exact Part.canPrecede_of_isWhiteSpace visible (by decide)
      · next dropped =>
          rw [List.nil_append]
          rcases Part.fits_or_glued valid visible closed validPart first
            (Bool.eq_false_iff.2 dropped) with fits | ⟨colon, rfl, noSpace⟩
          · left
            apply reads_of_isLineToken valid.1
            cases part with
            | literal whole => exact token.canPrecede_none
            | code next =>
                rw [leadingCode_assemble validPart.text_ne_nil]
                exact fits
          · exact .inr ⟨colon, noSpace, hadSpace, later, rfl⟩

theorem parts_assemble_or_glued {part : Part} {others : List (Bool × Part)}
    (lineEnd : IsLineEnd tail) (valid : part.IsValid) (visible : part.isBlank = false)
    (follows : Follows part others) :
    (assemble (part :: placeBehind rules part others) tail).flatMap Lexeme.parts =
        part :: (assemble (placeBehind rules part others) tail).flatMap Lexeme.parts ∨
      part = .colon ∧ rules.spaceAfterColon = false ∧
        ∃ hadSpace later, others = (hadSpace, .equality) :: later := by
  cases part with
  | literal whole => exact .inl rfl
  | code token =>
      rcases reads_or_glued lineEnd valid visible follows with reads | glued
      · exact .inl (parts_consCode reads)
      · exact .inr glued

theorem needsSpace_glued (noSpace : rules.spaceAfterColon = false) (hadSpace : Bool) :
    needsSpace rules Part.colon.piece Part.equality.piece hadSpace = false := by
  simp [needsSpace, Part.colon, Part.equality, Part.piece, Piece.ofToken, Piece.kind?, noSpace]

theorem parts_of_glued (noSpace : rules.spaceAfterColon = false) (hadSpace : Bool)
    (others : List (Bool × Part)) :
    (assemble (.colon :: placeBehind rules .colon ((hadSpace, .equality) :: others)) tail).flatMap
        Lexeme.parts =
      .code ⟨.operator, [':', '=']⟩ :: (strandedSign rules tail others).flatMap Lexeme.parts := by
  have swap : assemble (.colon :: placeBehind rules .colon ((hadSpace, .equality) :: others)) tail =
      consCode [':', '='] (strandedSign rules tail others) := by
    rw [placeBehind, gapParts, needsSpace_glued noSpace, if_neg Bool.false_ne_true,
      strandedSign, ← consCode_append]
    exact (consCode_append _ _ _).symm
  rw [swap]
  exact parts_consCode (reads_of_isLineToken .walrus rfl)

/-- Texts behind a space or none are the same when both start visibly. -/
theorem space_append_iff {first second : Bool} {text other : Text}
    (visible : text.head?.all (!isWhiteSpace ·) = true)
    (visibleOther : other.head?.all (!isWhiteSpace ·) = true) :
    (if first then [' '] else []) ++ text = (if second then [' '] else []) ++ other ↔
      first = second ∧ text = other := by
  have blank : isWhiteSpace ' ' = true := by decide
  cases first <;> cases second <;> simp
  · rintro rfl
    simp [blank] at visible
  · rintro rfl
    simp [blank] at visibleOther

theorem codeOf_ne_of_glued {others : List (Bool × Part)} (lineEnd : IsLineEnd tail)
    (follows : Follows .equality others) (noSpace : rules.spaceAfterColon = false)
    (hadSpace : Bool) :
    codeOf rules (assemble
        (.colon :: placeBehind rules .colon ((hadSpace, .equality) :: others)) tail) ≠
      Part.colon.text ++
        (placeBehind rules .colon ((hadSpace, .equality) :: others)).flatMap Part.text := by
  have walrus : (spacedBehind rules (.code ⟨.operator, [':', '=']⟩) false
      ((strandedSign rules tail others).flatMap Lexeme.parts)).flatMap Part.text ≠
        '=' :: (placeBehind rules .equality others).flatMap Part.text :=
    spacedBehind_strandedSign_ne lineEnd follows rfl
  rw [codeOf_of_parts (parts_of_glued noSpace hadSpace others) rfl, placeBehind, gapParts,
    needsSpace_glued noSpace]
  simpa [Part.colon, Part.equality, Part.text] using walrus

theorem flatMap_text_behind {part next first : Part} {others : List (Bool × Part)}
    {later : List Part} (valid : next.IsValid) (visible : next.isBlank = false)
    (shape : (assemble (next :: placeBehind rules next others) tail).flatMap Lexeme.parts =
      first :: later)
    (visibleFirst : first.isBlank = false) (hadSpace : Bool) :
    (spacedBehind rules part false
        ((assemble (placeBehind rules part ((hadSpace, next) :: others)) tail).flatMap
          Lexeme.parts)).flatMap Part.text =
      gap rules part.piece first.piece (needsSpace rules part.piece next.piece hadSpace) ++
        codeOf rules (assemble (next :: placeBehind rules next others) tail) := by
  rw [← flatMap_text_spacedBehind shape visibleFirst, placeBehind, gapParts]
  cases needsSpace rules part.piece next.piece hadSpace with
  | false => rfl
  | true =>
      have reads : lineMunch.Reads ⟨.whiteSpace, [' ']⟩
          (leadingCode (assemble (next :: placeBehind rules next others) tail)) := by
        refine reads_of_isLineToken (.whiteSpace (by simp) Part.isWhiteSpace_of_mem_space) ?_
        cases next with
        | literal whole => rfl
        | code token =>
            rw [leadingCode_assemble valid.text_ne_nil]
            exact valid.head?_visible visible
      rw [if_pos rfl, List.singleton_append, assemble_space, parts_consCode reads]
      rfl

/-- A line in which the first part is read back stays the same when the line behind
that part does. -/
theorem codeOf_assemble_cons_iff {part next : Part} {hadSpace : Bool}
    {others : List (Bool × Part)} (lineEnd : IsLineEnd tail) (visible : part.isBlank = false)
    (valid : next.IsValid) (visibleNext : next.isBlank = false) (follows : Follows next others)
    (parts : (assemble (part :: placeBehind rules part ((hadSpace, next) :: others)) tail).flatMap
        Lexeme.parts =
      part :: (assemble (placeBehind rules part ((hadSpace, next) :: others)) tail).flatMap
        Lexeme.parts) :
    codeOf rules (assemble (part :: placeBehind rules part ((hadSpace, next) :: others)) tail) =
        part.text ++ (placeBehind rules part ((hadSpace, next) :: others)).flatMap Part.text ↔
      codeOf rules (assemble (next :: placeBehind rules next others) tail) =
        next.text ++ (placeBehind rules next others).flatMap Part.text := by
  obtain ⟨first, later, shape, visibleFirst, starts⟩ :=
    exists_parts_assemble valid visibleNext (placeBehind rules next others) tail
  have visibleCode : (codeOf rules (assemble (next :: placeBehind rules next others)
      tail)).head?.all (!isWhiteSpace ·) = true := by
    rw [codeOf_of_parts shape visibleFirst, List.head?_append, starts, ← List.head?_append]
    exact valid.head?_text_append visibleNext _
  rw [codeOf_of_parts parts visible, List.append_cancel_left_eq,
    flatMap_text_behind valid visibleNext shape visibleFirst, placeBehind,
    List.flatMap_append, flatMap_text_gapParts, List.flatMap_cons, gap, gap,
    space_append_iff visibleCode (valid.head?_text_append visibleNext _)]
  apply and_iff_right_of_imp
  intro same
  rcases @parts_assemble_or_glued rules tail next others lineEnd valid visibleNext
    follows with kept | ⟨rfl, noSpace, gap, behind, rfl⟩
  · rw [kept] at shape
    obtain ⟨rfl, -⟩ := List.cons.inj shape
    exact needsSpace_needsSpace
  · obtain ⟨-, -, -, followsBehind⟩ := follows
    exact absurd same (codeOf_ne_of_glued lineEnd followsBehind noSpace gap)

theorem gluesPlaced_of_apart {part next : Part} {hadSpace : Bool} {others : List (Bool × Part)}
    (apart : ¬(part = .colon ∧ next = .equality ∧ rules.spaceAfterColon = false)) :
    (!rules.spaceAfterColon && gluesPlaced (part = .colon) ((hadSpace, next) :: others)) =
      (!rules.spaceAfterColon && gluesPlaced (next = .colon) others) := by
  cases noSpace : rules.spaceAfterColon with
  | true => rfl
  | false =>
      have none : (decide (part = .colon) && decide (next = .equality)) = false := by
        rw [← Bool.decide_and, decide_eq_false_iff_not]
        intro both
        exact apart ⟨both.1, both.2, noSpace⟩
      rw [gluesPlaced, none, Bool.false_or]

/-- The same text comes out when the parts of a line are placed again, exactly when
no colon has come to stand directly in front of `==`. -/
theorem codeOf_assemble_iff {part : Part} {others : List (Bool × Part)}
    (lineEnd : IsLineEnd tail) (valid : part.IsValid) (visible : part.isBlank = false)
    (follows : Follows part others) :
    codeOf rules (assemble (part :: placeBehind rules part others) tail) =
        part.text ++ (placeBehind rules part others).flatMap Part.text ↔
      (!rules.spaceAfterColon && gluesPlaced (part = .colon) others) = false := by
  induction others generalizing part with
  | nil =>
      rcases parts_assemble_or_glued lineEnd valid visible follows with
        parts | ⟨-, -, hadSpace, later, shape⟩
      · rw [codeOf_of_parts parts visible, placeBehind, assemble_nil,
          spacedBehind_of_blank lineEnd.blank]
        simp [gluesPlaced]
      · contradiction
  | cons next others induction =>
      obtain ⟨hadSpace, next⟩ := next
      have placed := @parts_assemble_or_glued rules tail part ((hadSpace, next) :: others)
        lineEnd valid visible follows
      obtain ⟨-, -, ⟨validNext, visibleNext⟩, followsNext⟩ := follows
      by_cases glued : part = .colon ∧ next = .equality ∧ rules.spaceAfterColon = false
      · obtain ⟨rfl, rfl, noSpace⟩ := glued
        exact iff_of_false (codeOf_ne_of_glued lineEnd followsNext noSpace hadSpace)
          (by simp [gluesPlaced, noSpace])
      · rcases placed with parts | ⟨colon, noSpace, _, later, shape⟩
        · rw [codeOf_assemble_cons_iff lineEnd visible validNext visibleNext followsNext parts,
            gluesPlaced_of_apart glued]
          exact induction validNext visibleNext followsNext
        · simp only [List.cons.injEq, Prod.mk.injEq] at shape
          exact absurd ⟨colon, shape.1.2, noSpace⟩ glued

end Glued

end Bilingual

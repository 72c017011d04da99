import Bilingual.Proofs.LiteralBodies
import Bilingual.Proofs.Runs

/-!
# Lexemes of a source text

The scanner gives out a literal in as many spans as it has lines, and it tells
from its state where one literal ends and the next begins.  Statements about
whole texts are easier on a coarser cut: runs of code, newlines that end a line,
comments, and whole literals.  This file reads the first lexeme of a text.

The main statement is `Reads.replaceRest`: how a lexeme is read depends on the
text behind it only through the first character of that text.
-/

namespace Bilingual

/-- A literal with its delimiters and the newlines inside it.  Only at the end of
a text can a literal be left open. -/
structure Literal where
  form : LiteralForm
  text : Text
  closed : Bool
  deriving DecidableEq, Repr

/-- Two quotes with nothing between them.  A third one would open a docstring. -/
def Literal.isEmptyString (literal : Literal) : Bool :=
  match literal.form with
  | .string quote => literal.text = [quote.character, quote.character]
  | .docstring _ => false

/-- A run of code, a newline outside literals, a comment, or a literal. -/
inductive Lexeme
  | code (text : Text)
  | newline
  | comment (text : Text)
  | literal (literal : Literal)
  deriving DecidableEq, Repr

namespace Lexeme

/-- The characters of a lexeme. -/
def text : Lexeme → Text
  | .code text => text
  | .newline => ['\n']
  | .comment text => text
  | .literal whole => whole.text

/-- The character behind a lexeme does not change how the lexeme is read. -/
def canPrecede : Lexeme → Option Char → Bool
  | .code _, next => next.all (!isPlainCode ·)
  | .newline, _ => true
  | .comment _, next => next.all (· = '\n')
  | .literal whole, next =>
      if whole.closed then
        !(whole.isEmptyString && next = some whole.form.quote.character)
      else next.isNone

end Lexeme

/-- The text of lexemes. -/
def textOf (lexemes : List Lexeme) : Text :=
  lexemes.flatMap Lexeme.text

@[simp] theorem textOf_nil : textOf [] = [] := rfl

@[simp] theorem textOf_cons (lexeme : Lexeme) (others : List Lexeme) :
    textOf (lexeme :: others) = lexeme.text ++ textOf others := rfl

@[simp] theorem textOf_append (first second : List Lexeme) :
    textOf (first ++ second) = textOf first ++ textOf second := by
  simp [textOf]

/-! ### Openings -/

/-- The form of the literal that is read in a mode. -/
def ScanMode.literalForm? : ScanMode → Option LiteralForm
  | .string quote => some (.string quote)
  | .docstring quote => some (.docstring quote)
  | .code => none
  | .comment => none

@[simp] theorem LiteralForm.literalForm?_mode (form : LiteralForm) :
    form.mode.literalForm? = some form := by
  cases form <;> rfl

@[simp] theorem Quote.ofChar?_character (quote : Quote) :
    Quote.ofChar? quote.character = some quote := by
  cases quote <;> rfl

theorem Quote.character_of_ofChar? {character : Char} {quote : Quote}
    (found : Quote.ofChar? character = some quote) : character = quote.character := by
  unfold Quote.ofChar? at found
  split at found
  · next single => rw [← Option.some.inj found, single]
  · split at found
    · next double => rw [← Option.some.inj found, double]
    · simp at found

theorem Quote.not_isPlainCode (quote : Quote) : isPlainCode quote.character = false := by
  simp [isPlainCode]

theorem Quote.not_isWhiteSpace (quote : Quote) : isWhiteSpace quote.character = false := by
  cases quote <;> decide

theorem opening?_of_isPlainCode {character : Char} {rest : Text}
    (plain : isPlainCode character = true) : opening? (character :: rest) = none := by
  simp only [isPlainCode, Bool.and_eq_true, bne_iff_ne, Option.isNone_iff_eq_none] at plain
  simp [opening?, plain.1.2, plain.2]

theorem codeBody_of_opening? {source delimiter rest : Text} {mode : ScanMode}
    (opens : opening? source = some (mode, delimiter, rest)) :
    codeBody source = ⟨[], false, source⟩ := by
  cases source with
  | nil => rfl
  | cons character behind =>
      cases plain : isPlainCode character with
      | false => simp [codeBody, plain]
      | true => simp [opening?_of_isPlainCode plain] at opens

theorem isPlainCode_of_opening? {character : Char} {rest : Text}
    (inLine : character ≠ '\n') (opens : opening? (character :: rest) = none) :
    isPlainCode character = true := by
  simp only [opening?] at opens
  split at opens
  · simp at opens
  · next hash =>
      split at opens
      · next quote => simp [isPlainCode, inLine, hash, quote]
      · split at opens <;> simp at opens

theorem opening?_hash (rest : Text) :
    opening? ('#' :: rest) = some (.comment, ['#'], rest) := rfl

theorem opening?_delimiter {form : LiteralForm} {behind : Text}
    (opens : form.opensBefore behind = true) :
    opening? (form.delimiter ++ behind) = some (form.mode, form.delimiter, behind) := by
  cases form with
  | string quote =>
      have single : quote.triple.isPrefixOf (quote.character :: behind) = false := by
        simpa [LiteralForm.opensBefore, Quote.triple, List.isPrefixOf] using opens
      have hash : quote.character ≠ '#' := by cases quote <;> decide
      simp [LiteralForm.delimiter, LiteralForm.mode, opening?, hash, single]
  | docstring quote =>
      have hash : quote.character ≠ '#' := by cases quote <;> decide
      simp [LiteralForm.delimiter, LiteralForm.mode, opening?, hash, Quote.triple,
        List.isPrefixOf]

theorem opening?_cases {source delimiter behind : Text} {mode : ScanMode}
    (opens : opening? source = some (mode, delimiter, behind)) :
    mode = .comment ∧ delimiter = ['#'] ∨
      ∃ form : LiteralForm, mode = form.mode ∧ delimiter = form.delimiter ∧
        form.opensBefore behind = true := by
  cases source with
  | nil => simp [opening?] at opens
  | cons character rest =>
      simp only [opening?] at opens
      split at opens
      · simp only [Option.some.injEq, Prod.mk.injEq] at opens
        exact .inl ⟨opens.1.symm, opens.2.1.symm⟩
      · split at opens
        · simp at opens
        · next quote found =>
            obtain rfl := Quote.character_of_ofChar? found
            right
            split at opens
            · simp only [Option.some.injEq, Prod.mk.injEq] at opens
              exact ⟨.docstring quote, opens.1.symm, opens.2.1.symm, rfl⟩
            · next single =>
                simp only [Option.some.injEq, Prod.mk.injEq] at opens
                obtain ⟨rfl, rfl, rfl⟩ := opens
                refine ⟨.string quote, rfl, rfl, ?_⟩
                simp only [Quote.triple, List.isPrefixOf_cons_cons_self] at single
                simpa only [LiteralForm.opensBefore, Bool.not_eq_true'] using
                  Bool.eq_false_iff.2 single

/-! ### The next lexeme -/

/-- The first lexeme of a text, and the text behind it. -/
def nextLexeme? : Text → Option (Lexeme × Text)
  | [] => none
  | character :: rest =>
      if character = '\n' then some (.newline, rest)
      else
        match opening? (character :: rest) with
        | none =>
            let body := codeBody (character :: rest)
            some (.code body.text, body.rest)
        | some (mode, delimiter, behind) =>
            match mode.literalForm? with
            | none =>
                let body := commentBody behind
                some (.comment (delimiter ++ body.text), body.rest)
            | some form =>
                let body := literalBody form behind
                some (.literal ⟨form, delimiter ++ body.text, body.closed⟩, body.rest)

/-- `Reads source lexeme rest` says that a text starts with a lexeme behind which
the text `rest` is left. -/
inductive Reads : Text → Lexeme → Text → Prop
  | code {text rest : Text} (nonempty : text ≠ []) (plain : text.all isPlainCode = true)
      (whole : rest.head?.all (!isPlainCode ·) = true) :
      Reads (text ++ rest) (.code text) rest
  | newline {rest : Text} : Reads ('\n' :: rest) .newline rest
  | comment {text rest : Text} (inLine : '\n' ∉ text)
      (whole : rest.head?.all (· = '\n') = true) :
      Reads ('#' :: (text ++ rest)) (.comment ('#' :: text)) rest
  | literal {form : LiteralForm} {behind : Text} (opens : form.opensBefore behind = true) :
      Reads (form.delimiter ++ behind)
        (.literal ⟨form, form.delimiter ++ (literalBody form behind).text,
          (literalBody form behind).closed⟩)
        (literalBody form behind).rest

theorem nextLexeme?_of_reads {source rest : Text} {lexeme : Lexeme}
    (reads : Reads source lexeme rest) : nextLexeme? source = some (lexeme, rest) := by
  cases reads with
  | @code text rest nonempty plain whole =>
      obtain ⟨character, others, rfl⟩ := List.exists_cons_of_ne_nil nonempty
      have first : isPlainCode character = true := (List.all_eq_true.1 plain) _ (by simp)
      have inLine : character ≠ '\n' := by
        rintro rfl
        simp [isPlainCode] at first
      have run := takeWhile_dropWhile_append (List.all_eq_true.1 plain) whole
      rw [List.cons_append] at run ⊢
      simp only [nextLexeme?, if_neg inLine, opening?_of_isPlainCode first, codeBody, run.1,
        run.2]
  | newline => simp [nextLexeme?]
  | @comment text rest inLine whole =>
      have run := firstLine_append inLine whole
      simp [nextLexeme?, opening?_hash, ScanMode.literalForm?, commentBody, run.1, run.2]
  | @literal form behind opens =>
      have found := opening?_delimiter opens
      obtain ⟨others, shape⟩ : ∃ others, form.delimiter = form.quote.character :: others := by
        cases form <;> exact ⟨_, rfl⟩
      have inLine := form.quote.character_ne.1
      rw [shape] at found ⊢
      rw [List.cons_append] at found ⊢
      simp [nextLexeme?, if_neg inLine, found]

/-- The first lexeme of a text is at its front. -/
theorem Reads.parts {source rest : Text} {lexeme : Lexeme}
    (reads : Reads source lexeme rest) : lexeme.text ++ rest = source := by
  cases reads with
  | code => rfl
  | newline => rfl
  | comment => rfl
  | literal => simp [Lexeme.text]

theorem Reads.text_ne_nil {source rest : Text} {lexeme : Lexeme}
    (reads : Reads source lexeme rest) : lexeme.text ≠ [] := by
  cases reads with
  | code nonempty => exact nonempty
  | newline => simp [Lexeme.text]
  | comment => simp [Lexeme.text]
  | @literal form =>
      cases form <;> simp [Lexeme.text, LiteralForm.delimiter, Quote.triple]

theorem exists_reads {source : Text} (nonempty : source ≠ []) :
    ∃ lexeme rest, Reads source lexeme rest := by
  obtain ⟨character, others, rfl⟩ := List.exists_cons_of_ne_nil nonempty
  by_cases newline : character = '\n'
  · subst newline
    exact ⟨_, _, .newline⟩
  · cases opens : opening? (character :: others) with
    | none =>
        have plain := isPlainCode_of_opening? newline opens
        have nonempty : (character :: others).takeWhile isPlainCode ≠ [] := by
          simp [plain]
        have reads := Reads.code nonempty List.all_takeWhile
          (head?_dropWhile_all_not isPlainCode (character :: others))
        rw [List.takeWhile_append_dropWhile] at reads
        exact ⟨_, _, reads⟩
    | some found =>
        obtain ⟨mode, delimiter, behind⟩ := found
        have parts := opening?_eq_some opens
        rw [← parts]
        rcases opening?_cases opens with ⟨-, rfl⟩ | ⟨form, -, rfl, alone⟩
        · have inLine := newline_notMem_firstLine behind
          have whole : (behind.dropWhile (· != '\n')).head?.all (· = '\n') = true := by
            have stopped := head?_dropWhile_all_not (· != '\n') behind
            cases head : (behind.dropWhile (· != '\n')).head? <;> simp_all
          have reads := Reads.comment inLine whole
          rw [List.takeWhile_append_dropWhile] at reads
          exact ⟨_, _, reads⟩
        · exact ⟨_, _, .literal alone⟩

theorem nextLexeme?_eq_some_iff {source rest : Text} {lexeme : Lexeme} :
    nextLexeme? source = some (lexeme, rest) ↔ Reads source lexeme rest := by
  constructor
  · intro found
    have nonempty : source ≠ [] := by
      rintro rfl
      simp [nextLexeme?] at found
    obtain ⟨first, behind, reads⟩ := exists_reads nonempty
    rw [nextLexeme?_of_reads reads, Option.some.injEq, Prod.mk.injEq] at found
    obtain ⟨rfl, rfl⟩ := found
    exact reads
  · exact nextLexeme?_of_reads

theorem Reads.plain_of_code {source rest text : Text}
    (reads : Reads source (.code text) rest) : text.all isPlainCode = true := by
  cases reads with
  | code nonempty plain whole => exact plain

theorem head?_comment {text source rest : Text} (reads : Reads source (.comment text) rest) :
    text.head? = some '#' := by
  cases reads with
  | comment => rfl

theorem head?_literal {whole : Literal} {source rest : Text}
    (reads : Reads source (.literal whole) rest) :
    whole.text.head? = some whole.form.quote.character := by
  cases reads with
  | @literal form => cases form <;> rfl

theorem Reads.getLast?_literal {source rest : Text} {whole : Literal}
    (reads : Reads source (.literal whole) rest) (closed : whole.closed = true) :
    whole.text.getLast? = some whole.form.quote.character := by
  cases reads with
  | literal opens =>
      simp only at closed
      simp only [List.getLast?_append, getLast?_literalBody closed, Option.some_or]

/-- What is read first depends on the text alone. -/
theorem Reads.unique {source first second : Text} {lexeme other : Lexeme}
    (reads : Reads source lexeme first) (readsOther : Reads source other second) :
    lexeme = other ∧ first = second := by
  have same := (nextLexeme?_of_reads reads).symm.trans (nextLexeme?_of_reads readsOther)
  simpa using same

/-! ### What may stand behind a lexeme -/

/-- An empty string is no longer one in front of a third quote. -/
theorem LiteralForm.not_opensBefore_of_isEmptyString {form : LiteralForm} {text rest : Text}
    (empty : (⟨form, form.delimiter ++ text, true⟩ : Literal).isEmptyString = true)
    (next : rest.head? = some form.quote.character) :
    form.opensBefore (text ++ rest) = false := by
  obtain ⟨after, rfl⟩ := List.head?_eq_some_iff.1 next
  cases form with
  | docstring quote => simp [Literal.isEmptyString] at empty
  | string quote =>
      simp only [Literal.isEmptyString, delimiter, decide_eq_true_eq, List.cons_append,
        List.nil_append, List.cons.injEq, true_and] at empty
      simp [opensBefore, empty, LiteralForm.quote, List.isPrefixOf]

theorem Reads.canPrecede {source rest : Text} {lexeme : Lexeme}
    (reads : Reads source lexeme rest) : lexeme.canPrecede rest.head? = true := by
  cases reads with
  | code nonempty plain whole => exact whole
  | newline => rfl
  | comment inLine whole => exact whole
  | @literal form behind opens =>
      simp only [Lexeme.canPrecede]
      split
      · next closed =>
          rw [Bool.not_eq_true', Bool.and_eq_false_iff, decide_eq_false_iff_not]
          by_contra third
          rw [not_or, not_not, Bool.not_eq_false] at third
          rw [closed] at third
          have other := LiteralForm.not_opensBefore_of_isEmptyString third.1 third.2
          rw [literalBody_text_append_rest, opens] at other
          contradiction
      · next left =>
          rw [literalBody_rest_of_left (Bool.eq_false_iff.2 left)]
          rfl

/-- A closed literal is opened in the same way in front of any text, an empty
string in front of another quote apart. -/
theorem LiteralForm.opensBefore_append {form : LiteralForm} {text rest other : Text}
    (opens : form.opensBefore (text ++ rest) = true) (nonempty : text ≠ [])
    (apart : (⟨form, form.delimiter ++ text, true⟩ : Literal).isEmptyString = false ∨
      other.head? ≠ some form.quote.character) :
    form.opensBefore (text ++ other) = true := by
  cases form with
  | docstring quote => rfl
  | string quote =>
      match text with
      | [] => contradiction
      | [character] =>
          rcases apart with full | next
          · simp only [Literal.isEmptyString, delimiter, decide_eq_false_iff_not,
              List.cons_append, List.nil_append, List.cons.injEq, true_and, and_true] at full
            simp [opensBefore, List.isPrefixOf, Ne.symm full]
          · cases other with
            | nil => simp [opensBefore, List.isPrefixOf]
            | cons following others =>
                simp only [LiteralForm.quote, List.head?_cons, ne_eq,
                  Option.some.injEq] at next
                simp [opensBefore, List.isPrefixOf, Ne.symm next]
      | first :: second :: text =>
          simpa [opensBefore, List.isPrefixOf] using opens

/-- A lexeme is read in the same way in front of any text whose first character
may stand behind it. -/
theorem Reads.replaceRest {rest other : Text} {lexeme : Lexeme}
    (reads : Reads (lexeme.text ++ rest) lexeme rest)
    (next : lexeme.canPrecede other.head? = true) :
    Reads (lexeme.text ++ other) lexeme other := by
  generalize lexeme.text ++ rest = source at reads
  cases reads with
  | code nonempty plain whole => exact .code nonempty plain next
  | newline => exact .newline
  | comment inLine whole => exact .comment inLine next
  | @literal form behind opens =>
      simp only [Lexeme.text, List.append_assoc]
      simp only [Lexeme.canPrecede] at next
      split at next
      · next closed =>
          rw [closed, Bool.not_eq_true', Bool.and_eq_false_iff, decide_eq_false_iff_not] at next
          have again := literalBody_append closed other
          rw [← literalBody_text_append_rest form behind] at opens
          have reads := Reads.literal (form.opensBefore_append opens
            (literalBody_text_ne_nil closed) next)
          simpa only [again, closed] using reads
      · next left =>
          have whole := literalBody_of_left (Bool.eq_false_iff.2 left)
          rw [Option.isNone_iff_eq_none, List.head?_eq_none_iff] at next
          subst next
          rw [List.append_nil, whole]
          have reads := Reads.literal opens
          rwa [whole] at reads

end Bilingual

import Bilingual.Proofs.LiteralLines

/-!
# Kinds of characters

This file says what kind of text each character of a source belongs to, by an
automaton that goes through the source character by character.  It knows neither
spans nor positions.

The main statement is `labels_eq_append`: the automaton gives one kind to all that
the scanner reads in one go.
-/

namespace Bilingual

/-- A character with the kind of text that it belongs to, and whether a closing
delimiter ends with it. -/
structure LabelledCharacter where
  character : Char
  kind : SpanKind
  closes : Bool
  deriving DecidableEq, Repr

/-- A step of the automaton.  It takes the next character and `further` ones behind
it, which are of one kind, and goes over to a mode. -/
structure Transition where
  kind : SpanKind
  further : Nat
  closes : Bool
  mode : ScanMode
  deriving DecidableEq, Repr

/-- The step from a mode at a character in front of a text. -/
def ScanMode.transition (character : Char) (rest : Text) : ScanMode → Transition
  | .code =>
      match Quote.ofChar? character with
      | some quote =>
          if quote.triple.isPrefixOf (character :: rest) then
            ⟨.docstring, 2, false, .docstring quote⟩
          else ⟨.string, 0, false, .string quote⟩
      | none =>
          if character = '#' then ⟨.comment, 0, false, .comment⟩
          else if character = '\n' then ⟨.newline, 0, false, .code⟩
          else ⟨.code, 0, false, .code⟩
  | .comment =>
      if character = '\n' then ⟨.newline, 0, false, .code⟩
      else ⟨.comment, 0, false, .comment⟩
  | .string quote =>
      if character = '\n' then ⟨.newline, 0, false, .string quote⟩
      else if character = '\\' then
        -- A backslash at the end of a line or of the text escapes nothing.
        ⟨.string, if rest.head?.all (· = '\n') then 0 else 1, false, .string quote⟩
      else if character = quote.character then ⟨.string, 0, true, .code⟩
      else ⟨.string, 0, false, .string quote⟩
  | .docstring quote =>
      if quote.triple.isPrefixOf (character :: rest) then ⟨.docstring, 2, true, .code⟩
      else if character = '\n' then ⟨.newline, 0, false, .docstring quote⟩
      else ⟨.docstring, 0, false, .docstring quote⟩

/-- Characters of one kind, the last of which may end a closing delimiter. -/
def labelled (kind : SpanKind) (closes : Bool) : Text → List LabelledCharacter
  | [] => []
  | character :: rest =>
      ⟨character, kind, closes && rest.isEmpty⟩ :: labelled kind closes rest

/-- The characters of a text that is read in a mode, with their kinds. -/
def labels (mode : ScanMode) : Text → List LabelledCharacter
  | [] => []
  | character :: rest =>
      let step := mode.transition character rest
      labelled step.kind step.closes (character :: rest.take step.further) ++
        labels step.mode (rest.drop step.further)
termination_by text => text.length
decreasing_by simp only [List.length_drop, List.length_cons]; omega

@[simp] theorem labels_nil (mode : ScanMode) : labels mode [] = [] := by
  rw [labels]

theorem labels_cons (mode : ScanMode) (character : Char) (rest : Text) :
    labels mode (character :: rest) =
      labelled (mode.transition character rest).kind (mode.transition character rest).closes
          (character :: rest.take (mode.transition character rest).further) ++
        labels (mode.transition character rest).mode
          (rest.drop (mode.transition character rest).further) := by
  rw [labels]

@[simp] theorem map_character_labelled (kind : SpanKind) (closes : Bool) (text : Text) :
    (labelled kind closes text).map LabelledCharacter.character = text := by
  induction text with
  | nil => rfl
  | cons character rest induction => rw [labelled, List.map_cons, induction]

/-- Every character has its kind, in order. -/
theorem map_character_labels (mode : ScanMode) (text : Text) :
    (labels mode text).map LabelledCharacter.character = text := by
  fun_induction labels mode text with
  | case1 => rfl
  | case2 mode character rest step induction =>
      rw [List.map_append, map_character_labelled, induction, List.cons_append,
        List.take_append_drop]

/-- Characters that are read first never end a delimiter that ends behind them. -/
theorem labelled_append {kind : SpanKind} {closes : Bool} {first second : Text}
    (ends : closes = true → second ≠ []) :
    labelled kind closes (first ++ second) =
      labelled kind false first ++ labelled kind closes second := by
  induction first with
  | nil => rfl
  | cons character rest induction =>
      have inside : (closes && (rest ++ second).isEmpty) = false := by
        cases closes with
        | false => rfl
        | true => simp [ends rfl]
      rw [List.cons_append, labelled, induction, inside]
      rfl

/-! ### The kinds of what is read in one go -/

theorem labels_newline (mode : ScanMode) (rest : Text) :
    labels mode ('\n' :: rest) = ⟨'\n', .newline, false⟩ :: labels mode.afterNewline rest := by
  have noQuote : ∀ quote : Quote, quote.triple.isPrefixOf ('\n' :: rest) = false := by
    intro quote
    cases quote <;> rfl
  cases mode <;> rw [labels_cons] <;> simp [ScanMode.transition, noQuote] <;> rfl

/-- What opens in code is of one kind with what is read behind it. -/
theorem labels_opening {source delimiter rest : Text} {mode : ScanMode}
    (opens : opening? source = some (mode, delimiter, rest)) :
    labels .code source = labelled mode.spanKind false delimiter ++ labels mode rest := by
  cases source with
  | nil => simp [opening?] at opens
  | cons character behind =>
      have parts := opening?_eq_some opens
      simp only [opening?] at opens
      rw [labels_cons]
      split at opens
      · next hash =>
          obtain ⟨rfl, rfl, rfl⟩ := by simpa using opens
          subst hash
          rfl
      · split at opens
        · simp at opens
        · next quote found =>
            split at opens
            · next triple =>
                obtain ⟨rfl, rfl, rfl⟩ := by simpa using opens
                have delimited : character :: behind.take 2 = quote.triple := by
                  rw [← List.take_succ_cons, ← parts]
                  rfl
                simp only [ScanMode.transition, found, triple, if_true, delimited]
                rfl
            · next single =>
                obtain ⟨rfl, rfl, rfl⟩ := by simpa using opens
                simp only [ScanMode.transition, found, single]
                rfl

theorem labels_code_cons {character : Char} (plain : isPlainCode character = true)
    (rest : Text) :
    labels .code (character :: rest) =
      labelled .code false [character] ++ labels .code rest := by
  simp only [isPlainCode, Bool.and_eq_true, bne_iff_ne, Option.isNone_iff_eq_none] at plain
  rw [labels_cons]
  simp [ScanMode.transition, plain]

theorem labels_codeBody (source : Text) :
    labels .code source =
      labelled .code false (codeBody source).text ++ labels .code (codeBody source).rest := by
  induction source with
  | nil => simp [codeBody, labelled]
  | cons character rest induction =>
      cases plain : isPlainCode character with
      | false => simp [codeBody, plain, labelled]
      | true =>
          simp only [codeBody] at induction
          rw [codeBody, List.takeWhile_cons_of_pos plain, List.dropWhile_cons_of_pos plain,
            labels_code_cons plain, induction]
          rfl

theorem labels_commentBody (source : Text) :
    labels .comment source =
      labelled .comment false (commentBody source).text ++
        labels .comment (commentBody source).rest := by
  induction source with
  | nil => simp [commentBody, labelled]
  | cons character rest induction =>
      by_cases newline : character = '\n'
      · simp [commentBody, newline, labelled]
      · simp only [commentBody] at induction
        have first : labels .comment (character :: rest) =
            labelled .comment false [character] ++ labels .comment rest := by
          rw [labels_cons]
          simp [ScanMode.transition, newline]
        rw [first, induction]
        simp [commentBody, newline, labelled]

/-- The mode behind what was read in a mode. -/
def ScanMode.behind (mode : ScanMode) (body : SpanBody) : ScanMode :=
  if body.closed then .code else mode

/-- Characters that are read before the others of a body keep the kinds of these. -/
theorem labelled_prepend {kind : SpanKind} {before : Text} {body : SpanBody}
    (ends : body.closed = true → body.text ≠ []) :
    labelled kind (body.prepend before).closed (body.prepend before).text =
      labelled kind false before ++ labelled kind body.closed body.text :=
  labelled_append ends

theorem labels_stringBody (quote : Quote) (source : Text) :
    labels (.string quote) source =
      labelled .string (stringBody quote source).closed (stringBody quote source).text ++
        labels ((ScanMode.string quote).behind (stringBody quote source))
          (stringBody quote source).rest := by
  have closes : ∀ text, (stringBody quote text).closed = true →
      (stringBody quote text).text ≠ [] :=
    @ScanMode.body_text_ne_nil (.string quote)
  have other := quote.character_ne
  fun_induction stringBody quote source with
  | case1 => simp [labelled]
  | case2 => simp [labelled, ScanMode.behind]
  | case3 =>
      rw [labels_cons]
      simp [ScanMode.transition, labelled]
  | case4 rest =>
      rw [labels_cons]
      simp [ScanMode.transition, labelled, ScanMode.behind]
  | case5 escaped rest ordinary induction =>
      have step : labels (.string quote) ('\\' :: escaped :: rest) =
          labelled .string false ['\\', escaped] ++ labels (.string quote) rest := by
        rw [labels_cons]
        simp [ScanMode.transition, ordinary]
      rw [step, labelled_prepend (closes rest), induction, List.append_assoc]
      rfl
  | case6 rest =>
      rw [labels_cons]
      simp [ScanMode.transition, labelled, ScanMode.behind, other]
  | case7 character rest inLine lone escape open_ induction =>
      have plain := ne_backslash lone escape
      have ordinary : character ≠ '\n' := inLine
      have step : labels (.string quote) (character :: rest) =
          labelled .string false [character] ++ labels (.string quote) rest := by
        rw [labels_cons]
        simp [ScanMode.transition, ordinary, plain, open_]
      rw [step, labelled_prepend (closes rest), induction, List.append_assoc]
      rfl

theorem labels_docstringBody (quote : Quote) (source : Text) :
    labels (.docstring quote) source =
      labelled .docstring (docstringBody quote source).closed
          (docstringBody quote source).text ++
        labels ((ScanMode.docstring quote).behind (docstringBody quote source))
          (docstringBody quote source).rest := by
  have closes : ∀ text, (docstringBody quote text).closed = true →
      (docstringBody quote text).text ≠ [] :=
    @ScanMode.body_text_ne_nil (.docstring quote)
  fun_induction docstringBody quote source with
  | case1 => simp [labelled]
  | case2 character rest starts =>
      have delimited : character :: rest.take 2 = quote.triple := by
        rw [← List.take_succ_cons, ← triple_append_drop starts]
        rfl
      rw [labels_cons]
      simp [ScanMode.transition, starts, delimited, ScanMode.behind]
  | case3 rest starts => simp [labelled, ScanMode.behind]
  | case4 character rest starts newline induction =>
      have step : labels (.docstring quote) (character :: rest) =
          labelled .docstring false [character] ++ labels (.docstring quote) rest := by
        rw [labels_cons]
        simp [ScanMode.transition, starts, newline]
      rw [step, labelled_prepend (closes rest), induction, List.append_assoc]
      rfl

/-- All that is read in one go is of the kind of its mode. -/
theorem labels_eq_append (mode : ScanMode) (source : Text) :
    labels mode source =
      labelled mode.spanKind (mode.body source).closed (mode.body source).text ++
        labels (mode.behind (mode.body source)) (mode.body source).rest := by
  cases mode with
  | code => exact labels_codeBody source
  | string quote => exact labels_stringBody quote source
  | comment => exact labels_commentBody source
  | docstring quote => exact labels_docstringBody quote source

end Bilingual

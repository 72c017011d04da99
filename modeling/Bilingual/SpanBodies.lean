import Bilingual.Spans

/-!
# Where spans end

Source text is read from left to right in one of four modes.

* In code, three equal quotes open a docstring, one quote opens a string, and
  `#` opens a comment.
* A comment ends before the next newline.
* A string ends after the quote that opened it.  A backslash takes the next
  character with it unless that is a newline.
* A docstring ends after the three quotes that opened it.

This file splits a text into what belongs to the span of a given mode and what
follows it.  The main statements say that such a split loses nothing.
-/

namespace Bilingual

/-- The two characters that delimit literals. -/
inductive Quote
  | single
  | double
  deriving DecidableEq, Repr

namespace Quote

/-- The character that opens and closes a string. -/
def character : Quote → Char
  | .single => '\x27'
  | .double => '\x22'

/-- The three characters that open and close a docstring. -/
def triple (quote : Quote) : Text :=
  [quote.character, quote.character, quote.character]

/-- The quote that a character is, if it is one. -/
def ofChar? (candidate : Char) : Option Quote :=
  if candidate = Quote.single.character then some .single
  else if candidate = Quote.double.character then some .double
  else none

end Quote

/-- What the scanner is in the middle of. -/
inductive ScanMode
  | code
  | string (quote : Quote)
  | comment
  | docstring (quote : Quote)
  deriving DecidableEq, Repr

namespace ScanMode

/-- The kind of the spans that are read in a mode. -/
def spanKind : ScanMode → SpanKind
  | .code => .code
  | .string _ => .string
  | .comment => .comment
  | .docstring _ => .docstring

/-- The mode behind a newline: only a comment ends there. -/
def afterNewline : ScanMode → ScanMode
  | .comment => .code
  | mode => mode

end ScanMode

/-- The part of a text that belongs to the span being read.  The remaining text
starts with a newline or is empty unless a closing delimiter was met. -/
structure SpanBody where
  text : Text
  closed : Bool
  rest : Text
  deriving DecidableEq, Repr

/-- Puts characters that were read before in front of a body. -/
def SpanBody.prepend (before : Text) (body : SpanBody) : SpanBody :=
  { body with text := before ++ body.text }

/-- A character that neither ends a stretch of code nor opens something. -/
def isPlainCode (character : Char) : Bool :=
  character != '\n' && character != '#' && (Quote.ofChar? character).isNone

/-- Reads code up to a newline, a quote or a `#`. -/
def codeBody (source : Text) : SpanBody :=
  ⟨source.takeWhile isPlainCode, false, source.dropWhile isPlainCode⟩

/-- Reads a comment up to the end of the line. -/
def commentBody (source : Text) : SpanBody :=
  ⟨source.takeWhile (· != '\n'), false, source.dropWhile (· != '\n')⟩

/-- Reads a string up to its closing quote or the end of the line. -/
def stringBody (quote : Quote) : Text → SpanBody
  | [] => ⟨[], false, []⟩
  | '\n' :: rest => ⟨[], false, '\n' :: rest⟩
  | ['\\'] => ⟨['\\'], false, []⟩
  | '\\' :: escaped :: rest =>
      if escaped = '\n' then ⟨['\\'], false, escaped :: rest⟩
      else (stringBody quote rest).prepend ['\\', escaped]
  | character :: rest =>
      if character = quote.character then ⟨[character], true, rest⟩
      else (stringBody quote rest).prepend [character]

/-- Reads a docstring up to its closing quotes or the end of the line. -/
def docstringBody (quote : Quote) : Text → SpanBody
  | [] => ⟨[], false, []⟩
  | character :: rest =>
      if quote.triple.isPrefixOf (character :: rest) then
        ⟨quote.triple, true, rest.drop 2⟩
      else if character = '\n' then ⟨[], false, character :: rest⟩
      else (docstringBody quote rest).prepend [character]

/-- Reads the rest of a span in a given mode. -/
def ScanMode.body : ScanMode → Text → SpanBody
  | .code => codeBody
  | .string quote => stringBody quote
  | .comment => commentBody
  | .docstring quote => docstringBody quote

/-- What opens at the start of a text that is read as code: the new mode, the
opening delimiter, and the text behind it. -/
def opening? : Text → Option (ScanMode × Text × Text)
  | [] => none
  | character :: rest =>
      if character = '#' then some (.comment, ['#'], rest)
      else
        match Quote.ofChar? character with
        | none => none
        | some quote =>
            if quote.triple.isPrefixOf (character :: rest) then
              some (.docstring quote, quote.triple, rest.drop 2)
            else
              some (.string quote, [character], rest)

/-! ### Reading loses nothing -/

@[simp] theorem codeBody_text_append_rest (source : Text) :
    (codeBody source).text ++ (codeBody source).rest = source := by
  simp [codeBody]

@[simp] theorem commentBody_text_append_rest (source : Text) :
    (commentBody source).text ++ (commentBody source).rest = source := by
  simp [commentBody]

@[simp] theorem stringBody_text_append_rest (quote : Quote) (source : Text) :
    (stringBody quote source).text ++ (stringBody quote source).rest = source := by
  fun_induction stringBody quote source <;> simp_all [SpanBody.prepend]

/-- A text that starts with three given quotes is those quotes and the text two
characters behind its head. -/
theorem triple_append_drop {quote : Quote} {character : Char} {rest : Text}
    (starts : quote.triple.isPrefixOf (character :: rest) = true) :
    quote.triple ++ rest.drop 2 = character :: rest := by
  obtain ⟨after, split⟩ := List.isPrefixOf_iff_prefix.1 starts
  rw [← split]
  simp only [Quote.triple, List.cons_append, List.nil_append, List.cons.injEq] at split ⊢
  simp [← split.2]

@[simp] theorem docstringBody_text_append_rest (quote : Quote) (source : Text) :
    (docstringBody quote source).text ++ (docstringBody quote source).rest = source := by
  fun_induction docstringBody quote source with
  | case1 => rfl
  | case2 character rest starts => exact triple_append_drop starts
  | case3 => rfl
  | case4 character rest starts newline induction =>
      simpa [SpanBody.prepend] using induction

theorem ScanMode.body_text_append_rest (mode : ScanMode) (source : Text) :
    (mode.body source).text ++ (mode.body source).rest = source := by
  cases mode <;> simp [ScanMode.body]

theorem opening?_eq_some {source delimiter rest : Text} {mode : ScanMode}
    (opens : opening? source = some (mode, delimiter, rest)) :
    delimiter ++ rest = source := by
  cases source with
  | nil => simp [opening?] at opens
  | cons character after =>
      simp only [opening?] at opens
      split at opens
      · next hash =>
          simp only [Option.some.injEq, Prod.mk.injEq] at opens
          obtain ⟨_, rfl, rfl⟩ := opens
          simp [hash]
      · split at opens
        · simp at opens
        · split at opens <;>
            (simp only [Option.some.injEq, Prod.mk.injEq] at opens
             obtain ⟨_, rfl, rfl⟩ := opens)
          · exact triple_append_drop (by assumption)
          · rfl

/-- A literal closes with its delimiter, so its last part is not empty. -/
theorem ScanMode.body_text_ne_nil {mode : ScanMode} {source : Text}
    (closed : (mode.body source).closed = true) : (mode.body source).text ≠ [] := by
  cases mode with
  | code => simp [ScanMode.body, codeBody] at closed
  | comment => simp [ScanMode.body, commentBody] at closed
  | string quote =>
      simp only [ScanMode.body] at closed ⊢
      revert closed
      fun_cases stringBody quote source <;> simp [SpanBody.prepend]
  | docstring quote =>
      simp only [ScanMode.body] at closed ⊢
      revert closed
      fun_cases docstringBody quote source <;> simp [SpanBody.prepend, Quote.triple]

end Bilingual

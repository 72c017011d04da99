import Bilingual.SpanBodies

/-!
# Lines of literals

The scanner reads a literal line by line.  This file says what the reading of a
line depends on: a line that closes the literal is read in the same way in front
of any text, and a line that leaves it open in the same way in front of any
newline.
-/

namespace Bilingual

/-- The two forms of literals. -/
inductive LiteralForm
  | string (quote : Quote)
  | docstring (quote : Quote)
  deriving DecidableEq, Repr

namespace LiteralForm

/-- The quote of which the delimiters are made. -/
def quote : LiteralForm → Quote
  | .string quote => quote
  | .docstring quote => quote

/-- The mode in which a literal is read. -/
def mode : LiteralForm → ScanMode
  | .string quote => .string quote
  | .docstring quote => .docstring quote

/-- What opens and closes a literal. -/
def delimiter : LiteralForm → Text
  | .string quote => [quote.character]
  | .docstring quote => quote.triple

/-- The delimiter opens a literal of this form in front of a text, and not one
of the other form. -/
def opensBefore : LiteralForm → Text → Bool
  | .string quote, behind => !List.isPrefixOf [quote.character, quote.character] behind
  | .docstring _, _ => true

end LiteralForm

/-! ### One line of a literal -/

theorem stringBody_escape {quote : Quote} {escaped : Char} {rest : Text}
    (ordinary : escaped ≠ '\n') :
    stringBody quote ('\\' :: escaped :: rest) =
      (stringBody quote rest).prepend ['\\', escaped] := by
  simp [stringBody, ordinary]

theorem stringBody_cons {quote : Quote} {character : Char} {rest : Text}
    (inLine : character ≠ '\n') (plain : character ≠ '\\') :
    stringBody quote (character :: rest) =
      if character = quote.character then ⟨[character], true, rest⟩
      else (stringBody quote rest).prepend [character] := by
  rw [stringBody]
  · exact inLine
  · intro backslash _
    exact plain backslash
  · intro _ _ backslash _
    exact plain backslash

/-- A character that neither ends a text as a backslash nor escapes another one is no
backslash. -/
theorem ne_backslash {character : Char} {rest : Text}
    (lone : character = '\\' → rest = [] → False)
    (escape : ∀ escaped others, character = '\\' → rest = escaped :: others → False) :
    character ≠ '\\' := by
  rintro rfl
  cases rest with
  | nil => exact lone rfl rfl
  | cons escaped others => exact escape escaped others rfl rfl

theorem Quote.character_ne (quote : Quote) :
    quote.character ≠ '\n' ∧ quote.character ≠ '\\' := by
  cases quote <;> decide

/-- A string that was closed is read in the same way in front of any text. -/
theorem stringBody_append {quote : Quote} {source : Text}
    (closed : (stringBody quote source).closed = true) (behind : Text) :
    stringBody quote ((stringBody quote source).text ++ behind) =
      ⟨(stringBody quote source).text, true, behind⟩ := by
  fun_induction stringBody quote source with
  | case1 => simp at closed
  | case2 => simp at closed
  | case3 => simp at closed
  | case4 => simp at closed
  | case5 escaped rest ordinary induction =>
      simp only [SpanBody.prepend, List.cons_append, List.nil_append] at closed ⊢
      rw [stringBody_escape ordinary, induction closed]
      rfl
  | case6 rest _ _ _ =>
      rw [List.singleton_append,
        stringBody_cons quote.character_ne.1 quote.character_ne.2, if_pos rfl]
  | case7 character rest inLine lone escape open_ induction =>
      have plain := ne_backslash lone escape
      simp only [SpanBody.prepend, List.cons_append, List.nil_append] at closed ⊢
      rw [stringBody_cons inLine plain, if_neg open_, induction closed]
      rfl

/-- Three quotes that start a text lie in any part of it that is long enough or
that ends with another character. -/
theorem triple_prefix_of_append {quote : Quote} {text behind : Text}
    (starts : quote.triple.isPrefixOf (text ++ behind) = true)
    (apart : 3 ≤ text.length ∨ behind.head? = some '\n') :
    quote.triple.isPrefixOf text = true := by
  have other := quote.character_ne.1
  match text with
  | [] | [_] | [_, _] =>
      rcases apart with long | newline
      · simp at long
      · obtain ⟨rest, rfl⟩ := List.head?_eq_some_iff.1 newline
        simp_all [Quote.triple, List.isPrefixOf]
  | first :: second :: third :: rest =>
      simpa [Quote.triple, List.isPrefixOf] using starts

theorem triple_prefix_append {quote : Quote} {text behind : Text}
    (starts : quote.triple.isPrefixOf text = true) :
    quote.triple.isPrefixOf (text ++ behind) = true := by
  rw [List.isPrefixOf_iff_prefix] at starts ⊢
  exact starts.trans (List.prefix_append text behind)

theorem three_le_length_docstringBody {quote : Quote} {source : Text}
    (closed : (docstringBody quote source).closed = true) :
    3 ≤ (docstringBody quote source).text.length := by
  fun_induction docstringBody quote source with
  | case1 => simp at closed
  | case2 => simp [Quote.triple]
  | case3 => simp at closed
  | case4 character rest starts newline induction =>
      have long := induction closed
      simp only [SpanBody.prepend, List.length_append]
      omega

theorem docstringBody_append {quote : Quote} {source : Text}
    (closed : (docstringBody quote source).closed = true) (behind : Text) :
    docstringBody quote ((docstringBody quote source).text ++ behind) =
      ⟨(docstringBody quote source).text, true, behind⟩ := by
  fun_induction docstringBody quote source with
  | case1 => simp at closed
  | case2 => simp [docstringBody, Quote.triple, List.isPrefixOf]
  | case3 => simp at closed
  | case4 character rest starts newline induction =>
      have long := three_le_length_docstringBody closed
      have parts := docstringBody_text_append_rest quote rest
      simp only [SpanBody.prepend, List.cons_append, List.nil_append] at closed ⊢
      rw [docstringBody, if_neg, if_neg newline, induction closed]
      · rfl
      · intro early
        apply starts
        rw [← parts, ← List.cons_append]
        apply triple_prefix_append
        apply triple_prefix_of_append early
        left
        rw [List.length_cons]
        omega

/-- A string that is left open goes on behind a newline. -/
theorem stringBody_append_newline {quote : Quote} {source : Text}
    (left : (stringBody quote source).closed = false) (behind : Text) :
    stringBody quote ((stringBody quote source).text ++ '\n' :: behind) =
      ⟨(stringBody quote source).text, false, '\n' :: behind⟩ := by
  fun_induction stringBody quote source with
  | case1 => simp [stringBody]
  | case2 => simp [stringBody]
  | case3 => simp [stringBody]
  | case4 => simp [stringBody]
  | case5 escaped rest ordinary induction =>
      simp only [SpanBody.prepend, List.cons_append, List.nil_append] at left ⊢
      rw [stringBody_escape ordinary, induction left]
      rfl
  | case6 => simp at left
  | case7 character rest inLine lone escape open_ induction =>
      have plain := ne_backslash lone escape
      simp only [SpanBody.prepend, List.cons_append, List.nil_append] at left ⊢
      rw [stringBody_cons inLine plain, if_neg open_, induction left]
      rfl

theorem docstringBody_append_newline {quote : Quote} {source : Text}
    (left : (docstringBody quote source).closed = false) (behind : Text) :
    docstringBody quote ((docstringBody quote source).text ++ '\n' :: behind) =
      ⟨(docstringBody quote source).text, false, '\n' :: behind⟩ := by
  have other := quote.character_ne.1
  fun_induction docstringBody quote source with
  | case1 => simp [docstringBody, Quote.triple, List.isPrefixOf, other]
  | case2 => simp at left
  | case3 => simp [docstringBody, Quote.triple, List.isPrefixOf, other]
  | case4 character rest starts newline induction =>
      have parts := docstringBody_text_append_rest quote rest
      simp only [SpanBody.prepend, List.cons_append, List.nil_append] at left ⊢
      rw [docstringBody, if_neg, if_neg newline, induction left]
      · rfl
      · intro early
        apply starts
        rw [← parts, ← List.cons_append]
        exact triple_prefix_append (triple_prefix_of_append early (.inr rfl))

/-- What is left open was read up to a newline or to the end. -/
theorem stringBody_rest {quote : Quote} {source : Text}
    (left : (stringBody quote source).closed = false) :
    (stringBody quote source).rest = [] ∨
      (stringBody quote source).rest.head? = some '\n' := by
  fun_induction stringBody quote source with
  | case1 => exact .inl rfl
  | case2 => exact .inr rfl
  | case3 => exact .inl rfl
  | case4 => exact .inr rfl
  | case5 escaped rest ordinary induction => exact induction left
  | case6 => simp at left
  | case7 character rest _ _ _ _ induction => exact induction left

theorem docstringBody_rest {quote : Quote} {source : Text}
    (left : (docstringBody quote source).closed = false) :
    (docstringBody quote source).rest = [] ∨
      (docstringBody quote source).rest.head? = some '\n' := by
  fun_induction docstringBody quote source with
  | case1 => exact .inl rfl
  | case2 => simp at left
  | case3 => exact .inr rfl
  | case4 character rest _ _ induction => exact induction left

theorem newline_notMem_stringBody (quote : Quote) (source : Text) :
    '\n' ∉ (stringBody quote source).text := by
  have other := quote.character_ne.1
  fun_induction stringBody quote source <;>
    simp_all [SpanBody.prepend, eq_comm]

theorem newline_notMem_docstringBody (quote : Quote) (source : Text) :
    '\n' ∉ (docstringBody quote source).text := by
  have other := quote.character_ne.1.symm
  fun_induction docstringBody quote source with
  | case1 => simp
  | case2 => simp [Quote.triple, other]
  | case3 => simp
  | case4 character rest _ newline induction =>
      simp [SpanBody.prepend, Ne.symm newline, induction]

theorem getLast?_stringBody {quote : Quote} {source : Text}
    (closed : (stringBody quote source).closed = true) :
    (stringBody quote source).text.getLast? = some quote.character := by
  fun_induction stringBody quote source with
  | case1 => simp at closed
  | case2 => simp at closed
  | case3 => simp at closed
  | case4 => simp at closed
  | case5 escaped rest ordinary induction =>
      simp only [SpanBody.prepend, List.getLast?_append, induction closed, Option.some_or]
  | case6 => rfl
  | case7 character rest _ _ _ _ induction =>
      simp only [SpanBody.prepend, List.getLast?_append, induction closed, Option.some_or]

theorem getLast?_docstringBody {quote : Quote} {source : Text}
    (closed : (docstringBody quote source).closed = true) :
    (docstringBody quote source).text.getLast? = some quote.character := by
  fun_induction docstringBody quote source with
  | case1 => simp at closed
  | case2 => rfl
  | case3 => simp at closed
  | case4 character rest _ _ induction =>
      simp only [SpanBody.prepend, List.getLast?_append, induction closed, Option.some_or]

namespace LiteralForm

theorem body_append {form : LiteralForm} {source : Text}
    (closed : (form.mode.body source).closed = true) (behind : Text) :
    form.mode.body ((form.mode.body source).text ++ behind) =
      ⟨(form.mode.body source).text, true, behind⟩ := by
  cases form with
  | string quote => exact stringBody_append closed behind
  | docstring quote => exact docstringBody_append closed behind

theorem body_append_newline {form : LiteralForm} {source : Text}
    (left : (form.mode.body source).closed = false) (behind : Text) :
    form.mode.body ((form.mode.body source).text ++ '\n' :: behind) =
      ⟨(form.mode.body source).text, false, '\n' :: behind⟩ := by
  cases form with
  | string quote => exact stringBody_append_newline left behind
  | docstring quote => exact docstringBody_append_newline left behind

theorem body_rest {form : LiteralForm} {source : Text}
    (left : (form.mode.body source).closed = false) :
    (form.mode.body source).rest = [] ∨
      (form.mode.body source).rest.head? = some '\n' := by
  cases form with
  | string quote => exact stringBody_rest left
  | docstring quote => exact docstringBody_rest left

theorem getLast?_body {form : LiteralForm} {source : Text}
    (closed : (form.mode.body source).closed = true) :
    (form.mode.body source).text.getLast? = some form.quote.character := by
  cases form with
  | string quote => exact getLast?_stringBody closed
  | docstring quote => exact getLast?_docstringBody closed

theorem newline_notMem_body (form : LiteralForm) (source : Text) :
    '\n' ∉ (form.mode.body source).text := by
  cases form with
  | string quote => exact newline_notMem_stringBody quote source
  | docstring quote => exact newline_notMem_docstringBody quote source

theorem newline_notMem_delimiter (form : LiteralForm) : '\n' ∉ form.delimiter := by
  cases form with
  | string quote => simpa [delimiter] using quote.character_ne.1.symm
  | docstring quote => simpa [delimiter, Quote.triple] using quote.character_ne.1.symm

theorem delimiter_ne_nil (form : LiteralForm) : form.delimiter ≠ [] := by
  cases form <;> simp [delimiter, Quote.triple]

theorem mode_ne_code (form : LiteralForm) : form.mode ≠ .code := by
  cases form <;> simp [mode]

end LiteralForm

end Bilingual

import Bilingual.Proofs.CodeSpans
import Bilingual.Proofs.LongestTokens
import Bilingual.Proofs.VisibleTokens

/-!
# The two lexers of code

Keyword substitution and the formatter each cut code into tokens of their own.  The tokens
of keyword substitution cut those of the formatter further, and white space is the same to
both.  So the formatter never cuts a word in two, nor does it glue two together that were
apart.  The main statement is `lexersAgree_iff`.
-/

namespace Bilingual

variable {Kind Other : Type}

/-! ### Tokens at their places -/

theorem locatedFrom_append (start : Nat) (first second : List (Token Kind)) :
    locatedFrom start (first ++ second) = locatedFrom start first ++
      locatedFrom (start + Text.byteLength (first.flatMap Token.text)) second := by
  induction first generalizing start with
  | nil => rfl
  | cons token others induction =>
      rw [List.cons_append, locatedFrom, locatedFrom, induction, List.flatMap_cons,
        Text.byteLength_append, Nat.add_assoc]
      rfl

/-- A token stands behind the texts of the tokens in front of it. -/
theorem mem_locatedFrom {start position : Nat} {token : Token Kind} {list : List (Token Kind)}
    (member : (position, token) ∈ locatedFrom start list) :
    ∃ before after, list = before ++ token :: after ∧
      position = start + Text.byteLength (before.flatMap Token.text) := by
  induction list generalizing start with
  | nil => contradiction
  | cons first others induction =>
      rw [locatedFrom, List.mem_cons, Prod.mk.injEq] at member
      rcases member with ⟨rfl, rfl⟩ | later
      · exact ⟨[], others, rfl, rfl⟩
      · obtain ⟨before, after, rfl, rfl⟩ := induction later
        refine ⟨first :: before, after, rfl, ?_⟩
        rw [List.flatMap_cons, Text.byteLength_append, Nat.add_assoc]

/-- The positions at which one token ends and another one starts. -/
def seams (list : List (Token Kind)) : List Nat :=
  (locatedFrom 0 list).tail.map Prod.fst

/-- The second token is a part of the first one. -/
def Encloses (outer : Nat × Token Kind) (inner : Nat × Token Other) : Prop :=
  ∃ before after, before ++ (inner.2.text ++ after) = outer.2.text ∧
    inner.1 = outer.1 + Text.byteLength before

section Cut

variable {cut : Token Kind → List (Token Other)} {list : List (Token Kind)}
  (whole : ∀ token ∈ list, (cut token).flatMap Token.text = token.text)

include whole

/-- Tokens that are cut further stay at their places. -/
theorem locatedFrom_flatMap (start : Nat) :
    locatedFrom start (list.flatMap cut) =
      (locatedFrom start list).flatMap fun located => locatedFrom located.1 (cut located.2) := by
  induction list generalizing start with
  | nil => rfl
  | cons token others induction =>
      obtain ⟨first, rest⟩ := List.forall_mem_cons.1 whole
      rw [List.flatMap_cons, locatedFrom_append, first, induction rest, locatedFrom,
        List.flatMap_cons]

theorem fst_locatedFrom_subset (nonempty : ∀ token ∈ list, cut token ≠ []) (start : Nat) :
    (locatedFrom start list).map Prod.fst ⊆
      (locatedFrom start (list.flatMap cut)).map Prod.fst := by
  intro position member
  obtain ⟨⟨_, token⟩, located, rfl⟩ := List.mem_map.1 member
  obtain ⟨before, after, rfl, -⟩ := mem_locatedFrom located
  obtain ⟨first, others, shape⟩ := List.exists_cons_of_ne_nil (nonempty token (by simp))
  rw [locatedFrom_flatMap whole]
  refine List.mem_map.2 ⟨(_, first), List.mem_flatMap.2 ⟨_, located, ?_⟩, rfl⟩
  simp [shape, locatedFrom]

theorem seams_subset (nonempty : ∀ token ∈ list, cut token ≠ []) :
    seams list ⊆ seams (list.flatMap cut) := by
  cases list with
  | nil => exact List.nil_subset _
  | cons token others =>
      obtain ⟨first, rest⟩ := List.forall_mem_cons.1 whole
      obtain ⟨some, more⟩ := List.forall_mem_cons.1 nonempty
      obtain ⟨part, parts, shape⟩ := List.exists_cons_of_ne_nil some
      have length : 0 + Text.byteLength token.text = 0 + Text.byteLength part.text +
          Text.byteLength (parts.flatMap Token.text) := by
        rw [← first, shape, List.flatMap_cons, Text.byteLength_append, Nat.add_assoc]
      have inner := fst_locatedFrom_subset rest more (0 + Text.byteLength token.text)
      rw [seams, seams, List.flatMap_cons, shape, List.cons_append, locatedFrom, locatedFrom,
        List.tail_cons, List.tail_cons, locatedFrom_append, List.map_append, ← length]
      exact List.Subset.trans inner (List.subset_append_right _ _)

end Cut

/-! ### Agreement -/

/-- Both lexers cut code into the longest tokens of their kinds.  The same parts of it are
white space to both, each word is part of a single word of the formatter, and where the
formatter cuts, keyword substitution cuts as well. -/
structure LexersAgree (code : Text) : Prop where
  wordTokens : CutsLongest Token.IsOrdinary code (wordTokens code)
  lineTokens : CutsLongest IsLineToken code (lineTokens code)
  whiteSpace : ∀ position text,
    (position, ⟨.whiteSpace, text⟩) ∈ locatedFrom 0 (Bilingual.wordTokens code) ↔
      (position, ⟨.whiteSpace, text⟩) ∈ locatedFrom 0 (Bilingual.lineTokens code)
  words : ∀ inner ∈ locatedFrom 0 (Bilingual.wordTokens code), inner.2.kind = .word →
    ∃ outer ∈ locatedFrom 0 (Bilingual.lineTokens code),
      outer.2.kind = .word ∧ Encloses outer inner
  seams : seams (Bilingual.lineTokens code) ⊆ seams (Bilingual.wordTokens code)

/-- No quote and no `#` stands in the text. -/
def IsUnquoted (text : Text) : Prop :=
  ∀ character ∈ text, character ≠ '#' ∧ character ≠ '\x27' ∧ character ≠ '\x22'

instance (text : Text) : Decidable (IsUnquoted text) :=
  inferInstanceAs (Decidable (∀ character ∈ text, _))

variable {code : Text}

theorem ofChar_eq_stray_iff {character : Char} :
    WordTokenKind.ofChar character = .stray ↔
      character = '#' ∨ character = '\x27' ∨ character = '\x22' := by
  constructor
  · intro stray
    unfold WordTokenKind.ofChar at stray
    split at stray
    · contradiction
    · split at stray
      · contradiction
      · split at stray
        · next sign => simpa [or_assoc] using sign
        · contradiction
  · rintro (rfl | rfl | rfl) <;> decide

theorem kind_ne_stray_iff :
    (∀ token ∈ wordTokens code, token.kind ≠ .stray) ↔ IsUnquoted code := by
  simp only [IsUnquoted, ← not_or, ← ofChar_eq_stray_iff]
  constructor
  · intro ordinary character member stray
    rw [← flatMap_text_wordTokens code] at member
    obtain ⟨token, known, inside⟩ := List.mem_flatMap.1 member
    refine ordinary token known ?_
    rw [← (isWordToken_of_mem_wordTokens known).1.2 character inside, stray]
  · intro unquoted token member stray
    obtain ⟨character, inside, kind⟩ := exists_mem_of_mem_wordTokens member
    exact unquoted character inside (kind.trans stray)

theorem wordTokens_of_blank {blank : Text} (nonempty : blank ≠ [])
    (space : ∀ character ∈ blank, isWhiteSpace character = true) :
    wordTokens blank = [⟨.whiteSpace, blank⟩] := by
  have cut : wordTokens (blank ++ []) = _ := wordTokens_run nonempty space rfl
  have none : wordTokens [] = [] := tokens_nil wordMunch
  rwa [List.append_nil, none] at cut

theorem locatedFrom_wordTokens (code : Text) :
    locatedFrom 0 (wordTokens code) = (locatedFrom 0 (lineTokens code)).flatMap
      fun located => locatedFrom located.1 (wordTokens located.2.text) := by
  conv_lhs => rw [wordTokens_eq_flatMap]
  exact locatedFrom_flatMap (fun token _ => flatMap_text_wordTokens token.text) 0

theorem isLineToken_of_mem_locatedFrom {located : Nat × Token LineTokenKind}
    (member : located ∈ locatedFrom 0 (lineTokens code)) : IsLineToken located.2 := by
  obtain ⟨before, after, shape, -⟩ := mem_locatedFrom member
  exact isLineToken_of_mem_lineTokens (by rw [shape]; simp)

/-- White space is a token of its own to both lexers. -/
theorem mem_locatedFrom_whiteSpace_iff (position : Nat) (text : Text) :
    (position, ⟨.whiteSpace, text⟩) ∈ locatedFrom 0 (wordTokens code) ↔
      (position, ⟨.whiteSpace, text⟩) ∈ locatedFrom 0 (lineTokens code) := by
  rw [locatedFrom_wordTokens, List.mem_flatMap]
  constructor
  · rintro ⟨⟨start, outer⟩, located, member⟩
    have valid := isLineToken_of_mem_locatedFrom located
    by_cases space : outer.kind = .whiteSpace
    · rw [wordTokens_of_blank valid.text_ne_nil (valid.blank space)] at member
      obtain ⟨rfl, rfl⟩ : position = start ∧ text = outer.text := by
        simpa [locatedFrom] using member
      rwa [← space]
    · obtain ⟨before, after, shape, -⟩ := mem_locatedFrom member
      have known : ⟨.whiteSpace, text⟩ ∈ wordTokens outer.text := by simp [shape]
      exact absurd rfl (valid.kind_ne_whiteSpace space _ known)
  · intro located
    have valid := isLineToken_of_mem_locatedFrom located
    refine ⟨_, located, ?_⟩
    rw [wordTokens_of_blank valid.text_ne_nil (valid.blank rfl)]
    exact List.mem_singleton_self _

/-- A word is part of a word of the formatter. -/
theorem exists_encloses_of_word {inner : Nat × Token WordTokenKind}
    (member : inner ∈ locatedFrom 0 (wordTokens code)) (word : inner.2.kind = .word) :
    ∃ outer ∈ locatedFrom 0 (lineTokens code), outer.2.kind = .word ∧ Encloses outer inner := by
  rw [locatedFrom_wordTokens, List.mem_flatMap] at member
  obtain ⟨outer, located, member⟩ := member
  have valid := isLineToken_of_mem_locatedFrom located
  obtain ⟨before, after, shape, position⟩ := mem_locatedFrom member
  have known : inner.2 ∈ wordTokens outer.2.text := by simp [shape]
  refine ⟨outer, located, ?_, before.flatMap Token.text, after.flatMap Token.text, ?_, position⟩
  · obtain ⟨character, inside, kind⟩ := exists_mem_of_mem_wordTokens known
    exact valid.kind_eq_word inside (by simp [isWordCharacter, kind, word])
  · have whole := flatMap_text_wordTokens outer.2.text
    rw [← whole, shape, List.flatMap_append, List.flatMap_cons]

theorem seams_lineTokens_subset (code : Text) :
    seams (lineTokens code) ⊆ seams (wordTokens code) := by
  rw [wordTokens_eq_flatMap code]
  refine seams_subset (fun token _ => flatMap_text_wordTokens token.text) fun token member => ?_
  intro empty
  have whole := flatMap_text_wordTokens token.text
  rw [empty] at whole
  exact (isLineToken_of_mem_lineTokens member).text_ne_nil whole.symm

theorem lexersAgree_of_isUnquoted (unquoted : IsUnquoted code) : LexersAgree code where
  wordTokens := cutsLongest_wordTokens (kind_ne_stray_iff.2 unquoted)
  lineTokens := cutsLongest_lineTokens code
  whiteSpace := mem_locatedFrom_whiteSpace_iff
  words := fun _ => exists_encloses_of_word
  seams := seams_lineTokens_subset code

theorem isUnquoted_of_mem_scan {source : Text} {span : Span} (member : span ∈ scan source)
    (code : span.kind = .code) : IsUnquoted span.text := by
  have text : span.text ∈ codeTexts (scan source) :=
    List.mem_map.2 ⟨span, List.mem_filter.2 ⟨member, by simpa using code⟩, rfl⟩
  rw [scan_eq_spansFrom, codeTexts_spansFrom] at text
  obtain ⟨lexeme, known, same⟩ := List.mem_filterMap.1 text
  obtain ⟨before, after, shape⟩ := List.append_of_mem known
  have legible := legible_lexemes source
  rw [shape] at legible
  cases lexeme with
  | code text =>
      obtain rfl : text = span.text := Option.some.inj same
      have plain := legible.of_append_right.1.plain_of_code
      intro character inside
      have plain := List.all_eq_true.1 plain character inside
      refine ⟨?_, ?_, ?_⟩ <;>
      · rintro rfl
        contradiction
  | _ => contradiction

/-- The two lexers agree on exactly the texts without quotes and `#`, and on all code of a
source. -/
theorem lexersAgree_iff :
    (∀ code, LexersAgree code ↔ IsUnquoted code) ∧
      ∀ source, ∀ span ∈ scan source, span.kind = .code → LexersAgree span.text := by
  refine ⟨fun code => ⟨fun agree => ?_, lexersAgree_of_isUnquoted⟩, ?_⟩
  · exact kind_ne_stray_iff.1 fun token member => (agree.wordTokens.valid token member).2
  · intro source span member code
    exact lexersAgree_of_isUnquoted (isUnquoted_of_mem_scan member code)

end Bilingual

import Bilingual.Proofs.ScanEnds

/-!
# Scans that differ in their literals

Two scans can be alike except for what their literals say.  A literal with newlines in it
is given out in several spans, so this file first puts the spans together again: neighbours
belong to one literal when one of them is a newline inside it.  The main statement is
`forall₂_alike_iff`: where all literals are closed, scans are alike exactly when the lexemes
are.
-/

namespace Bilingual

/-- What a span says, wherever it stands, and whether its literal goes on behind it. -/
structure Fragment where
  kind : SpanKind
  text : Text
  goesOn : Bool
  deriving DecidableEq, Repr

namespace Fragment

/-- What is left of a span without its position. -/
def ofMark (mark : Span × Bool) : Fragment :=
  ⟨mark.1.kind, mark.1.text, mark.2⟩

/-- The fragment is a newline inside a literal. -/
def isInnerNewline (fragment : Fragment) : Bool :=
  fragment.kind = .newline && fragment.goesOn

/-- Neighbours belong to one literal. -/
def Joins (first second : Fragment) : Prop :=
  first.isInnerNewline = true ∨ second.isInnerNewline = true

theorem isInnerNewline_of_ne {fragment : Fragment} (other : fragment.kind ≠ .newline) :
    fragment.isInnerNewline = false := by
  simp [isInnerNewline, other]

theorem not_joins {first second : Fragment} (noNewline : first.isInnerNewline = false)
    (noNewlineToo : second.isInnerNewline = false) : ¬first.Joins second := by
  simp [Joins, noNewline, noNewlineToo]

/-- The fragments differ in nothing but what a literal says. -/
structure Alike (first second : Fragment) : Prop where
  kind : first.kind = second.kind
  text : first.kind.isLiteral = false → first.text = second.text
  goesOn : first.kind = .newline → first.goesOn = second.goesOn

theorem Alike.refl (fragment : Fragment) : fragment.Alike fragment :=
  ⟨rfl, fun _ => rfl, fun _ => rfl⟩

theorem Alike.isInnerNewline {first second : Fragment} (alike : first.Alike second) :
    first.isInnerNewline = second.isInnerNewline := by
  rw [Fragment.isInnerNewline, Fragment.isInnerNewline, ← alike.kind]
  by_cases newline : first.kind = .newline
  · rw [alike.goesOn newline]
  · simp [newline]

theorem Alike.joins_iff {first second next other : Fragment} (alike : first.Alike second)
    (alikeNext : next.Alike other) : first.Joins next ↔ second.Joins other := by
  rw [Joins, Joins, alike.isInnerNewline, alikeNext.isInnerNewline]

/-- Alike fragments fall into alike groups. -/
theorem forall₂_of_append {group other rest others : List Fragment}
    (chain : group.IsChain Joins) (chainOther : other.IsChain Joins) (nonempty : group ≠ [])
    (nonemptyOther : other ≠ [])
    (ends : ∀ last ∈ group.getLast?, ∀ next ∈ rest.head?, ¬last.Joins next)
    (endsOther : ∀ last ∈ other.getLast?, ∀ next ∈ others.head?, ¬last.Joins next)
    (alike : List.Forall₂ Alike (group ++ rest) (other ++ others)) :
    List.Forall₂ Alike group other ∧ List.Forall₂ Alike rest others := by
  induction group generalizing other with
  | nil => contradiction
  | cons first group induction =>
      obtain ⟨second, other, rfl⟩ := List.exists_cons_of_ne_nil nonemptyOther
      rw [List.cons_append, List.cons_append, List.forall₂_cons] at alike
      obtain ⟨firstAlike, alike⟩ := alike
      match group, other with
      | [], [] => exact ⟨.cons firstAlike .nil, alike⟩
      | [], next :: other =>
          -- One group cannot end where the other one goes on.
          have joins := (List.isChain_cons_cons.1 chainOther).1
          cases alike with
          | cons nextAlike _ =>
              exact absurd ((firstAlike.joins_iff nextAlike).2 joins) (ends first rfl _ rfl)
      | next :: group, [] =>
          have joins := (List.isChain_cons_cons.1 chain).1
          cases alike with
          | cons nextAlike _ =>
              exact absurd ((firstAlike.joins_iff nextAlike).1 joins) (endsOther second rfl _ rfl)
      | next :: group, nextOther :: other =>
          obtain ⟨-, chain⟩ := List.isChain_cons_cons.1 chain
          obtain ⟨-, chainOther⟩ := List.isChain_cons_cons.1 chainOther
          have rest := induction chain chainOther (by simp) (by simp) ends endsOther alike
          exact ⟨.cons firstAlike rest.1, rest.2⟩

end Fragment

/-! ### Fragments of lexemes -/

theorem map_ofMark_literalMarks (kind : SpanKind) (closed : Bool) (start other : Nat)
    (text : Text) :
    (literalMarks kind closed start text).map Fragment.ofMark =
      (literalMarks kind closed other text).map Fragment.ofMark := by
  have line : ∀ start other line goesOn, (lineMarks kind start line goesOn).map Fragment.ofMark =
      (lineMarks kind other line goesOn).map Fragment.ofMark := by
    intro start other line goesOn
    unfold lineMarks
    split <;> rfl
  induction text using Text.lineInduction generalizing start other with
  | line text inLine =>
      rw [literalMarks_of_line inLine, literalMarks_of_line inLine, line start other]
  | lines first rest inLine induction =>
      rw [literalMarks_of_lines inLine, literalMarks_of_lines inLine, List.map_append,
        List.map_append, List.map_cons, List.map_cons, line start other, induction]
      rfl

/-- The fragments of a lexeme. -/
def Lexeme.fragments (lexeme : Lexeme) : List Fragment :=
  (lexeme.marks 0).map Fragment.ofMark

theorem map_ofMark_marks (lexeme : Lexeme) (start : Nat) :
    (lexeme.marks start).map Fragment.ofMark = lexeme.fragments := by
  cases lexeme with
  | literal whole => exact map_ofMark_literalMarks _ _ _ _ _
  | _ => rfl

theorem map_ofMark_marksFrom (start : Nat) (list : List Lexeme) :
    (marksFrom start list).map Fragment.ofMark = list.flatMap Lexeme.fragments := by
  induction list generalizing start with
  | nil => rfl
  | cons lexeme others induction =>
      rw [marksFrom, List.map_append, map_ofMark_marks, induction, List.flatMap_cons]

/-- The spans of a literal are joined by the newlines in it. -/
theorem isChain_map_ofMark (kind : SpanKind) (closed : Bool) (start : Nat) (text : Text) :
    ((literalMarks kind closed start text).map Fragment.ofMark).IsChain Fragment.Joins := by
  induction text using Text.lineInduction generalizing start with
  | line text inLine =>
      rw [literalMarks_of_line inLine]
      unfold lineMarks
      split <;> simp
  | lines line rest inLine induction =>
      have joined (start : Nat) : ((⟨.newline, ['\n'], true⟩ : Fragment) ::
          (literalMarks kind closed start rest).map Fragment.ofMark).IsChain Fragment.Joins :=
        List.isChain_cons.2 ⟨fun _ _ => .inl rfl, induction start⟩
      rw [literalMarks_of_lines inLine, List.map_append, List.map_cons]
      unfold lineMarks
      split
      · exact joined _
      · refine List.isChain_cons.2 ⟨fun next head => ?_, joined _⟩
        obtain rfl : _ = next := by simpa using head
        exact .inr rfl

theorem isChain_fragments (lexeme : Lexeme) : lexeme.fragments.IsChain Fragment.Joins := by
  cases lexeme with
  | literal whole => exact isChain_map_ofMark _ _ 0 whole.text
  | _ => exact .singleton _

/-! ### The ends of lexemes -/

section Ends

variable {lexeme : Lexeme} {source rest : Text}

/-- No lexeme starts with a newline inside a literal. -/
theorem exists_fragments_eq_cons (reads : Reads source lexeme rest) :
    ∃ fragment others, lexeme.fragments = fragment :: others ∧ fragment.kind = lexeme.kind ∧
      fragment.isInnerNewline = false := by
  cases lexeme with
  | literal whole =>
      have other := Scanner.spanKind_mode_ne_newline whole.form
      obtain ⟨text, shape⟩ := List.head?_eq_some_iff.1 (head?_literal reads)
      have inLine := whole.form.quote.character_ne.1
      have line : whole.text.takeWhile (· != '\n') =
          whole.form.quote.character :: text.takeWhile (· != '\n') := by
        rw [shape]
        exact List.takeWhile_cons_of_pos (by simpa using inLine)
      rw [Lexeme.fragments, Lexeme.marks, literalMarks]
      split <;>
        exact ⟨⟨_, _, _⟩, _, by rw [line]; rfl, rfl, Fragment.isInnerNewline_of_ne other⟩
  | _ => exact ⟨_, _, rfl, rfl, rfl⟩

/-- No lexeme ends with a newline inside a literal, unless the literal is left open. -/
theorem not_isInnerNewline_getLast? (reads : Reads source lexeme rest)
    (closed : ∀ whole, lexeme = .literal whole → whole.closed = true) {fragment : Fragment}
    (last : fragment ∈ lexeme.fragments.getLast?) : fragment.isInnerNewline = false := by
  cases lexeme with
  | literal whole =>
      have other := Scanner.spanKind_mode_ne_newline whole.form
      have kind := getLast?_marks 0 reads.text_ne_nil
      rw [lastKind_of_closed reads (closed whole rfl), List.getLast?_map, Option.map_map] at kind
      rw [Lexeme.fragments, List.getLast?_map] at last
      obtain ⟨mark, lastMark, rfl⟩ := Option.map_eq_some_iff.1 last
      rw [lastMark] at kind
      have kind : mark.1.kind = whole.form.mode.spanKind := by simpa using kind
      exact Fragment.isInnerNewline_of_ne fun newline => other (kind.symm.trans newline)
  | _ =>
      obtain rfl : _ = fragment := by simpa [Lexeme.fragments, Lexeme.marks] using last
      rfl

end Ends

/-! ### Lexemes that are alike -/

/-- The literals may say different things, but in spans of the same kind. -/
structure Literal.Alike (whole other : Literal) : Prop where
  kind : whole.form.mode.spanKind = other.form.mode.spanKind
  closed : whole.closed = true
  closedOther : other.closed = true
  fragments : List.Forall₂ Fragment.Alike (Lexeme.literal whole).fragments
    (Lexeme.literal other).fragments

/-- The lexemes are the same, or literals that are alike. -/
inductive Lexeme.Alike : Lexeme → Lexeme → Prop
  | code (text : Text) : Alike (.code text) (.code text)
  | newline : Alike .newline .newline
  | comment (text : Text) : Alike (.comment text) (.comment text)
  | literal {whole other : Literal} (alike : whole.Alike other) :
      Alike (.literal whole) (.literal other)

theorem Lexeme.Alike.fragments {lexeme other : Lexeme} (alike : lexeme.Alike other) :
    List.Forall₂ Fragment.Alike lexeme.fragments other.fragments := by
  cases alike with
  | literal alike => exact alike.fragments
  | _ => exact .cons (.refl _) .nil

/-- Only a literal has a span of its kind. -/
theorem exists_literal_of_kind {whole : Literal} {lexeme : Lexeme}
    (same : (Lexeme.literal whole).kind = lexeme.kind) : ∃ other, lexeme = .literal other := by
  obtain ⟨form, text, closed⟩ := whole
  cases lexeme with
  | literal other => exact ⟨other, rfl⟩
  | _ => cases form <;> contradiction

/-- Lexemes with alike fragments are alike. -/
theorem alike_of_fragments {lexeme other : Lexeme} {source rest source' rest' : Text}
    (reads : Reads source lexeme rest) (readsOther : Reads source' other rest')
    (closed : ∀ whole, lexeme = .literal whole → whole.closed = true)
    (closedOther : ∀ whole, other = .literal whole → whole.closed = true)
    (alike : List.Forall₂ Fragment.Alike lexeme.fragments other.fragments) :
    lexeme.Alike other := by
  obtain ⟨fragment, others, shape, kind, -⟩ := exists_fragments_eq_cons reads
  obtain ⟨fragment', others', shape', kind', -⟩ := exists_fragments_eq_cons readsOther
  have first := alike
  rw [shape, shape', List.forall₂_cons] at first
  have sameKind : lexeme.kind = other.kind := by rw [← kind, first.1.kind, kind']
  match lexeme, other with
  | .literal whole, other =>
      obtain ⟨whole', rfl⟩ := exists_literal_of_kind sameKind
      exact .literal ⟨sameKind, closed whole rfl, closedOther whole' rfl, alike⟩
  | lexeme, .literal whole' =>
      obtain ⟨whole, rfl⟩ := exists_literal_of_kind sameKind.symm
      exact .literal ⟨sameKind, closed whole rfl, closedOther whole' rfl, alike⟩
  | .code text, .code text' =>
      obtain rfl : text = text' := (List.forall₂_cons.1 alike).1.text rfl
      exact .code text
  | .comment text, .comment text' =>
      obtain rfl : text = text' := (List.forall₂_cons.1 alike).1.text rfl
      exact .comment text
  | .newline, .newline => exact .newline
  | .code _, .newline | .code _, .comment _ | .newline, .code _ | .newline, .comment _
  | .comment _, .code _ | .comment _, .newline => contradiction

section Lists

variable {list other : List Lexeme}

theorem ends_fragments {lexeme : Lexeme} {others : List Lexeme}
    (legible : Legible (lexeme :: others)) (closed : AllClosed (lexeme :: others)) :
    ∀ last ∈ lexeme.fragments.getLast?, ∀ next ∈ (others.flatMap Lexeme.fragments).head?,
      ¬last.Joins next := by
  intro last lastOf next nextOf
  have ends := not_isInnerNewline_getLast? legible.1 (allClosed_cons.1 closed).1 lastOf
  cases others with
  | nil => contradiction
  | cons following others =>
      obtain ⟨fragment, rest, shape, -, starts⟩ := exists_fragments_eq_cons legible.2.1
      rw [List.flatMap_cons, shape] at nextOf
      obtain rfl : fragment = next := by simpa using nextOf
      exact Fragment.not_joins ends starts

/-- Where all literals are closed, scans are alike exactly when the lexemes are. -/
theorem forall₂_alike_iff (legible : Legible list) (legibleOther : Legible other)
    (closed : AllClosed list) (closedOther : AllClosed other) :
    List.Forall₂ Fragment.Alike (list.flatMap Lexeme.fragments)
        (other.flatMap Lexeme.fragments) ↔
      List.Forall₂ Lexeme.Alike list other := by
  constructor
  · intro alike
    induction list generalizing other with
    | nil =>
        cases other with
        | nil => exact .nil
        | cons lexeme' other =>
            obtain ⟨fragment, others, shape, -⟩ := exists_fragments_eq_cons legibleOther.1
            rw [List.flatMap_cons, shape] at alike
            contradiction
    | cons lexeme list induction =>
        obtain ⟨fragment, others, shape, -⟩ := exists_fragments_eq_cons legible.1
        cases other with
        | nil =>
            rw [List.flatMap_cons, shape] at alike
            contradiction
        | cons lexeme' other =>
            obtain ⟨fragment', others', shape', -⟩ := exists_fragments_eq_cons legibleOther.1
            obtain ⟨closedFirst, closedRest⟩ := allClosed_cons.1 closed
            obtain ⟨closedFirst', closedRest'⟩ := allClosed_cons.1 closedOther
            obtain ⟨first, rest⟩ := Fragment.forall₂_of_append (isChain_fragments lexeme)
              (isChain_fragments lexeme') (by simp [shape]) (by simp [shape'])
              (ends_fragments legible closed) (ends_fragments legibleOther closedOther) alike
            exact .cons
              (alike_of_fragments legible.1 legibleOther.1 closedFirst closedFirst' first)
              (induction legible.2 legibleOther.2 closedRest closedRest' rest)
  · intro alike
    exact List.rel_flatMap alike fun _ _ => Lexeme.Alike.fragments

end Lists

end Bilingual

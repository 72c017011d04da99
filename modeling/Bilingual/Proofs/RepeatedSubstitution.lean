import Bilingual.Proofs.KeywordRoundTrip
import Mathlib.Data.List.Basic

/-!
# Substitution in several directions

Keywords can be replaced in one direction after the other.  What comes out is decided
word by word: by `substitute_inTurn_eq_iff` two lists of directions give the same text
exactly when they give the same for each word of the code.
-/

namespace Bilingual

/-- Takes a step in each of several directions, one after the other. -/
def inTurn {State : Type} (step : Direction → State → State) (directions : List Direction)
    (state : State) : State :=
  directions.foldl (fun state direction => step direction state) state

section InTurn

variable {State Other : Type} {step : Direction → State → State}

theorem inTurn_cons (direction : Direction) (directions : List Direction)
    (state : State) :
    inTurn step (direction :: directions) state =
      inTurn step directions (step direction state) :=
  rfl

/-- A view in which each step is a step gives a view of all of them. -/
theorem inTurn_hom {otherStep : Direction → Other → Other} (view : State → Other)
    (hom : ∀ direction state, otherStep direction (view state) = view (step direction state))
    (directions : List Direction) (state : State) :
    inTurn otherStep directions (view state) = view (inTurn step directions state) :=
  List.foldl_hom view fun state direction => hom direction state

theorem inTurn_fixed {state : State} (fixed : ∀ direction, step direction state = state)
    (directions : List Direction) : inTurn step directions state = state :=
  List.foldl_fixed' fixed directions

theorem inTurn_map (directions : List Direction) (states : List State) :
    inTurn (fun direction => List.map (step direction)) directions states =
      states.map (inTurn step directions) := by
  induction directions generalizing states with
  | nil => exact (List.map_id states).symm
  | cons direction directions induction =>
      rw [inTurn_cons, induction, List.map_map]
      rfl

end InTurn

/-! ### Word by word -/

theorem wordTokens_injective : Function.Injective wordTokens := by
  intro code other same
  have texts := congrArg (List.flatMap Token.text) same
  rwa [wordTokens, wordTokens, flatMap_text_tokens, flatMap_text_tokens] at texts

section Substitution

variable (table : KeywordTable) (directions others : List Direction)

theorem wordTokens_inTurn (code : Text) :
    wordTokens (inTurn (substituteCode table) directions code) =
      (wordTokens code).map (inTurn table.replacedToken directions) := by
  rw [← inTurn_map, inTurn_hom wordTokens]
  intro direction code
  exact (wordTokens_substituteCode table direction code).symm

theorem lexemes_inTurn (source : Text) :
    lexemes (inTurn (substitute table) directions source) =
      (lexemes source).map (inTurn (Lexeme.substitute table) directions) := by
  rw [← inTurn_map, inTurn_hom lexemes]
  intro direction source
  exact (lexemes_substitute table direction source).symm

theorem inTurn_replacedToken (word : Text) :
    inTurn table.replacedToken directions ⟨.word, word⟩ =
      ⟨.word, inTurn table.replaceWord directions word⟩ :=
  inTurn_hom (Token.mk WordTokenKind.word) (fun _ _ => rfl) directions word

theorem inTurn_code (code : Text) :
    inTurn (Lexeme.substitute table) directions (.code code) =
      .code (inTurn (substituteCode table) directions code) :=
  inTurn_hom Lexeme.code (fun _ _ => rfl) directions code

theorem substituteCode_inTurn_eq_iff (code : Text) :
    inTurn (substituteCode table) directions code = inTurn (substituteCode table) others code ↔
      ∀ word, ⟨WordTokenKind.word, word⟩ ∈ wordTokens code →
        inTurn table.replaceWord directions word = inTurn table.replaceWord others word := by
  rw [← wordTokens_injective.eq_iff, wordTokens_inTurn, wordTokens_inTurn, List.map_inj_left]
  constructor
  · intro same word member
    have tokens := same _ member
    rw [inTurn_replacedToken, inTurn_replacedToken] at tokens
    exact congrArg Token.text tokens
  · rintro same ⟨kind, text⟩ member
    cases kind with
    | word => rw [inTurn_replacedToken, inTurn_replacedToken, same text member]
    | _ => rw [inTurn_fixed fun _ => rfl, inTurn_fixed fun _ => rfl]

/-- Two lists of directions give the same text exactly when they give the same for each
word of the code. -/
theorem substitute_inTurn_eq_iff (source : Text) :
    inTurn (substitute table) directions source = inTurn (substitute table) others source ↔
      ∀ word ∈ codeWords source,
        inTurn table.replaceWord directions word = inTurn table.replaceWord others word := by
  rw [← lexemes_injective.eq_iff, lexemes_inTurn, lexemes_inTurn, List.map_inj_left]
  constructor
  · intro same word member
    obtain ⟨code, run, token⟩ := mem_codeWords_iff.1 member
    have codes := same _ run
    rw [inTurn_code, inTurn_code, Lexeme.code.injEq, substituteCode_inTurn_eq_iff] at codes
    exact codes word token
  · intro same lexeme member
    cases lexeme with
    | code code =>
        rw [inTurn_code, inTurn_code, Lexeme.code.injEq, substituteCode_inTurn_eq_iff]
        intro word token
        exact same word (mem_codeWords_iff.2 ⟨code, member, token⟩)
    | _ => rw [inTurn_fixed fun _ => rfl, inTurn_fixed fun _ => rfl]

theorem substitute_eq_self_iff {table : KeywordTable} {direction : Direction} {source : Text} :
    substitute table direction source = source ↔
      ∀ word ∈ codeWords source, table.replaceWord direction word = word :=
  substitute_inTurn_eq_iff table [direction] [] source

end Substitution

end Bilingual

import Bilingual.Proofs.TidyLines

/-!
# Gaps that are written alike

Some pairs of pieces decide alone whether a space is written between them.  Between all
others a space is written where there was white space, however much and of whichever kind.
The main statement is `joinPieces_eq_iff`: the same visible pieces are put together in the
same way exactly when there is white space in the same gaps, those apart in which the pieces
decide alone.
-/

namespace Bilingual

/-- The pieces decide alone whether a space is written between them: around `=`, behind `(`
and in front of `)`, around commas and colons, and in front of `(` behind `)` or a word that
is not a keyword. -/
def piecesDecide (previous next : Piece) : Bool :=
  previous.kind? = some .assign || next.kind? = some .assign ||
    [some .openParen, some .comma, some .colon].contains previous.kind? ||
    [some .closeParen, some .comma, some .colon].contains next.kind? ||
    (previous.kind? = some .closeParen && next.kind? = some .openParen) ||
    (previous.kind? = some .word && !spacedKeywords.contains previous.text &&
      next.kind? = some .openParen)

namespace Piece

/-- The same pieces, with white space in front of the same ones, except where the pieces
decide alone on the space between them.  `previous` is the piece in front of the first. -/
def GapsAgree : Option Piece → List (Text × Piece) → List (Text × Piece) → Prop
  | _, [], [] => True
  | previous, (blank, piece) :: placed, (otherBlank, other) :: others =>
      piece = other ∧
        ((blank = [] ↔ otherBlank = []) ∨ previous.all (piecesDecide · piece) = true) ∧
        GapsAgree (some piece) placed others
  | _, [], _ :: _ => False
  | _, _ :: _, [] => False

instance decidableGapsAgree :
    ∀ previous placed others, Decidable (GapsAgree previous placed others)
  | _, [], [] => isTrue trivial
  | _, (_, piece) :: placed, (_, _) :: others =>
      have := decidableGapsAgree (some piece) placed others
      inferInstanceAs (Decidable (_ ∧ _ ∧ _))
  | _, [], _ :: _ => isFalse id
  | _, _ :: _, [] => isFalse id

theorem map_snd_placed (blank : Text) (pieces : List Piece) :
    (placed blank pieces).map Prod.snd = pieces.filter (!·.isBlank) := by
  induction pieces generalizing blank with
  | nil => rfl
  | cons piece pieces induction =>
      rw [placed]
      cases blankPiece : piece.isBlank with
      | true => rw [if_pos rfl, induction, List.filter_cons_of_neg (by simp [blankPiece])]
      | false =>
          rw [if_neg Bool.false_ne_true, List.map_cons, induction,
            List.filter_cons_of_pos (by simp [blankPiece])]

end Piece

/-! ### One gap -/

section Gap

variable {rules : FormatRules} {previous next : Piece}

/-- White space between two pieces matters unless they decide alone. -/
theorem needsSpace_true_eq_false_iff :
    needsSpace rules previous next true = needsSpace rules previous next false ↔
      piecesDecide previous next = true := by
  unfold needsSpace piecesDecide
  generalize previous.kind? = left
  generalize next.kind? = right
  split <;> simp_all

theorem gap_eq_iff {hadSpace otherSpace : Bool} :
    gap rules previous next hadSpace = gap rules previous next otherSpace ↔
      hadSpace = otherSpace ∨ piecesDecide previous next = true := by
  have same : gap rules previous next hadSpace = gap rules previous next otherSpace ↔
      needsSpace rules previous next hadSpace = needsSpace rules previous next otherSpace := by
    unfold gap
    cases needsSpace rules previous next hadSpace <;>
      cases needsSpace rules previous next otherSpace <;> simp
  have decides := @needsSpace_true_eq_false_iff rules previous next
  rw [same]
  cases hadSpace <;> cases otherSpace
  · simp
  · rw [eq_comm, decides]
    simp
  · rw [decides]
    simp
  · simp

end Gap

/-! ### All gaps of a line -/

/-- Puts pieces together behind `previous`, each of which stands behind its white space. -/
def joinPlaced (rules : FormatRules) : Option Piece → List (Text × Piece) → Text
  | _, [] => []
  | previous, (blank, piece) :: pieces =>
      previous.elim [] (gap rules · piece (!blank.isEmpty)) ++ piece.text ++
        joinPlaced rules (some piece) pieces

section Join

variable {rules : FormatRules} {pieces others : List Piece}

theorem joinBehind_eq_joinPlaced (sound : ∀ piece ∈ pieces, piece.IsSound) (previous : Piece)
    (blank : Text) :
    joinBehind rules previous (!blank.isEmpty) pieces =
      joinPlaced rules (some previous) (Piece.placed blank pieces) := by
  induction pieces generalizing previous blank with
  | nil => rfl
  | cons piece pieces induction =>
      obtain ⟨first, rest⟩ := List.forall_mem_cons.1 sound
      rw [Piece.placed]
      cases blankPiece : piece.isBlank with
      | true =>
          have met : (!(blank ++ piece.text).isEmpty) = true := by simp [first.text_ne_nil]
          have behind := induction rest previous (blank ++ piece.text)
          rw [met] at behind
          rw [Piece.joinBehind_cons_of_isBlank _ _ _ _ blankPiece, if_pos rfl, behind]
      | false =>
          have behind := induction rest piece []
          rw [Piece.joinBehind_cons _ _ _ _ blankPiece, if_neg Bool.false_ne_true, joinPlaced,
            ← behind]
          rfl

theorem joinPieces_eq_joinPlaced (sound : ∀ piece ∈ pieces, piece.IsSound) (blank : Text) :
    joinPieces rules pieces = joinPlaced rules none (Piece.placed blank pieces) := by
  induction pieces generalizing blank with
  | nil => rfl
  | cons piece pieces induction =>
      obtain ⟨-, rest⟩ := List.forall_mem_cons.1 sound
      rw [Piece.placed]
      cases blankPiece : piece.isBlank with
      | true =>
          rw [Piece.joinPieces_cons_of_isBlank _ _ blankPiece, if_pos rfl]
          exact induction rest _
      | false =>
          have behind := @joinBehind_eq_joinPlaced rules pieces rest piece []
          rw [Piece.joinPieces_cons _ _ blankPiece, if_neg Bool.false_ne_true, joinPlaced,
            ← behind]
          rfl

theorem isBlank_elim_gap (previous : Option Piece) (next : Piece) (hadSpace : Bool) :
    Text.isBlank (previous.elim [] (gap rules · next hadSpace)) = true := by
  cases previous with
  | none => rfl
  | some left => exact isBlank_gap left next hadSpace

theorem elim_gap_eq_iff {previous : Option Piece} {next : Piece} {blank otherBlank : Text} :
    previous.elim [] (gap rules · next (!blank.isEmpty)) =
        previous.elim [] (gap rules · next (!otherBlank.isEmpty)) ↔
      (blank = [] ↔ otherBlank = []) ∨ previous.all (piecesDecide · next) = true := by
  cases previous with
  | none => simp
  | some left =>
      rw [Option.elim_some, Option.elim_some, gap_eq_iff, Option.all_some]
      refine or_congr_left ?_
      rw [Bool.not_inj_iff, Bool.eq_iff_iff, List.isEmpty_iff, List.isEmpty_iff]

/-- Pieces that are visible show the white space in front of them. -/
theorem joinPlaced_eq_iff {previous : Option Piece} {placed others : List (Text × Piece)}
    (same : placed.map Prod.snd = others.map Prod.snd)
    (visible : ∀ piece ∈ placed.map Prod.snd, ∀ behind,
      (piece.text ++ behind).head?.all (!isWhiteSpace ·) = true) :
    joinPlaced rules previous placed = joinPlaced rules previous others ↔
      Piece.GapsAgree previous placed others := by
  induction placed generalizing previous others with
  | nil =>
      obtain rfl := List.map_eq_nil_iff.1 same.symm
      exact iff_of_true rfl trivial
  | cons entry placed induction =>
      obtain ⟨blank, piece⟩ := entry
      obtain _ | ⟨⟨otherBlank, other⟩, others⟩ := others
      · contradiction
      · rw [List.map_cons, List.map_cons, List.cons.injEq] at same
        obtain ⟨rfl, same⟩ := same
        rw [List.map_cons, List.forall_mem_cons] at visible
        rw [joinPlaced, joinPlaced, List.append_assoc, List.append_assoc,
          Text.isBlank_append_inj (isBlank_elim_gap _ _ _) (isBlank_elim_gap _ _ _)
            (visible.1 _) (visible.1 _),
          List.append_cancel_left_eq, induction same visible.2, elim_gap_eq_iff, Piece.GapsAgree]
        simp only [true_and]

/-- White space matters exactly where the pieces leave it open, and there only whether there
is any. -/
theorem joinPieces_eq_iff (sound : ∀ piece ∈ pieces, piece.IsSound)
    (soundOther : ∀ piece ∈ others, piece.IsSound)
    (same : pieces.filter (!·.isBlank) = others.filter (!·.isBlank)) :
    joinPieces rules pieces = joinPieces rules others ↔
      Piece.GapsAgree none (Piece.placed [] pieces) (Piece.placed [] others) := by
  rw [joinPieces_eq_joinPlaced sound [], joinPieces_eq_joinPlaced soundOther []]
  apply joinPlaced_eq_iff
  · rw [Piece.map_snd_placed, Piece.map_snd_placed, same]
  · intro piece member behind
    rw [Piece.map_snd_placed] at member
    obtain ⟨member, visible⟩ := List.mem_filter.1 member
    exact (sound piece member).head?_append (by simpa using visible) behind

end Join

end Bilingual

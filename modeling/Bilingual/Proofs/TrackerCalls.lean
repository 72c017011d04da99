import Bilingual.IndentTracker
import Mathlib.Data.List.Basic
import Mathlib.Data.List.Induction
import Mathlib.Order.Bounds.Image

/-!
# The depth behind any calls

A tracker is told of lines and of blocks one after the other, and is asked about columns
and depths in between.  Its depth goes up and down with what it is told, but there is no
need to follow it: it is the least of one number for all blocks and one for each dedent.
The main statement is `isLeast_depth_behind`.
-/

namespace Bilingual

/-- What a tracker is told or asked. -/
inductive TrackerCall
  | observe (leading : Nat)
  | openBlock
  | depth
  | leadingWidth (line : Text)
  | commentDepth (leading : Nat)
  | indentation (depth : Nat)
  deriving DecidableEq, Repr

/-- What a tracker returns. -/
inductive TrackerAnswer
  | nothing
  | number (value : Nat)
  | text (value : Text)
  deriving DecidableEq, Repr

namespace IndentTracker

/-- The answer to a call, and the tracker behind it. -/
def answer (tracker : IndentTracker) : TrackerCall → TrackerAnswer × IndentTracker
  | .observe leading =>
      (.number (tracker.observe leading).depth, tracker.observe leading)
  | .openBlock => (.nothing, tracker.openBlock)
  | .depth => (.number tracker.depth, tracker)
  | .leadingWidth line => (.number (tracker.leadingWidth line), tracker)
  | .commentDepth leading => (.number (tracker.commentDepth leading), tracker)
  | .indentation depth => (.text (tracker.indentation depth), tracker)

/-- The tracker behind calls. -/
def behind (tracker : IndentTracker) (calls : List TrackerCall) : IndentTracker :=
  calls.foldl (fun tracker call => (tracker.answer call).2) tracker

/-- The calls, each with its answer. -/
def answers (tracker : IndentTracker) : List TrackerCall → List (TrackerCall × TrackerAnswer)
  | [] => []
  | call :: calls =>
      (call, (tracker.answer call).1) :: (tracker.answer call).2.answers calls

end IndentTracker

namespace TrackerCall

/-- The indentation of a line that the tracker is told of. -/
def leading? : TrackerCall → Option Nat
  | .observe leading => some leading
  | _ => none

/-- The tracker is told something, and not just asked. -/
def tells : TrackerCall → Bool
  | .observe _ | .openBlock => true
  | _ => false

end TrackerCall

/-- The indentation of the last line among the calls. -/
def lastLeading? (calls : List TrackerCall) : Option Nat :=
  (calls.filterMap TrackerCall.leading?).getLast?

/-- The number of blocks that were opened. -/
def openings (calls : List TrackerCall) : Nat :=
  calls.count .openBlock

/-- A line of this indentation is narrower than the last line among the calls. -/
def IsDedent (calls : List TrackerCall) (leading : Nat) : Prop :=
  ∃ previous ∈ lastLeading? calls, leading < previous

/-- Some dedent leaves this number: the whole levels in its indentation, and one for each
block that was opened behind it. -/
def LeftByDedent (unit : Nat) (calls : List TrackerCall) (number : Nat) : Prop :=
  ∃ before leading after, calls = before ++ .observe leading :: after ∧
    IsDedent before leading ∧ number = leading / unit + openings after

/-- All blocks that were opened, and what each dedent leaves of them. -/
def depthBounds (unit : Nat) (calls : List TrackerCall) : Set Nat :=
  {number | number = openings calls ∨ LeftByDedent unit calls number}

/-! ### One more call -/

section OneMore

variable {unit number depth leading : Nat} {calls : List TrackerCall} {call : TrackerCall}

theorem lastLeading?_concat :
    lastLeading? (calls ++ [call]) = call.leading?.or (lastLeading? calls) := by
  cases told : call.leading? <;> simp [lastLeading?, List.filterMap_append, told]

theorem openings_concat : openings (calls ++ [call]) = openings calls + openings [call] :=
  List.count_append

/-- The dedents among calls and one more call are those among the calls, and that call if
it is a dedent. -/
theorem leftByDedent_concat_iff :
    LeftByDedent unit (calls ++ [call]) number ↔
      (∃ earlier, LeftByDedent unit calls earlier ∧ earlier + openings [call] = number) ∨
        ∃ leading ∈ call.leading?, IsDedent calls leading ∧ number = leading / unit := by
  constructor
  · rintro ⟨before, leading, after, parts, dedent, rfl⟩
    rcases List.eq_nil_or_concat' after with rfl | ⟨others, last, rfl⟩
    · obtain ⟨rfl, same⟩ := List.append_inj' parts rfl
      obtain rfl : call = .observe leading := by simpa using same
      exact .inr ⟨leading, rfl, dedent, rfl⟩
    · rw [← List.cons_append, ← List.append_assoc] at parts
      obtain ⟨rfl, same⟩ := List.append_inj' parts rfl
      obtain rfl : call = last := by simpa using same
      refine .inl ⟨_, ⟨before, leading, others, rfl, dedent, rfl⟩, ?_⟩
      rw [openings_concat, Nat.add_assoc]
  · rintro (⟨_, ⟨before, leading, after, rfl, dedent, rfl⟩, rfl⟩ | ⟨leading, told, dedent, rfl⟩)
    · refine ⟨before, leading, after ++ [call], by simp, dedent, ?_⟩
      rw [openings_concat, Nat.add_assoc]
    · obtain rfl : call = .observe leading := by
        cases call <;> simp_all [TrackerCall.leading?]
      exact ⟨calls, leading, [], rfl, dedent, rfl⟩

/-- A call raises all bounds by the blocks that it opens, and a dedent adds one. -/
theorem depthBounds_concat :
    depthBounds unit (calls ++ [call]) =
      (· + openings [call]) '' depthBounds unit calls ∪
        {number | ∃ leading ∈ call.leading?, IsDedent calls leading ∧
          number = leading / unit} := by
  ext number
  simp only [depthBounds, Set.mem_ofPred_eq, Set.mem_union, Set.mem_image, openings_concat,
    leftByDedent_concat_iff]
  grind

theorem isLeast_depthBounds_concat (least : IsLeast (depthBounds unit calls) depth)
    (raised : ∀ leading ∈ call.leading?, ¬IsDedent calls leading) :
    IsLeast (depthBounds unit (calls ++ [call])) (depth + openings [call]) := by
  have none : {number | ∃ leading ∈ call.leading?, IsDedent calls leading ∧
      number = leading / unit} = ∅ := by
    rw [Set.eq_empty_iff_forall_notMem]
    rintro number ⟨leading, told, dedent, -⟩
    exact raised leading told dedent
  rw [depthBounds_concat, none, Set.union_empty]
  exact Monotone.map_isLeast (fun _ _ le => Nat.add_le_add_right le _) least

theorem isLeast_depthBounds_dedent (least : IsLeast (depthBounds unit calls) depth)
    (dedent : IsDedent calls leading) :
    IsLeast (depthBounds unit (calls ++ [.observe leading])) (min depth (leading / unit)) := by
  have one : {number | ∃ told ∈ (TrackerCall.observe leading).leading?, IsDedent calls told ∧
      number = told / unit} = {leading / unit} := by
    ext number
    simp [TrackerCall.leading?, dedent]
  have none : openings [.observe leading] = 0 := rfl
  rw [depthBounds_concat, one, none]
  simpa using least.union isLeast_singleton

end OneMore

/-! ### Runs of calls -/

/-- The tracker is what a new one becomes by the calls. -/
structure IndentTracker.IsBehind (unit : Nat) (calls : List TrackerCall)
    (tracker : IndentTracker) : Prop where
  width : tracker.width = unit
  previousLeading : tracker.previousLeading = lastLeading? calls
  depth : IsLeast (depthBounds unit calls) tracker.depth

namespace IndentTracker

variable {unit : Nat} {calls : List TrackerCall} {tracker : IndentTracker}

theorem isBehind_ofWidth (width : Nat) : (ofWidth width).IsBehind (max width 1) [] := by
  refine ⟨rfl, rfl, .inl rfl, ?_⟩
  exact fun _ _ => Nat.zero_le _

theorem IsBehind.depth_observe (behind : tracker.IsBehind unit calls) (leading : Nat) :
    IsDedent calls leading ∧
        (tracker.observe leading).depth = min tracker.depth (leading / unit) ∨
      ¬IsDedent calls leading ∧ (tracker.observe leading).depth = tracker.depth := by
  rw [IsDedent, ← behind.previousLeading, observe, depthAt, behind.width]
  cases tracker.previousLeading with
  | none => simp
  | some previous => by_cases narrower : leading < previous <;> simp [narrower]

theorem IsBehind.answer (behind : tracker.IsBehind unit calls) (call : TrackerCall) :
    (tracker.answer call).2.IsBehind unit (calls ++ [call]) := by
  have asked (untold : call.leading? = none) :
      IsLeast (depthBounds unit (calls ++ [call])) (tracker.depth + openings [call]) :=
    isLeast_depthBounds_concat behind.depth (by simp [untold])
  have previous := behind.previousLeading
  cases call with
  | observe leading =>
      refine ⟨behind.width, by rw [lastLeading?_concat]; rfl, ?_⟩
      rcases behind.depth_observe leading with ⟨dedent, same⟩ | ⟨raised, same⟩
      · rw [IndentTracker.answer, same]
        exact isLeast_depthBounds_dedent behind.depth dedent
      · rw [IndentTracker.answer, same]
        refine isLeast_depthBounds_concat behind.depth ?_
        rintro _ ⟨⟩
        exact raised
  | openBlock => exact ⟨behind.width, by rw [lastLeading?_concat]; exact previous, asked rfl⟩
  | _ => exact ⟨behind.width, by rw [lastLeading?_concat]; exact previous, asked rfl⟩

theorem isBehind_behind (width : Nat) (calls : List TrackerCall) :
    ((ofWidth width).behind calls).IsBehind (max width 1) calls := by
  induction calls using List.reverseRecOn with
  | nil => exact isBehind_ofWidth width
  | append_singleton calls call induction =>
      rw [behind, List.foldl_append]
      exact induction.answer call

/-- A call that only asks leaves the tracker as it is. -/
theorem answer_of_asks {call : TrackerCall} (asks : call.tells = false) :
    (tracker.answer call).2 = tracker := by
  cases call with
  | observe leading => contradiction
  | openBlock => contradiction
  | _ => rfl

theorem behind_filter_tells (tracker : IndentTracker) (calls : List TrackerCall) :
    tracker.behind (calls.filter TrackerCall.tells) = tracker.behind calls := by
  induction calls generalizing tracker with
  | nil => rfl
  | cons call calls induction =>
      cases tells : call.tells with
      | true =>
          rw [List.filter_cons_of_pos tells]
          exact induction _
      | false =>
          have same := induction tracker
          rw [List.filter_cons_of_neg (by simp [tells]), same, behind, behind, List.foldl_cons,
            answer_of_asks tells]

theorem answers_filter_tells (tracker : IndentTracker) (calls : List TrackerCall) :
    tracker.answers (calls.filter TrackerCall.tells) =
      (tracker.answers calls).filter (TrackerCall.tells ·.1) := by
  induction calls generalizing tracker with
  | nil => rfl
  | cons call calls induction =>
      cases tells : call.tells with
      | true =>
          rw [List.filter_cons_of_pos tells, answers, answers, induction,
            List.filter_cons_of_pos (by simpa using tells)]
      | false =>
          rw [List.filter_cons_of_neg (by simp [tells]), answers,
            List.filter_cons_of_neg (by simp [tells]), induction, answer_of_asks tells]

end IndentTracker

/-- Behind any calls a tracker is as deep as the least of these numbers: that of all blocks
that were opened, and what each dedent leaves of them.  Calls that only ask change neither
the tracker nor the answers to the others. -/
theorem isLeast_depth_behind (width : Nat) (calls : List TrackerCall) :
    IsLeast (depthBounds (max width 1) calls)
        ((IndentTracker.ofWidth width).behind calls).depth ∧
      ∀ tracker : IndentTracker,
        tracker.behind (calls.filter TrackerCall.tells) = tracker.behind calls ∧
          tracker.answers (calls.filter TrackerCall.tells) =
            (tracker.answers calls).filter (TrackerCall.tells ·.1) :=
  ⟨(IndentTracker.isBehind_behind width calls).depth, fun tracker =>
    ⟨tracker.behind_filter_tells calls, tracker.answers_filter_tells calls⟩⟩

end Bilingual

import Bilingual.CommandLine
import Bilingual.Proofs.FileWrites

/-!
# Steps of a run

A step sees and changes what was delivered so far, and may fail after that.  This file says
for each step what it leaves when it succeeds, and that it leaves everything as it was
when it fails.  What only reads may stand in front of any such step.
-/

namespace Bilingual

variable {Value Result : Type}

/-- A step that fails has delivered nothing. -/
def AllOrNothing (step : CommandStep Value) : Prop :=
  ∀ before reason after, step.run before = .error reason after → after = before

/-- The step delivers nothing at all. -/
def OnlyReads (step : CommandStep Value) : Prop :=
  ∀ before, (∃ value, step.run before = .ok value before) ∨
    ∃ reason, step.run before = .error reason before

section Bind

variable {first : CommandStep Value} {next : Value → CommandStep Result}
  {before after between : Delivery}

theorem run_bind_of_ok {value : Value} (run : first.run before = .ok value between) :
    (first >>= next).run before = (next value).run between := by
  change EStateM.bind first next before = next value between
  rw [EStateM.bind, show first before = _ from run]

theorem run_bind_of_error {reason : CommandError} (run : first.run before = .error reason after) :
    (first >>= next).run before = .error reason after := by
  change EStateM.bind first next before = _
  rw [EStateM.bind, show first before = _ from run]

theorem run_bind_eq_ok_iff {result : Result} :
    (first >>= next).run before = .ok result after ↔
      ∃ value between, first.run before = .ok value between ∧
        (next value).run between = .ok result after := by
  cases run : first.run before with
  | ok value between =>
      rw [run_bind_of_ok run]
      simp
  | error reason between =>
      rw [run_bind_of_error run]
      simp

theorem OnlyReads.allOrNothing (reads : OnlyReads first) : AllOrNothing first := by
  intro before reason after run
  rcases reads before with ⟨value, succeeds⟩ | ⟨reason, fails⟩
  · rw [run] at succeeds
    contradiction
  · rw [run] at fails
    exact (EStateM.Result.error.inj fails).2

theorem OnlyReads.bind (reads : OnlyReads first) (others : ∀ value, OnlyReads (next value)) :
    OnlyReads (first >>= next) := by
  intro before
  rcases reads before with ⟨value, succeeds⟩ | ⟨reason, fails⟩
  · rw [run_bind_of_ok succeeds]
    exact others value before
  · exact .inr ⟨reason, run_bind_of_error fails⟩

/-- The one step that delivers is the last one. -/
theorem AllOrNothing.behind (reads : OnlyReads first)
    (others : ∀ value, AllOrNothing (next value)) : AllOrNothing (first >>= next) := by
  intro before reason after run
  rcases reads before with ⟨value, succeeds⟩ | ⟨_, fails⟩
  · rw [run_bind_of_ok succeeds] at run
    exact others value before reason after run
  · rw [run_bind_of_error fails] at run
    exact (EStateM.Result.error.inj run).2.symm

end Bind

/-! ### The steps -/

section Steps

variable {before after : Delivery}

theorem onlyReads_pure (value : Value) : OnlyReads (pure value) :=
  fun _ => .inl ⟨value, rfl⟩

theorem onlyReads_throw (reason : CommandError) : OnlyReads (throw reason : CommandStep Value) :=
  fun _ => .inr ⟨reason, rfl⟩

theorem onlyReads_get : OnlyReads (get : CommandStep Delivery) :=
  fun before => .inl ⟨before, rfl⟩

theorem onlyReads_orFail {Reason : Type} (found : Except Reason Value)
    (failure : Reason → CommandError) : OnlyReads (orFail found failure) := by
  cases found with
  | ok value => exact onlyReads_pure value
  | error reason => exact onlyReads_throw _

theorem run_get : (get : CommandStep Delivery).run before = .ok before before := rfl

theorem run_orFail_eq_ok_iff {Reason : Type} {found : Except Reason Value}
    {failure : Reason → CommandError} {value : Value} :
    (orFail found failure).run before = .ok value after ↔ found = .ok value ∧ after = before := by
  cases found with
  | ok other =>
      change EStateM.Result.ok other before = _ ↔ _
      grind
  | error reason =>
      change EStateM.Result.error (failure reason) before = _ ↔ _
      simp

theorem allOrNothing_printText (text : Text) : AllOrNothing (printText text) := by
  intro before reason after run
  contradiction

theorem run_printText_eq_ok_iff {text : Text} :
    (printText text).run before = .ok () after ↔
      after = ⟨before.output ++ text, before.files⟩ := by
  change EStateM.Result.ok () _ = _ ↔ _
  grind

theorem allOrNothing_writeFile (path content : Text) : AllOrNothing (writeFile path content) := by
  refine .behind onlyReads_get fun delivered => .behind (onlyReads_orFail _ _) fun files => ?_
  intro before reason after run
  contradiction

theorem run_writeFile_eq_ok_iff {path content : Text} :
    (writeFile path content).run before = .ok () after ↔
      before.files.write path content = .ok after.files ∧ after.output = before.output := by
  rw [writeFile, run_bind_of_ok run_get, run_bind_eq_ok_iff]
  constructor
  · rintro ⟨files, between, write, ends⟩
    obtain ⟨written, rfl⟩ := run_orFail_eq_ok_iff.1 write
    obtain rfl := (EStateM.Result.ok.inj ends).2
    exact ⟨written, rfl⟩
  · rintro ⟨written, output⟩
    refine ⟨after.files, before, run_orFail_eq_ok_iff.2 ⟨written, rfl⟩, ?_⟩
    rw [← output]
    rfl

theorem onlyReads_read (source : Source) (input : FileContent) : OnlyReads (source.read input) :=
  onlyReads_get.bind fun _ => onlyReads_orFail _ _

theorem run_read_eq_ok_iff {source : Source} {input : FileContent} {text : Text} :
    (source.read input).run before = .ok text after ↔
      source.text input before.files = .ok text ∧ after = before := by
  rw [Source.read, run_bind_of_ok run_get, run_orFail_eq_ok_iff]

theorem allOrNothing_deliver (source : Source) (text result : Text) (destination : Destination) :
    AllOrNothing (destination.deliver source text result) := by
  cases destination with
  | standardOutput => exact allOrNothing_printText result
  | file path => exact allOrNothing_writeFile path result
  | source =>
      cases source with
      | standardInput => exact (onlyReads_throw _).allOrNothing
      | file path =>
          rw [Destination.deliver]
          split
          · exact (onlyReads_pure ()).allOrNothing
          · exact allOrNothing_writeFile path result

theorem Command.allOrNothing_run (command : Command) (tools : Tools) (input : FileContent) :
    AllOrNothing (command.run tools input) := by
  cases command with
  | convert conversion source destination =>
      refine .behind (onlyReads_read source input) fun text => ?_
      refine .behind (onlyReads_orFail _ _) fun result => ?_
      exact allOrNothing_deliver source text result destination
  | listSpans source form =>
      exact .behind (onlyReads_read source input) fun text => allOrNothing_printText _
  | listKeywords form => exact allOrNothing_printText _

theorem onlyReads_tools (invocation : Invocation) : OnlyReads invocation.tools :=
  onlyReads_get.bind fun _ => (onlyReads_orFail _ _).bind fun _ =>
    (onlyReads_orFail _ _).bind fun _ => onlyReads_pure _

/-- A run that fails has delivered nothing. -/
theorem Invocation.allOrNothing_run (invocation : Invocation) (input : FileContent) :
    AllOrNothing (invocation.run input) :=
  .behind (onlyReads_tools invocation) fun tools =>
    invocation.command.allOrNothing_run tools input

end Steps

end Bilingual

import Bilingual.LocalizedPipeline
import Bilingual.Proofs.CommandSteps
import Bilingual.Proofs.FittingIndentation

/-!
# What the command line delivers

A run of an invocation leaves everything as it was, or it delivers the one thing that the
invocation asks for to one place.  Listings are printed.  The result of a conversion is that
of the pipeline, and goes to the standard output, to a file, or into the source unless that
is the result already.  The main statement is `runCommandLine_cases`, for every invocation
and whatever it meets.
-/

namespace Bilingual

/-! ### Conversions -/

/-- The result of a conversion by a pipeline. -/
def Conversion.resultOf (pipeline : Pipeline) (text : Text) :
    Conversion → Except FormatterError Text
  | .format => pipeline.formatLocalized text
  | .toStandard => .ok (pipeline.toStandard text)
  | .toLocalized => .ok (pipeline.toLocalized text)

/-- The pipeline that a run works with. -/
def Tools.pipeline (tools : Tools) : Pipeline :=
  ⟨tools.table, .line tools.rules⟩

/-- The numbers that are met in a conversion fit. -/
def Conversion.Fits (tools : Tools) (text : Text) : Conversion → Prop
  | .format =>
      LinesFit tools.rules (.ofWidth tools.rules.indentWidth)
        (logicalLines (Bilingual.toStandard tools.table text))
  | .toStandard | .toLocalized => True

theorem apply_eq_ok_iff {tools : Tools} {text result : Text} {conversion : Conversion} :
    conversion.apply tools text = .ok result ↔
      conversion.resultOf tools.pipeline text = .ok result ∧ conversion.Fits tools text := by
  cases conversion with
  | format =>
      change tools.format text = _ ↔ Except.ok (toLocalized tools.table
        (formatWith tools.rules (toStandard tools.table text))) = _ ∧ _
      simp only [Tools.format, bind_eq_ok_iff, formatWithin_eq_ok_iff_fit, and_assoc,
        exists_eq_left, pure, Except.pure, Except.ok.injEq]
      exact and_comm
  | toStandard | toLocalized =>
      simp only [Conversion.apply, Conversion.resultOf, Conversion.Fits, Except.ok.injEq, and_true]
      exact Iff.rfl

/-! ### What is delivered -/

/-- A content was written to a path, and nothing else has changed. -/
def FileTree.Writes (before : FileTree) (path content : Text) (after : FileTree) : Prop :=
  before.write path content = .ok after ∧
    ∃ location, before.IsWritten path content location after

theorem writes_iff {before after : FileTree} {path content : Text} :
    before.Writes path content after ↔ before.write path content = .ok after :=
  ⟨And.left, fun write => ⟨write, FileTree.isWritten_of_write write⟩⟩

/-- The destination has received the result of a conversion of the text of a source, and
nothing else has changed. -/
def Destination.Receives (before : FileTree) (source : Source) (text result : Text)
    (after : Delivery) : Destination → Prop
  | .standardOutput => after = ⟨result, before⟩
  | .file path => after.output = [] ∧ before.Writes path result after.files
  | .source => ∃ path, source = .file path ∧ after.output = [] ∧
      if result = text then after.files = before else before.Writes path result after.files

/-- A command has delivered what it was asked for. -/
def Command.Delivers (tools : Tools) (surroundings : Surroundings) (after : Delivery) :
    Command → Prop
  | .convert conversion source destination => ∃ text result,
      source.text surroundings.standardInput surroundings.files = .ok text ∧
        conversion.resultOf tools.pipeline text = .ok result ∧ conversion.Fits tools text ∧
          destination.Receives surroundings.files source text result after
  | .listSpans source form => ∃ text,
      source.text surroundings.standardInput surroundings.files = .ok text ∧
        after = ⟨spanListing (scan text) form, surroundings.files⟩
  | .listKeywords form =>
      after = ⟨entryListing tools.table.sortedEntries form, surroundings.files⟩

/-- An invocation has delivered what it was asked for. -/
def Invocation.Delivers (invocation : Invocation) (surroundings : Surroundings)
    (after : Delivery) : Prop :=
  ∃ settings table, invocation.settings surroundings.files = .ok settings ∧
    settings.keywordTable surroundings.files = .ok table ∧
      invocation.command.Delivers ⟨table, settings.formatting⟩ surroundings after

section Runs

variable {surroundings : Surroundings} {after : Delivery}

theorem run_deliver_eq_ok_iff {files : FileTree} {source : Source} {text result : Text}
    {destination : Destination} :
    (destination.deliver source text result).run ⟨[], files⟩ = .ok () after ↔
      destination.Receives files source text result after := by
  cases destination with
  | standardOutput => exact run_printText_eq_ok_iff
  | file path =>
      rw [Destination.deliver, Destination.Receives, run_writeFile_eq_ok_iff, writes_iff]
      exact and_comm
  | source =>
      cases source with
      | standardInput =>
          refine iff_of_false (fun run => ?_) ?_
          · contradiction
          · rintro ⟨path, file, -⟩
            contradiction
      | file path =>
          simp only [Destination.deliver, Destination.Receives, Source.file.injEq,
            exists_eq_left']
          by_cases same : result = text
          · rw [if_pos same, if_pos same]
            change EStateM.Result.ok () (Delivery.mk [] files) = .ok () after ↔ _
            grind [Delivery]
          · rw [if_neg same, if_neg same, run_writeFile_eq_ok_iff, writes_iff]
            exact and_comm

theorem run_command_eq_ok_iff {tools : Tools} {command : Command} :
    (command.run tools surroundings.standardInput).run ⟨[], surroundings.files⟩ = .ok () after ↔
      command.Delivers tools surroundings after := by
  cases command with
  | convert conversion source destination =>
      simp only [Command.run, run_bind_eq_ok_iff, run_read_eq_ok_iff, run_orFail_eq_ok_iff,
        apply_eq_ok_iff, Command.Delivers]
      constructor
      · rintro ⟨text, _, ⟨read, rfl⟩, result, _, ⟨⟨applied, fits⟩, rfl⟩, delivered⟩
        exact ⟨text, result, read, applied, fits, run_deliver_eq_ok_iff.1 delivered⟩
      · rintro ⟨text, result, read, applied, fits, received⟩
        exact ⟨text, _, ⟨read, rfl⟩, result, _, ⟨⟨applied, fits⟩, rfl⟩,
          run_deliver_eq_ok_iff.2 received⟩
  | listSpans source form =>
      simp only [Command.run, run_bind_eq_ok_iff, run_read_eq_ok_iff, Command.Delivers]
      constructor
      · rintro ⟨text, _, ⟨read, rfl⟩, printed⟩
        exact ⟨text, read, run_printText_eq_ok_iff.1 printed⟩
      · rintro ⟨text, read, printed⟩
        exact ⟨text, _, ⟨read, rfl⟩, run_printText_eq_ok_iff.2 printed⟩
  | listKeywords form => exact run_printText_eq_ok_iff

theorem run_convert (tools : Tools) {conversion : Conversion} {source : Source}
    {destination : Destination} {input : FileContent} {before : Delivery} {text : Text}
    (holds : source.text input before.files = .ok text) :
    (Command.run tools input (.convert conversion source destination)).run before =
      (orFail (conversion.apply tools text) .overflow >>= fun result =>
        destination.deliver source text result).run before :=
  run_bind_of_ok (run_read_eq_ok_iff.2 ⟨holds, rfl⟩)

theorem run_listSpans (tools : Tools) {source : Source} {form : ListingForm}
    {input : FileContent} {before : Delivery} {text : Text}
    (holds : source.text input before.files = .ok text) :
    (Command.run tools input (.listSpans source form)).run before =
      (printText (spanListing (scan text) form)).run before :=
  run_bind_of_ok (run_read_eq_ok_iff.2 ⟨holds, rfl⟩)

/-- Only a result that goes into its source depends on where that is. -/
theorem deliver_congr {destination : Destination} (elsewhere : destination ≠ .source)
    (source other : Source) (text result : Text) :
    destination.deliver other text result = destination.deliver source text result := by
  cases destination with
  | source => contradiction
  | standardOutput | file path => rfl

theorem run_tools_eq_ok_iff {invocation : Invocation} {before : Delivery} {tools : Tools} :
    invocation.tools.run before = .ok tools after ↔ after = before ∧
      ∃ settings table, invocation.settings before.files = .ok settings ∧
        settings.keywordTable before.files = .ok table ∧
          tools = ⟨table, settings.formatting⟩ := by
  rw [Invocation.tools, run_bind_of_ok run_get]
  simp only [run_bind_eq_ok_iff, run_orFail_eq_ok_iff]
  constructor
  · rintro ⟨settings, _, ⟨loaded, rfl⟩, table, _, ⟨found, rfl⟩, ends⟩
    obtain ⟨rfl, rfl⟩ := EStateM.Result.ok.inj ends
    exact ⟨rfl, settings, table, loaded, found, rfl⟩
  · rintro ⟨rfl, settings, table, loaded, found, rfl⟩
    exact ⟨settings, _, ⟨loaded, rfl⟩, table, _, ⟨found, rfl⟩, rfl⟩

theorem run_invocation_eq_ok_iff {invocation : Invocation} :
    (invocation.run surroundings.standardInput).run ⟨[], surroundings.files⟩ = .ok () after ↔
      invocation.Delivers surroundings after := by
  rw [Invocation.run, run_bind_eq_ok_iff]
  simp only [run_tools_eq_ok_iff]
  constructor
  · rintro ⟨_, _, ⟨rfl, settings, table, loaded, found, rfl⟩, run⟩
    exact ⟨settings, table, loaded, found, run_command_eq_ok_iff.1 run⟩
  · rintro ⟨settings, table, loaded, found, delivers⟩
    exact ⟨_, _, ⟨rfl, settings, table, loaded, found, rfl⟩, run_command_eq_ok_iff.2 delivers⟩

theorem Invocation.Delivers.unique {invocation : Invocation} {other : Delivery}
    (delivers : invocation.Delivers surroundings after)
    (otherwise : invocation.Delivers surroundings other) : after = other := by
  have run := run_invocation_eq_ok_iff.2 delivers
  rw [run_invocation_eq_ok_iff.2 otherwise] at run
  exact (EStateM.Result.ok.inj run).2.symm

end Runs

/-! ### The whole program -/

theorem CommandError.status_ne_zero (reason : CommandError) : reason.status ≠ 0 := by
  cases reason <;> simp [CommandError.status]

section Program

variable {arguments : List Text} {surroundings : Surroundings} {invocation : Invocation}

/-- A run of an invocation ends with its delivery, or with nothing delivered. -/
theorem runCommandLine_cases (surroundings : Surroundings)
    (read : readArguments arguments = .ok invocation) :
    (∃ after, invocation.Delivers surroundings after ∧
      runCommandLine arguments surroundings = ⟨0, after.output, [], after.files⟩) ∨
    (∀ after, ¬invocation.Delivers surroundings after) ∧
      ∃ reason : CommandError, runCommandLine arguments surroundings =
        ⟨reason.status, [], (reason.message ++ "\n").toList, surroundings.files⟩ := by
  unfold runCommandLine
  rw [read]
  dsimp only
  cases run : (invocation.run surroundings.standardInput).run ⟨[], surroundings.files⟩ with
  | ok value after => exact .inl ⟨after, run_invocation_eq_ok_iff.1 run, rfl⟩
  | error reason after =>
      obtain rfl := invocation.allOrNothing_run _ _ _ _ run
      refine .inr ⟨fun after delivers => ?_, reason, rfl⟩
      rw [run_invocation_eq_ok_iff.2 delivers] at run
      contradiction

/-- Invocations that differ in their commands alone come to the same if the commands do. -/
theorem runCommandLine_congr {others : List Text} {command other : Command} {input : FileContent}
    (read : readArguments arguments = .ok { invocation with command := command })
    (readOthers : readArguments others = .ok { invocation with command := other })
    (same : ∀ tools : Tools, (other.run tools input).run ⟨[], surroundings.files⟩ =
      (command.run tools surroundings.standardInput).run ⟨[], surroundings.files⟩) :
    runCommandLine others ⟨surroundings.files, input⟩ = runCommandLine arguments surroundings := by
  have sameTools (command : Command) :
      ({ invocation with command := command } : Invocation).tools = invocation.tools := rfl
  simp only [runCommandLine, read, readOthers, Invocation.run, sameTools]
  rcases onlyReads_tools invocation ⟨[], surroundings.files⟩ with ⟨tools, run⟩ | ⟨reason, run⟩
  · rw [run_bind_of_ok run, run_bind_of_ok run, same]
  · rw [run_bind_of_error run, run_bind_of_error run]

end Program

end Bilingual

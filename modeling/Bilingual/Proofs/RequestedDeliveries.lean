import Bilingual.Proofs.DeliveredResults
import Bilingual.Proofs.RequestedSettings

/-!
# What a command line delivers

What a run delivers is said by its arguments: the command, the settings, the table and the
source, and the one place for the result.  The main statement is `runCommandLine_delivers`,
for all arguments and whatever they meet: a run delivers just that, or leaves everything as
it was and says so by its status.
-/

namespace Bilingual

/-- The text that a path names.  A hyphen is the standard input. -/
def Surroundings.text (surroundings : Surroundings) (path : Text) : Except FileError Text :=
  if path = ['-'] then FileTree.textOf surroundings.standardInput
  else surroundings.files.read path

/-- A conversion of a text has a result, and the numbers that are met in it fit. -/
def CommandName.Makes (tools : Tools) (text result : Text) : CommandName → Prop
  | .format => tools.pipeline.formatLocalized text = .ok result ∧
      LinesFit tools.rules (.ofWidth tools.rules.indentWidth)
        (logicalLines (Bilingual.toStandard tools.table text))
  | .toStandard => tools.pipeline.toStandard text = result
  | .toLocalized => tools.pipeline.toLocalized text = result
  | .scan | .keywords => False

namespace Request

/-- The result for the text at a path has gone to the one place that the options name, and
nothing else has changed: to the file that is given for the output, or else into the source if
that is to be done in place, or else to the standard output. -/
def Receives (request : Request) (before : FileTree) (path text result : Text)
    (after : Delivery) : Prop :=
  match valueOf? request.back .output with
  | some target => after.output = [] ∧ before.Writes target result after.files
  | none =>
      if isGiven request.back .inPlace then
        path ≠ ['-'] ∧ after.output = [] ∧
          if result = text then after.files = before else before.Writes path result after.files
      else after = ⟨result, before⟩

/-- What was asked for has been delivered, with a given table and given rules. -/
def DeliversWith (request : Request) (tools : Tools) (surroundings : Surroundings)
    (after : Delivery) : Prop :=
  match request.name, request.source with
  | .keywords, _ =>
      after = ⟨entryListing tools.table.sortedEntries request.form, surroundings.files⟩
  | _, none => False
  | .scan, some path => ∃ text, surroundings.text path = .ok text ∧
      after = ⟨spanListing (scan text) request.form, surroundings.files⟩
  | conversion, some path => ∃ text result, surroundings.text path = .ok text ∧
      conversion.Makes tools text result ∧
        request.Receives surroundings.files path text result after

/-- What was asked for has been delivered.  The table is that of the file in the settings, or
else the built-in one. -/
def Delivers (request : Request) (surroundings : Surroundings) (after : Delivery) : Prop :=
  ∃ settings table, request.Settles surroundings.files settings ∧
    (match settings.tableFile with
      | some path => KeywordTable.ofFile surroundings.files path = .ok table
      | none => table = .builtin) ∧
    request.DeliversWith ⟨table, settings.formatting⟩ surroundings after

section Delivery

variable {request : Request} {surroundings : Surroundings} {after : Delivery}

theorem text_ofText (path : Text) :
    (Source.ofText path).text surroundings.standardInput surroundings.files =
      surroundings.text path := by
  unfold Source.ofText Surroundings.text
  split <;> rfl

theorem receives_iff {path text result : Text} :
    request.destination.Receives surroundings.files (Source.ofText path) text result after ↔
      request.Receives surroundings.files path text result after := by
  unfold Request.destination Request.Receives
  cases valueOf? request.back .output with
  | some target => rfl
  | none =>
      cases isGiven request.back .inPlace with
      | false => rfl
      | true =>
          by_cases hyphen : path = ['-']
          · simp [Destination.Receives, Source.ofText, hyphen]
          · simp [Destination.Receives, Source.ofText, hyphen]

theorem command_delivers_iff (proper : request.IsProper) {tools : Tools} :
    request.command.Delivers tools surroundings after ↔
      request.DeliversWith tools surroundings after := by
  have sourced := proper.source
  unfold command DeliversWith
  cases name : request.name with
  | keywords => rfl
  | format | toStandard | toLocalized | scan =>
      rw [name] at sourced
      obtain ⟨path, source⟩ := Option.isSome_iff_exists.1 sourced
      simp [Command.Delivers, source, text_ofText, receives_iff, CommandName.Makes,
        Conversion.resultOf, Conversion.Fits, and_assoc]

theorem keywordTable_eq_ok_iff {settings : Settings} {tree : FileTree} {table : KeywordTable} :
    settings.keywordTable tree = .ok table ↔
      match settings.tableFile with
      | some path => KeywordTable.ofFile tree path = .ok table
      | none => table = .builtin := by
  unfold Settings.keywordTable
  cases settings.tableFile with
  | none => simpa using eq_comm
  | some path => rfl

theorem delivers_iff (proper : request.IsProper) :
    request.invocation.Delivers surroundings after ↔ request.Delivers surroundings after := by
  simp only [Invocation.Delivers, Request.Delivers, settles_iff, keywordTable_eq_ok_iff]
  exact exists₂_congr fun settings table =>
    and_congr_right fun _ => and_congr_right fun _ => command_delivers_iff proper

/-- The source of a command matters through its text only, unless a result goes into it. -/
theorem run_command_congr {path other text : Text} {input : FileContent} {tools : Tools}
    (source : request.source = some path) (elsewhere : isGiven request.back .inPlace = false)
    (holds : surroundings.text path = .ok text)
    (otherHolds : Surroundings.text ⟨surroundings.files, input⟩ other = .ok text) :
    ((command { request with source := some other }).run tools input).run
        ⟨[], surroundings.files⟩ =
      (request.command.run tools surroundings.standardInput).run ⟨[], surroundings.files⟩ := by
  have reads : (Source.ofText path).text surroundings.standardInput surroundings.files = .ok text :=
    (text_ofText path).trans holds
  have readsOther : (Source.ofText other).text input surroundings.files = .ok text :=
    (@text_ofText ⟨surroundings.files, input⟩ other).trans otherHolds
  have notInPlace : request.destination ≠ .source := by
    rw [destination, elsewhere]
    cases valueOf? request.back .output <;> simp
  have sameDelivery : request.destination.deliver (Source.ofText other) text =
      request.destination.deliver (Source.ofText path) text :=
    funext fun result => deliver_congr notInPlace _ _ text result
  unfold command
  dsimp only
  rw [source]
  cases request.name with
  | format | toStandard | toLocalized =>
      refine (run_convert tools readsOther).trans (.trans ?_ (run_convert tools reads).symm)
      exact congrArg (fun next => (orFail _ CommandError.overflow >>= next).run _) sameDelivery
  | scan => exact (run_listSpans tools readsOther).trans (run_listSpans tools reads).symm
  | keywords => rfl

end Delivery

end Request

/-! ### Whole runs -/

/-- The arguments ask for the version or for help. -/
def AsksForInformation (arguments : List Text) : Prop :=
  readArguments arguments = .error .version ∨ readArguments arguments = .error .help

/-- A run that does not end with status 0 has printed nothing on the standard output and has
left all files as they were.  One that ends with status 0 was asked by a request that is written
in its arguments, or has only told the version or the help.  A run for a request ends so exactly
if what the request asks for can be delivered, and has delivered just that.  Two sources of the
same text come to the same, unless the results go into them. -/
theorem runCommandLine_delivers (arguments : List Text) (surroundings : Surroundings) :
    ((runCommandLine arguments surroundings).status ≠ 0 →
      (runCommandLine arguments surroundings).output = [] ∧
        (runCommandLine arguments surroundings).files = surroundings.files) ∧
    ((runCommandLine arguments surroundings).status = 0 →
      (∃ request : Request, request.IsWritten arguments ∧ request.IsProper) ∨
        AsksForInformation arguments ∧
          (runCommandLine arguments surroundings).files = surroundings.files) ∧
    (∀ request : Request, request.IsWritten arguments → request.IsProper → ∀ after : Delivery,
      (runCommandLine arguments surroundings).status = 0 ∧
          (runCommandLine arguments surroundings).output = after.output ∧
          (runCommandLine arguments surroundings).files = after.files ↔
        request.Delivers surroundings after) ∧
    ∀ (request : Request) (others : List Text) (input : FileContent) (path other text : Text),
      request.IsWritten arguments → request.IsProper →
        Request.IsWritten { request with source := some other } others →
        request.source = some path → isGiven request.back .inPlace = false →
        surroundings.text path = .ok text →
        Surroundings.text ⟨surroundings.files, input⟩ other = .ok text →
        runCommandLine others ⟨surroundings.files, input⟩ =
          runCommandLine arguments surroundings := by
  refine ⟨fun failed => ?_, fun ended => ?_, fun request written proper after => ?_, ?_⟩
  · cases read : readArguments arguments with
    | error reason =>
        cases reason with
        | refused => simp [runCommandLine, read]
        | version | help => simp [runCommandLine, read] at failed
    | ok invocation =>
        rcases runCommandLine_cases surroundings read with
          ⟨after, -, outcome⟩ | ⟨-, reason, outcome⟩
        · rw [outcome] at failed
          contradiction
        · rw [outcome]
          exact ⟨rfl, rfl⟩
  · cases read : readArguments arguments with
    | error reason =>
        cases reason with
        | refused => simp [runCommandLine, read] at ended
        | version => exact .inr ⟨.inl read, by simp [runCommandLine, read]⟩
        | help => exact .inr ⟨.inr read, by simp [runCommandLine, read]⟩
    | ok invocation =>
        obtain ⟨request, written, proper, -⟩ := readArguments_eq_ok_iff.1 read
        exact .inl ⟨request, written, proper⟩
  · rw [← Request.delivers_iff proper]
    rcases runCommandLine_cases surroundings (written.readArguments proper) with
      ⟨done, delivers, outcome⟩ | ⟨nothing, reason, outcome⟩
    · rw [outcome]
      constructor
      · rintro ⟨-, output, files⟩
        obtain rfl : done = after := Delivery.ext output files
        exact delivers
      · intro otherwise
        obtain rfl := delivers.unique otherwise
        exact ⟨rfl, rfl, rfl⟩
    · rw [outcome]
      exact iff_of_false (fun ended => reason.status_ne_zero ended.1) (nothing after)
  · intro request others input path other text written proper writtenOthers source elsewhere
      holds otherHolds
    have properOthers : Request.IsProper { request with source := some other } :=
      ⟨proper.front, proper.back, proper.oneSink, by rw [← proper.source, source]; rfl⟩
    exact @runCommandLine_congr arguments surroundings request.invocation others request.command
      _ input (written.readArguments proper) (writtenOthers.readArguments properOthers)
      fun tools => Request.run_command_congr source elsewhere holds otherHolds

/-- A directory with a source, settings and a keyword table. -/
def smallDirectory : FileTree :=
  (FileTree.empty ["work".toList]).putAll
    [("a".toList, .text "if x:\n  f(a,b)".toList),
      ("c.toml".toList, .text "[formatting]\nindent_width = 2\nspace_after_comma = true".toList),
      ("k.json".toList, .text
        "\x7b\"keywords\":[\x7b\"localized\":\"si\",\"standard\":\"if\"\x7d]\x7d".toList)]

/-- The table in that directory. -/
def smallTable : KeywordTable where
  entries := [⟨"si".toList, "if".toList⟩]
  isSingleWord_localized := by decide +kernel
  isSingleWord_standard := by decide +kernel
  nodup_localized := by decide
  nodup_standard := by decide

theorem ofFile_smallDirectory :
    KeywordTable.ofFile smallDirectory "k.json".toList = .ok smallTable := by
  have entries : (KeywordTable.ofFile smallDirectory "k.json".toList).map KeywordTable.entries =
      .ok smallTable.entries := by decide +kernel
  obtain ⟨table, found, same⟩ := map_eq_ok_iff.1 entries
  rw [found]
  cases table
  cases same
  rfl

theorem runCommandLine_fileOrInput :
    let source := "if x:\n  f(a,b)".toList
    let arguments := ["--config=c.toml", "--keywords=k.json", "format", "--indent-width=3",
      "--output=b", "--", "a"].map String.toList
    let others := ["--config=c.toml", "--keywords=k.json", "format", "--indent-width=3",
      "--output=b", "--", "-"].map String.toList
    let inPlace := ["-k", "k.json", "format", "-w", "a"].map String.toList
    let localizing := ["to-localized", "-kk.json", "a"].map String.toList
    let standardizing := ["to-standard", "a", "-kk.json"].map String.toList
    let outcome := runCommandLine arguments ⟨smallDirectory, .text []⟩
    outcome.status = 0 ∧ outcome.output = [] ∧
      outcome.files =
        smallDirectory.put ["work".toList, "b".toList] (.text "si x:\n   f(a, b)".toList) ∧
      runCommandLine others ⟨smallDirectory, .text source⟩ = outcome ∧
      runCommandLine inPlace ⟨smallDirectory, .text []⟩ =
        ⟨0, [], [], smallDirectory.put ["work".toList, "a".toList]
          (.text "si x:\n    f(a,b)".toList)⟩ ∧
      runCommandLine localizing ⟨smallDirectory, .text []⟩ =
        ⟨0, "si x:\n  f(a,b)".toList, [], smallDirectory⟩ ∧
      runCommandLine standardizing ⟨smallDirectory, .text []⟩ = ⟨0, source, [], smallDirectory⟩ := by
  intro source arguments others inPlace localizing standardizing outcome
  let request : Request :=
    ⟨[⟨.config, some "c.toml".toList⟩, ⟨.keywords, some "k.json".toList⟩], .format,
      [⟨.indentWidth, some "3".toList⟩, ⟨.output, some "b".toList⟩], some "a".toList⟩
  have written : request.IsWritten arguments := Request.isWritten_arguments (by decide) (by decide)
  have writtenOthers : Request.IsWritten { request with source := some ['-'] } others :=
    Request.isWritten_arguments (by decide) (by decide)
  have proper : request.IsProper := by decide +kernel
  obtain ⟨-, -, delivers, same⟩ :=
    runCommandLine_delivers arguments ⟨smallDirectory, .text []⟩
  have settles : request.Settles smallDirectory
      ⟨⟨3, true, false, true⟩, some "k.json".toList⟩ :=
    Request.settles_iff.2 (by decide +kernel)
  have formatted : Conversion.apply ⟨smallTable, ⟨3, true, false, true⟩⟩ source .format =
      .ok "si x:\n   f(a, b)".toList := by decide +kernel
  have delivered : request.Delivers ⟨smallDirectory, .text []⟩ ⟨[], _⟩ :=
    ⟨_, smallTable, settles, ofFile_smallDirectory, _, _, rfl,
      apply_eq_ok_iff.1 formatted, rfl, writes_iff.2 rfl⟩
  obtain ⟨status, output, files⟩ := (delivers request written proper _).2 delivered
  exact ⟨status, output, files,
    same request others _ _ _ _ written proper writtenOthers rfl rfl rfl rfl,
    by decide +kernel, by decide +kernel, by decide +kernel⟩

end Bilingual

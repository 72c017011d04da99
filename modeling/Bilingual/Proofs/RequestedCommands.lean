import Bilingual.Proofs.CommandTails

/-!
# Command lines

A command line that can be run has options in front of the name of a command, and behind it
options and a source.  The main statement is `readArguments_eq_ok_iff`: arguments are read
as an invocation exactly if they are written as such a request, and the invocation is the one
that its options say.  `readArguments_arguments` is the case of the plainest spelling.  Options
and a word that ask for the version or for help are answered in place of a command.
-/

namespace Bilingual

/-- What a command line says: options in front of the name of a command, the name, and behind
it options and the path of a source. -/
structure Request where
  front : List GivenOption
  name : CommandName
  back : List GivenOption
  source : Option Text
  deriving DecidableEq, Repr

namespace Request

/-- The arguments are written as the request. -/
def IsWritten (request : Request) (arguments : List Text) : Prop :=
  ∃ texts others, arguments = texts ++ request.name.word.toList :: others ∧
    GivesAll (CommandOption.known none) texts request.front ∧
      Continues (CommandOption.known (some request.name)) others request.back request.source

/-- The options go together, and there is a source if the command takes one. -/
structure IsProper (request : Request) : Prop where
  front : AreAccepted request.front
  back : AreAccepted request.back
  oneSink : valueOf? request.back .output = none ∨ isGiven request.back .inPlace = false
  source : request.source.isSome = request.name.takesSource

instance (request : Request) : Decidable request.IsProper :=
  decidable_of_iff (AreAccepted request.front ∧ AreAccepted request.back ∧
      (valueOf? request.back .output = none ∨ isGiven request.back .inPlace = false) ∧
        request.source.isSome = request.name.takesSource)
    ⟨fun holds => ⟨holds.1, holds.2.1, holds.2.2.1, holds.2.2.2⟩,
      fun proper => ⟨proper.front, proper.back, proper.oneSink, proper.source⟩⟩

/-- The value of an option.  One behind the command wins over one in front of it. -/
def value? (request : Request) (option : CommandOption) : Option Text :=
  (valueOf? request.back option).or (valueOf? request.front option)

/-- The form of a listing. -/
def form (request : Request) : ListingForm :=
  ((valueOf? request.back .listing).bind ListingForm.ofText?).getD .simple

/-- Where the result of a conversion goes. -/
def destination (request : Request) : Destination :=
  match valueOf? request.back .output with
  | some path => .file path
  | none => if isGiven request.back .inPlace then .source else .standardOutput

/-- The command with what it needs. -/
def command (request : Request) : Command :=
  let source := Source.ofText (request.source.getD [])
  match request.name with
  | .format => .convert .format source request.destination
  | .toStandard => .convert .toStandard source request.destination
  | .toLocalized => .convert .toLocalized source request.destination
  | .scan => .listSpans source request.form
  | .keywords => .listKeywords request.form

/-- The invocation that a request says. -/
def invocation (request : Request) : Invocation where
  settingsFile := request.value? .config
  tableFile := request.value? .keywords
  indentWidth := (request.value? .indentWidth).bind indentWidth?
  command := request.command

end Request

/-! ### What the arguments ask for -/

namespace ArgumentState

section Finish

variable {request : Request} {ended : Bool}

/-- The state in which the arguments of a request leave the reader. -/
abbrev ofRequest (request : Request) (ended : Bool) : ArgumentState :=
  behind (.ofGiven request.front) request.name request.back request.source ended

theorem destination_ofRequest_eq_ok_iff {destination : Destination} :
    (ofRequest request ended).destination = .ok destination ↔
      (valueOf? request.back .output = none ∨ isGiven request.back .inPlace = false) ∧
        destination = request.destination := by
  unfold ArgumentState.destination Request.destination ofRequest behind OptionValues.ofGiven
  dsimp only
  cases valueOf? request.back .output <;> cases isGiven request.back .inPlace <;>
    simp [eq_comm]

theorem map_destination_ofRequest_eq_ok_iff {convert : Destination → Command}
    {command : Command} :
    (ofRequest request ended).destination.map convert = .ok command ↔
      (valueOf? request.back .output = none ∨ isGiven request.back .inPlace = false) ∧
        command = convert request.destination := by
  simp only [map_eq_ok_iff, destination_ofRequest_eq_ok_iff]
  constructor
  · rintro ⟨_, ⟨oneSink, rfl⟩, rfl⟩
    exact ⟨oneSink, rfl⟩
  · rintro ⟨oneSink, rfl⟩
    exact ⟨_, ⟨oneSink, rfl⟩, rfl⟩

/-- Commands that do not convert know no place for a result. -/
theorem valueOf?_output_eq_none {given : List GivenOption} {name : CommandName}
    (belong : ∀ one ∈ given, one.BelongsTo (CommandOption.known (some name)))
    (lists : name = .scan ∨ name = .keywords) : valueOf? given .output = none := by
  refine valueOf?_eq_none (isGiven_eq_false_of_not_mem belong ?_)
  obtain rfl | rfl := lists <;> decide

section Complete

variable (belong : ∀ one ∈ request.back, one.BelongsTo (CommandOption.known (some request.name)))
  (takes : request.source.isSome = true → request.name.takesSource = true)

include belong takes

theorem finishedCommand_ofRequest_eq_ok_iff {command : Command} :
    (ofRequest request ended).finishedCommand = .ok command ↔
      ((valueOf? request.back .output = none ∨ isGiven request.back .inPlace = false) ∧
        request.source.isSome = request.name.takesSource) ∧ command = request.command := by
  obtain ⟨front, name, back, source⟩ := request
  cases source with
  | none =>
      cases name with
      | format | toStandard | toLocalized | scan =>
          refine iff_of_false (fun same => by contradiction) ?_
          rintro ⟨⟨-, source⟩, -⟩
          contradiction
      | keywords =>
          have noSink := valueOf?_output_eq_none belong (.inr rfl)
          change Except.ok (Request.command ⟨front, .keywords, back, none⟩) = .ok command ↔ _
          simpa [noSink, CommandName.takesSource] using eq_comm
  | some path =>
      cases name with
      | format | toStandard | toLocalized =>
          refine map_destination_ofRequest_eq_ok_iff.trans ?_
          simp [CommandName.takesSource, Request.command]
      | scan =>
          have noSink := valueOf?_output_eq_none belong (.inl rfl)
          change Except.ok (Request.command ⟨front, .scan, back, some path⟩) = .ok command ↔ _
          simpa [noSink, CommandName.takesSource] using eq_comm
      | keywords =>
          have takes := takes rfl
          contradiction

theorem finish_ofRequest_eq_ok_iff {invocation : Invocation} (back : AreAccepted request.back) :
    (ofRequest request ended).finish = .ok invocation ↔
      ((valueOf? request.back .output = none ∨ isGiven request.back .inPlace = false) ∧
        request.source.isSome = request.name.takesSource) ∧ invocation = request.invocation := by
  -- A width that is given is a number, so the one in front is never a way out of a bad one.
  have width : ((valueOf? request.back .indentWidth).bind indentWidth? <|>
      (valueOf? request.front .indentWidth).bind indentWidth?) =
        (request.value? .indentWidth).bind indentWidth? := by
    rw [Request.value?]
    cases found : valueOf? request.back .indentWidth with
    | none => rfl
    | some value =>
        obtain ⟨width, set⟩ := Option.isSome_iff_exists.1 (suits_of_valueOf? back.suits rfl found)
        replace set : indentWidth? value = some width := set
        rw [Option.bind_some, Option.some_or, Option.bind_some, set]
        rfl
  have same (command : Command) : Invocation.mk
      (valueOf? request.back .config <|> valueOf? request.front .config)
      (valueOf? request.back .keywords <|> valueOf? request.front .keywords)
      ((valueOf? request.back .indentWidth).bind indentWidth? <|>
        (valueOf? request.front .indentWidth).bind indentWidth?) command =
        { request.invocation with command := command } := by
    simp only [width, Option.orElse_eq_or, Option.orElse_eq_orElse]
    rfl
  change Except.map _ _ = _ ↔ _
  rw [map_eq_ok_iff]
  simp only [finishedCommand_ofRequest_eq_ok_iff belong takes]
  constructor
  · rintro ⟨_, ⟨fits, rfl⟩, rfl⟩
    exact ⟨fits, same request.command⟩
  · rintro ⟨fits, rfl⟩
    exact ⟨_, ⟨fits, rfl⟩, (same request.command).symm⟩

end Complete

end Finish

/-! ### Whole command lines -/

theorem ofText?_eq_some_iff {text : Text} {name : CommandName} :
    CommandName.ofText? text = some name ↔ text = name.word.toList := by
  rw [CommandName.ofText?, find?_eq_some_iff_of_unique, decide_eq_true_eq]
  · exact and_iff_right (by cases name <;> decide)
  · intro other first second
    have same := (of_decide_eq_true first).symm.trans (of_decide_eq_true second)
    revert same
    cases other <;> cases name <;> decide

theorem isPlain_word (name : CommandName) : IsPlain name.word.toList := by
  cases name <;> decide

/-- Options in front of the name of a command. -/
abbrev ofFront (front : List GivenOption) : ArgumentState :=
  { initial with values := .ofGiven front }

theorem isIdle_ofFront (front : List GivenOption) : (ofFront front).IsIdle :=
  ⟨rfl, rfl, rfl⟩

theorem foldlM_front {texts : List Text} {front : List GivenOption}
    (options : GivesAll (CommandOption.known none) texts front) (accepted : AreAccepted front) :
    texts.foldlM step initial = .ok (ofFront front) :=
  ((isIdle_ofFront []).foldlM_step_eq_ok_iff areAccepted_nil rfl options).2 ⟨accepted, rfl⟩

theorem step_word (front : List GivenOption) (name : CommandName) :
    (ofFront front).step name.word.toList = .ok (behind (.ofGiven front) name [] none false) := by
  rw [(isIdle_ofFront front).step_eq, ofText_eq_plain_iff.2 ⟨rfl, isPlain_word name⟩]
  change withPlain _ _ = _
  unfold withPlain
  dsimp only [ofFront, initial]
  rw [ofText?_eq_some_iff.2 rfl]
  rfl

/-- Who asks for help gets nothing else. -/
theorem topics_ne_none {state next : ArgumentState} {arguments : List Text}
    (asks : state.topics ≠ none) (read : arguments.foldlM step state = .ok next) :
    next.topics ≠ none := by
  induction arguments generalizing state with
  | nil =>
      rw [← Except.ok.inj read]
      exact asks
  | cons argument arguments induction =>
      obtain ⟨between, first, read⟩ := foldlM_cons_eq_ok_iff.1 read
      refine induction ?_ read
      obtain ⟨topics, some⟩ := Option.ne_none_iff_exists'.1 asks
      rw [step, some] at first
      rw [← Except.ok.inj first]
      exact Option.some_ne_none _

theorem topics_eq_none_of_finish {state : ArgumentState} {invocation : Invocation}
    (finish : state.finish = .ok invocation) : state.topics = none := by
  rw [ArgumentState.finish] at finish
  cases topics : state.topics with
  | none => rfl
  | some topics =>
      rw [topics] at finish
      contradiction

theorem awaiting_eq_none_of_finish {state : ArgumentState} {invocation : Invocation}
    (finish : state.finish = .ok invocation) : state.awaiting = none := by
  rw [ArgumentState.finish, topics_eq_none_of_finish finish] at finish
  cases awaiting : state.awaiting with
  | none => rfl
  | some option =>
      rw [awaiting] at finish
      contradiction

/-- Without the name of a command there is nothing to run. -/
theorem exists_word {front : List GivenOption} {arguments : List Text} {next : ArgumentState}
    {invocation : Invocation} (read : arguments.foldlM step (ofFront front) = .ok next)
    (stops : ∀ argument ∈ arguments.head?, IsPlain argument ∨ argument = ['-', '-'])
    (finish : next.finish = .ok invocation) :
    ∃ (name : CommandName) (rest : List Text), arguments = name.word.toList :: rest ∧
      rest.foldlM step (behind (.ofGiven front) name [] none false) = .ok next := by
  cases arguments with
  | nil =>
      rw [← Except.ok.inj read] at finish
      contradiction
  | cons argument rest =>
  obtain ⟨between, first, others⟩ := foldlM_cons_eq_ok_iff.1 read
  rw [(isIdle_ofFront front).step_eq] at first
  obtain plain | rfl := stops argument rfl
  · rw [ofText_eq_plain_iff.2 ⟨rfl, plain⟩] at first
    replace first : (ofFront front).withPlain argument = .ok between := first
    cases word : CommandName.ofText? argument with
    | some name =>
        obtain rfl := ofText?_eq_some_iff.1 word
        have step := step_word front name
        rw [(isIdle_ofFront front).step_eq, ofText_eq_plain_iff.2 ⟨rfl, plain⟩] at step
        obtain rfl := Except.ok.inj (step.symm.trans first)
        exact ⟨name, rest, rfl, others⟩
    | none =>
        rw [withPlain] at first
        dsimp only [ofFront, initial] at first
        rw [word] at first
        dsimp only at first
        split at first
        -- The word for help: whoever asks for it gets no invocation in the end.
        · have asks := topics_ne_none (by rw [← Except.ok.inj first]; simp) others
          exact absurd (topics_eq_none_of_finish finish) asks
        · contradiction
  · replace first : .ok { ofFront front with optionsEnded := true } = Except.ok between := first
    rw [← Except.ok.inj first] at others
    cases rest with
    | nil =>
        rw [← Except.ok.inj others] at finish
        contradiction
    | cons another rest =>
        obtain ⟨_, second, -⟩ := foldlM_cons_eq_ok_iff.1 others
        contradiction

end ArgumentState

section Reading

open ArgumentState

variable {arguments : List Text} {invocation : Invocation}

theorem readArguments_eq_ok_iff_finish : readArguments arguments = .ok invocation ↔
    ∃ state, arguments.foldlM step initial = .ok state ∧ state.finish = .ok invocation := by
  rw [readArguments]
  cases arguments.foldlM step initial <;> simp [Except.bind]

theorem exists_request_of_readArguments (read : readArguments arguments = .ok invocation) :
    ∃ request : Request, request.IsWritten arguments ∧ request.IsProper ∧
      invocation = request.invocation := by
  obtain ⟨state, read, finish⟩ := readArguments_eq_ok_iff_finish.1 read
  have done := awaiting_eq_none_of_finish finish
  obtain ⟨texts, front, rest, rfl, options, accepted, behindFront, stops⟩ :=
    (isIdle_ofFront []).exists_options areAccepted_nil rfl read done
  obtain ⟨name, others, rfl, behindName⟩ := exists_word behindFront stops finish
  obtain ⟨back, source, ended, continues, backAccepted, takes, rfl⟩ :=
    exists_continues behindName done
  have belong := continues.belongsTo
  obtain ⟨⟨oneSink, sourced⟩, rfl⟩ :=
    (@finish_ofRequest_eq_ok_iff ⟨front, name, back, source⟩ ended belong takes invocation
      backAccepted).1 finish
  exact ⟨⟨front, name, back, source⟩, ⟨texts, others, rfl, options, continues⟩,
    ⟨accepted, backAccepted, oneSink, sourced⟩, rfl⟩

theorem Request.IsWritten.readArguments {request : Request} (written : request.IsWritten arguments)
    (proper : request.IsProper) : readArguments arguments = .ok request.invocation := by
  obtain ⟨texts, others, rfl, options, continues⟩ := written
  have takes : request.source.isSome = true → request.name.takesSource = true := by
    rw [proper.source]
    exact id
  have front := foldlM_front options proper.front
  obtain ⟨ended, back⟩ := exists_foldlM_of_continues continues proper.back takes
  refine readArguments_eq_ok_iff_finish.2 ⟨ofRequest request ended, ?_, ?_⟩
  · exact foldlM_append_eq_ok_iff.2
      ⟨_, front, foldlM_cons_eq_ok_iff.2 ⟨_, step_word request.front request.name, back⟩⟩
  · exact (finish_ofRequest_eq_ok_iff continues.belongsTo takes proper.back).2
      ⟨⟨proper.oneSink, proper.source⟩, rfl⟩

/-- Arguments are read as an invocation exactly if they are written as a proper request, and
the invocation is what the request says. -/
theorem readArguments_eq_ok_iff : readArguments arguments = .ok invocation ↔
    ∃ request : Request, request.IsWritten arguments ∧ request.IsProper ∧
      invocation = request.invocation := by
  refine ⟨exists_request_of_readArguments, ?_⟩
  rintro ⟨request, written, proper, rfl⟩
  exact written.readArguments proper

end Reading

/-! ### The version and help -/

/-- What an option asks for in place of a command. -/
def CommandOption.asks? : CommandOption → Option NoInvocation
  | .version => some .version
  | .help => some .help
  | _ => none

section Information

open ArgumentState

variable {texts rest : List Text} {front : List GivenOption}
  {option : CommandOption} {reason : NoInvocation}

theorem step_asks {state : ArgumentState} (idle : state.IsIdle)
    (mem : option ∈ CommandOption.known state.command) (asks : option.asks? = some reason) :
    state.step option.long = .error reason := by
  rw [idle.step_eq, ofText_long]
  dsimp only
  rw [withLong_of_mem mem]
  cases option with
  | version | help =>
      obtain rfl := Option.some.inj asks
      rfl
  | _ => contradiction

/-- Behind options that can be given, an option may ask for something else than a command. -/
theorem readArguments_asks (options : GivesAll (CommandOption.known none) texts front)
    (accepted : AreAccepted front) (mem : option ∈ CommandOption.known none)
    (asks : option.asks? = some reason) :
    readArguments (texts ++ option.long :: rest) = .error reason := by
  have read : (texts ++ option.long :: rest).foldlM step initial = .error reason := by
    rw [List.foldlM_append, foldlM_front options accepted]
    change (ofFront front).step option.long >>= _ = _
    rw [step_asks (isIdle_ofFront front) mem asks]
    rfl
  rw [readArguments, read]
  rfl

theorem foldlM_topics (state : ArgumentState) (earlier topics : List Text) :
    topics.foldlM step { state with topics := some earlier } =
      .ok { state with topics := some (earlier ++ topics) } := by
  induction topics generalizing earlier with
  | nil =>
      rw [List.append_nil]
      rfl
  | cons topic topics induction =>
      refine foldlM_cons_eq_ok_iff.2 ⟨_, rfl, ?_⟩
      rw [induction, List.append_assoc]
      rfl

/-- The word for help stands where a command could, and may be followed by one topic. -/
theorem readArguments_helpWord (options : GivesAll (CommandOption.known none) texts front)
    (accepted : AreAccepted front) (topics : List Text) :
    readArguments (texts ++ helpWord.toList :: topics) =
      .error (if isHelpTopic topics then .help else .refused) := by
  have asks : (ofFront front).step helpWord.toList = .ok { ofFront front with topics := some [] } := by
    rw [(isIdle_ofFront front).step_eq]
    rfl
  have read : (texts ++ helpWord.toList :: topics).foldlM step initial =
      .ok { ofFront front with topics := some topics } :=
    foldlM_append_eq_ok_iff.2 ⟨_, foldlM_front options accepted,
      foldlM_cons_eq_ok_iff.2 ⟨_, asks, foldlM_topics _ [] topics⟩⟩
  rw [readArguments, read]
  rfl

end Information

/-! ### The plainest spelling -/

/-- An option with its long name and its value. -/
def GivenOption.spelled (given : GivenOption) : Text :=
  match given.value with
  | none => given.option.long
  | some value => given.option.long ++ '=' :: value

/-- The plainest arguments for a request: options have their long names, and two hyphens
stand in front of the source. -/
def Request.arguments (request : Request) : List Text :=
  request.front.map GivenOption.spelled ++ request.name.word.toList ::
    (request.back.map GivenOption.spelled ++
      match request.source with
      | none => []
      | some path => [['-', '-'], path])

theorem givesAll_spelled {known : List CommandOption} {given : List GivenOption}
    (belong : ∀ one ∈ given, one.BelongsTo known) :
    GivesAll known (given.map GivenOption.spelled) given := by
  induction given with
  | nil => exact .nil
  | cons one others induction =>
      obtain ⟨⟨mem, formed⟩, rest⟩ := List.forall_mem_cons.1 belong
      have gives : Gives known [one.spelled] [one] := by
        obtain ⟨option, value⟩ := one
        cases value with
        | none => exact .long mem formed.symm
        | some value => exact .equals (.long mem formed.symm)
      exact .append gives (induction rest)

theorem Request.isWritten_arguments {request : Request}
    (front : ∀ one ∈ request.front, one.BelongsTo (CommandOption.known none))
    (back : ∀ one ∈ request.back, one.BelongsTo (CommandOption.known (some request.name))) :
    request.IsWritten request.arguments := by
  refine ⟨_, _, rfl, givesAll_spelled front, ?_⟩
  cases request.source with
  | none => exact .alone (givesAll_spelled back) (.inl rfl)
  | some path => exact .behind (givesAll_spelled back)

/-- Every proper request can be made, whatever its values and its source look like. -/
theorem readArguments_arguments {request : Request} (proper : request.IsProper)
    (front : ∀ one ∈ request.front, one.BelongsTo (CommandOption.known none))
    (back : ∀ one ∈ request.back, one.BelongsTo (CommandOption.known (some request.name))) :
    readArguments request.arguments = .ok request.invocation :=
  (Request.isWritten_arguments front back).readArguments proper

example : readArguments (["-vk", "k.json", "format", "-wktable", "--", "-a"].map String.toList) =
    .ok ⟨none, some "table".toList, none, .convert .format (.file "-a".toList) .source⟩ := by
  decide +kernel

end Bilingual

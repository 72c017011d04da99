import Bilingual.Proofs.GivenOptions

/-!
# Behind the name of a command

Behind the name of a command there are options and at most one source.  Arguments that are
written so are read (`exists_foldlM_of_continues`), and nothing else can be read there
(`exists_continues`).
-/

namespace Bilingual

/-- Nothing, or two hyphens alone. -/
def IsEnding (arguments : List Text) : Prop :=
  arguments = [] ∨ arguments = [['-', '-']]

/-- Arguments behind the name of a command.

* `alone`: they give options.
* `between`: there may be options on both sides of the source.
* `behind`: the source stands behind two hyphens. -/
inductive Continues (known : List CommandOption) :
    List Text → List GivenOption → Option Text → Prop
  | alone {texts ending : List Text} {given : List GivenOption}
      (options : GivesAll known texts given) (ends : IsEnding ending) :
      Continues known (texts ++ ending) given none
  | between {texts others ending : List Text} {given more : List GivenOption} {source : Text}
      (options : GivesAll known texts given) (plain : IsPlain source)
      (rest : GivesAll known others more) (ends : IsEnding ending) :
      Continues known (texts ++ source :: (others ++ ending)) (given ++ more) (some source)
  | behind {texts : List Text} {given : List GivenOption} {source : Text}
      (options : GivesAll known texts given) :
      Continues known (texts ++ [['-', '-'], source]) given (some source)

theorem Continues.belongsTo {known : List CommandOption} {arguments : List Text}
    {given : List GivenOption} {source : Option Text}
    (continues : Continues known arguments given source) :
    ∀ one ∈ given, one.BelongsTo known := by
  cases continues with
  | alone options ends => exact options.belongsTo
  | between options plain rest ends =>
      exact List.forall_mem_append.2 ⟨options.belongsTo, rest.belongsTo⟩
  | behind options => exact options.belongsTo

/-! ### Reading -/

namespace ArgumentState

/-- The name of a command was read, and behind it options and maybe a source and the end of
options. -/
def behind (before : OptionValues) (name : CommandName) (given : List GivenOption)
    (source : Option Text) (ended : Bool) : ArgumentState :=
  ⟨before, some name, .ofGiven given, source, none, ended, none⟩

section Steps

variable {before : OptionValues} {name : CommandName} {given : List GivenOption}
  {source : Option Text} {next : ArgumentState}

theorem isIdle_behind : (behind before name given source false).IsIdle :=
  ⟨rfl, rfl, rfl⟩

theorem withSource_behind_eq_ok_iff {ended : Bool} {path : Text} :
    (behind before name given source ended).withSource path = .ok next ↔
      (source = none ∧ name.takesSource = true) ∧
        next = behind before name given (some path) ended := by
  unfold withSource behind
  cases source with
  | some source => simp
  | none =>
      dsimp only
      cases name.takesSource with
      | true => simpa using eq_comm
      | false => simp

theorem step_plain_behind {path : Text} (plain : IsPlain path) :
    (behind before name given source false).step path =
      (behind before name given source false).withSource path := by
  rw [isIdle_behind.step_eq, ofText_eq_plain_iff.2 ⟨rfl, plain⟩]
  rfl

theorem step_endOfOptions_behind :
    (behind before name given source false).step ['-', '-'] =
      .ok (behind before name given source true) := by
  rw [isIdle_behind.step_eq]
  rfl

theorem foldlM_step_options {texts : List Text} {more : List GivenOption}
    (options : GivesAll (CommandOption.known (some name)) texts more)
    (accepted : AreAccepted (given ++ more)) :
    texts.foldlM step (behind before name given source false) =
      .ok (behind before name (given ++ more) source false) :=
  (isIdle_behind.foldlM_step_eq_ok_iff accepted.left rfl options).2 ⟨accepted, rfl⟩

/-- Behind the end of options there can be one source at most. -/
theorem foldlM_step_ended_eq_ok_iff {arguments : List Text} :
    arguments.foldlM step (behind before name given source true) = .ok next ↔
      arguments = [] ∧ next = behind before name given source true ∨
        ∃ path, arguments = [path] ∧ (source = none ∧ name.takesSource = true) ∧
          next = behind before name given (some path) true := by
  have step_ended (source : Option Text) (path : Text) :
      (behind before name given source true).step path =
        (behind before name given source true).withSource path := rfl
  rcases arguments with - | ⟨path, - | ⟨another, arguments⟩⟩
  · simpa [pure, Except.pure] using eq_comm
  · rw [foldlM_cons_eq_ok_iff]
    simp only [step_ended, withSource_behind_eq_ok_iff, List.foldlM_nil, pure, Except.pure,
      Except.ok.injEq, exists_eq_right]
    simp
  · simp only [foldlM_cons_eq_ok_iff, step_ended, withSource_behind_eq_ok_iff]
    refine iff_of_false ?_ (by simp)
    rintro ⟨_, ⟨-, rfl⟩, _, second, -⟩
    rw [step_ended, withSource_behind_eq_ok_iff] at second
    exact Option.some_ne_none path second.1.1

theorem exists_foldlM_ending {ending : List Text} (ends : IsEnding ending) :
    ∃ ended, ending.foldlM step (behind before name given source false) =
      .ok (behind before name given source ended) := by
  obtain rfl | rfl := ends
  · exact ⟨false, rfl⟩
  · exact ⟨true, foldlM_cons_eq_ok_iff.2 ⟨_, step_endOfOptions_behind, rfl⟩⟩

/-- What is written behind the name of a command is read. -/
theorem exists_foldlM_of_continues {arguments : List Text}
    (continues : Continues (CommandOption.known (some name)) arguments given source)
    (accepted : AreAccepted given) (takes : source.isSome = true → name.takesSource = true) :
    ∃ ended, arguments.foldlM step (behind before name [] none false) =
      .ok (behind before name given source ended) := by
  cases continues with
  | alone options ends =>
      obtain ⟨ended, last⟩ := exists_foldlM_ending ends
      exact ⟨ended, foldlM_append_eq_ok_iff.2 ⟨_, foldlM_step_options options accepted, last⟩⟩
  | between options plain rest ends =>
      obtain ⟨ended, last⟩ := exists_foldlM_ending ends
      refine ⟨ended, foldlM_append_eq_ok_iff.2 ⟨_, foldlM_step_options options accepted.left, ?_⟩⟩
      refine foldlM_cons_eq_ok_iff.2 ⟨_, ?_, foldlM_append_eq_ok_iff.2
        ⟨_, foldlM_step_options rest accepted, last⟩⟩
      rw [step_plain_behind plain]
      exact withSource_behind_eq_ok_iff.2 ⟨⟨rfl, takes rfl⟩, rfl⟩
  | behind options =>
      refine ⟨true, foldlM_append_eq_ok_iff.2 ⟨_, foldlM_step_options options accepted, ?_⟩⟩
      refine foldlM_cons_eq_ok_iff.2 ⟨_, step_endOfOptions_behind, ?_⟩
      exact foldlM_step_ended_eq_ok_iff.2 (.inr ⟨_, rfl, ⟨rfl, takes rfl⟩, rfl⟩)

/-- Behind a source and options there can only be the end of options. -/
theorem exists_of_foldlM_sourced {arguments : List Text} {path : Text}
    (read : arguments.foldlM step (behind before name given (some path) false) = .ok next)
    (stops : ∀ argument ∈ arguments.head?, IsPlain argument ∨ argument = ['-', '-']) :
    IsEnding arguments ∧ ∃ ended, next = behind before name given (some path) ended := by
  cases arguments with
  | nil => exact ⟨.inl rfl, false, (Except.ok.inj read).symm⟩
  | cons argument rest =>
      obtain ⟨between, first, read⟩ := foldlM_cons_eq_ok_iff.1 read
      obtain plain | rfl := stops argument rfl
      · rw [step_plain_behind plain, withSource_behind_eq_ok_iff] at first
        exact absurd first.1.1 (Option.some_ne_none path)
      · rw [step_endOfOptions_behind] at first
        obtain rfl := Except.ok.inj first
        obtain ⟨rfl, rfl⟩ | ⟨_, -, ⟨room, -⟩, -⟩ := foldlM_step_ended_eq_ok_iff.1 read
        · exact ⟨.inr rfl, true, rfl⟩
        · exact absurd room (Option.some_ne_none path)

/-- Behind the name of a command nothing else can be read. -/
theorem exists_continues {arguments : List Text}
    (read : arguments.foldlM step (behind before name [] none false) = .ok next)
    (done : next.awaiting = none) :
    ∃ given source ended, Continues (CommandOption.known (some name)) arguments given source ∧
      AreAccepted given ∧ (source.isSome = true → name.takesSource = true) ∧
        next = behind before name given source ended := by
  obtain ⟨texts, given, rest, rfl, options, accepted, read, stops⟩ :=
    isIdle_behind.exists_options areAccepted_nil rfl read done
  replace read : rest.foldlM step (behind before name given none false) = .ok next := read
  cases rest with
  | nil =>
      exact ⟨given, none, false, .alone options (.inl rfl), accepted, by simp,
        (Except.ok.inj read).symm⟩
  | cons argument rest =>
  obtain ⟨between, first, read⟩ := foldlM_cons_eq_ok_iff.1 read
  obtain plain | rfl := stops argument rfl
  · rw [step_plain_behind plain, withSource_behind_eq_ok_iff] at first
    obtain ⟨⟨-, takes⟩, rfl⟩ := first
    obtain ⟨others, more, last, rfl, rest, accepted, read, stops⟩ :=
      isIdle_behind.exists_options accepted rfl read done
    replace read : last.foldlM step (behind before name (given ++ more) (some argument) false) =
      .ok next := read
    obtain ⟨ending, ended, rfl⟩ := exists_of_foldlM_sourced read stops
    exact ⟨given ++ more, some argument, ended, .between options plain rest ending, accepted,
      fun _ => takes, rfl⟩
  · rw [step_endOfOptions_behind] at first
    obtain rfl := Except.ok.inj first
    obtain ⟨rfl, rfl⟩ | ⟨path, rfl, ⟨-, takes⟩, rfl⟩ := foldlM_step_ended_eq_ok_iff.1 read
    · exact ⟨given, none, true, .alone options (.inr rfl), accepted, by simp, rfl⟩
    · exact ⟨given, some path, true, .behind options, accepted, fun _ => takes, rfl⟩

end Steps

end ArgumentState

end Bilingual

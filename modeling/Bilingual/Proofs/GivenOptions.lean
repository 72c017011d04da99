import Bilingual.Proofs.GivenArguments
import Mathlib.Data.List.Induction

/-!
# Values of given options

Each option is given once at most, except the one for more messages, and with a value that
suits it.  Options that are given so are accepted, and leave just the values that were given
for them (`foldlM_withGiven_eq_ok_iff`).
-/

namespace Bilingual

/-- The value that is given for an option. -/
def valueOf? (given : List GivenOption) (option : CommandOption) : Option Text :=
  (given.find? (·.option = option)).bind (·.value)

/-- The option is given. -/
def isGiven (given : List GivenOption) (option : CommandOption) : Bool :=
  given.any (·.option = option)

/-- The value suits the option.  Options that ask for the version or for help do not go
with any command. -/
def GivenOption.Suits (given : GivenOption) : Prop :=
  match given.option with
  | .indentWidth => (given.value.bind indentWidth?).isSome = true
  | .listing => (given.value.bind ListingForm.ofText?).isSome = true
  | .config | .keywords | .output => given.value.isSome = true
  | .verbose | .inPlace => given.value = none
  | .version | .help => False

instance (given : GivenOption) : Decidable given.Suits :=
  match given with
  | ⟨.indentWidth, value⟩ => inferInstanceAs (Decidable ((value.bind indentWidth?).isSome = true))
  | ⟨.listing, value⟩ =>
      inferInstanceAs (Decidable ((value.bind ListingForm.ofText?).isSome = true))
  | ⟨.config, value⟩ | ⟨.keywords, value⟩ | ⟨.output, value⟩ =>
      inferInstanceAs (Decidable (value.isSome = true))
  | ⟨.verbose, value⟩ | ⟨.inPlace, value⟩ => inferInstanceAs (Decidable (value = none))
  | ⟨.version, _⟩ | ⟨.help, _⟩ => inferInstanceAs (Decidable False)

/-- Options that can be given together. -/
structure AreAccepted (given : List GivenOption) : Prop where
  suits : ∀ one ∈ given, one.Suits
  once : given.Pairwise fun first second => first.option = second.option →
    first.option = .verbose

instance (given : List GivenOption) : Decidable (AreAccepted given) :=
  decidable_of_iff ((∀ one ∈ given, one.Suits) ∧
      given.Pairwise fun first second => first.option = second.option → first.option = .verbose)
    ⟨fun holds => ⟨holds.1, holds.2⟩, fun accepted => ⟨accepted.suits, accepted.once⟩⟩

theorem areAccepted_nil : AreAccepted [] :=
  ⟨by simp, .nil⟩

theorem AreAccepted.left {given more : List GivenOption} (accepted : AreAccepted (given ++ more)) :
    AreAccepted given :=
  ⟨fun one member => accepted.suits one (List.mem_append_left more member),
    (List.pairwise_append.1 accepted.once).1⟩

/-- The values of options that are given. -/
def OptionValues.ofGiven (given : List GivenOption) : OptionValues where
  config := valueOf? given .config
  keywords := valueOf? given .keywords
  indentWidth := (valueOf? given .indentWidth).bind indentWidth?
  output := valueOf? given .output
  inPlace := isGiven given .inPlace
  listing := (valueOf? given .listing).bind ListingForm.ofText?

section Values

variable {given : List GivenOption} {one : GivenOption} {option : CommandOption}

@[simp] theorem valueOf?_concat_of_ne (other : one.option ≠ option) :
    valueOf? (given ++ [one]) option = valueOf? given option := by
  simp [valueOf?, List.find?_append, other]

theorem valueOf?_concat_self (new : isGiven given one.option = false) :
    valueOf? (given ++ [one]) one.option = one.value := by
  have absent : given.find? (·.option = one.option) = none := by
    simpa [isGiven] using new
  simp [valueOf?, List.find?_append, absent]

@[simp] theorem isGiven_concat :
    isGiven (given ++ [one]) option = (isGiven given option || one.option = option) := by
  simp [isGiven]

theorem valueOf?_eq_none (absent : isGiven given option = false) :
    valueOf? given option = none := by
  have none : given.find? (·.option = option) = none := by
    simpa [isGiven] using absent
  rw [valueOf?, none]
  rfl

theorem exists_valueOf? (suits : ∀ one ∈ given, one.Suits) (takes : option.takesValue = true)
    (present : isGiven given option = true) :
    ∃ value, valueOf? given option = some value ∧
      (⟨option, some value⟩ : GivenOption).Suits := by
  obtain ⟨⟨found, value⟩, search⟩ :=
    Option.isSome_iff_exists.1 (List.find?_isSome.2 (List.any_eq_true.1 present))
  have same := List.find?_some search
  obtain rfl : found = option := of_decide_eq_true same
  have suitable := suits _ (List.mem_of_find?_eq_some search)
  rw [valueOf?, search]
  cases value with
  | some value => exact ⟨value, rfl, suitable⟩
  | none => cases found <;> contradiction

theorem suits_of_valueOf? (suits : ∀ one ∈ given, one.Suits) (takes : option.takesValue = true)
    {value : Text} (found : valueOf? given option = some value) :
    (⟨option, some value⟩ : GivenOption).Suits := by
  cases present : isGiven given option with
  | false =>
      rw [valueOf?_eq_none present] at found
      contradiction
  | true =>
      obtain ⟨other, same, suitable⟩ := exists_valueOf? suits takes present
      rw [found] at same
      exact Option.some.inj same ▸ suitable

theorem isGiven_eq_false_of_not_mem {known : List CommandOption}
    (belong : ∀ one ∈ given, one.BelongsTo known) (unknown : option ∉ known) :
    isGiven given option = false := by
  rw [isGiven, List.any_eq_false]
  intro one member same
  exact unknown (of_decide_eq_true same ▸ (belong one member).known)

theorem areAccepted_concat_iff :
    AreAccepted (given ++ [one]) ↔ AreAccepted given ∧ one.Suits ∧
      (one.option = .verbose ∨ isGiven given one.option = false) := by
  have apart : (∀ other ∈ given, other.option = one.option → other.option = .verbose) ↔
      one.option = .verbose ∨ isGiven given one.option = false := by
    simp only [isGiven, List.any_eq_false, decide_eq_true_eq]
    by_cases counts : one.option = .verbose
    · simp [counts]
    · simp only [counts, false_or]
      refine forall₂_congr fun other _ => ⟨fun only same => ?_, fun new same => absurd same new⟩
      exact counts (same ▸ only same)
  constructor
  · rintro ⟨suits, once⟩
    obtain ⟨first, -, last⟩ := List.pairwise_append.1 once
    exact ⟨⟨fun other member => suits other (by simp [member]), first⟩, suits one (by simp),
      apart.1 fun other member => last other member one (by simp)⟩
  · rintro ⟨⟨suits, once⟩, suitable, new⟩
    refine ⟨?_, List.pairwise_append.2 ⟨once, List.pairwise_singleton _ _, ?_⟩⟩
    · intro other member
      rcases List.mem_append.1 member with earlier | last
      · exact suits other earlier
      · rw [List.mem_singleton.1 last]
        exact suitable
    · intro other member last isLast
      rw [List.mem_singleton.1 isLast]
      exact apart.2 new other member

end Values

namespace OptionValues

theorem withValue?_ofGiven_eq_some_iff {given : List GivenOption} {option : CommandOption}
    (suits : ∀ one ∈ given, one.Suits) (takes : option.takesValue = true) (value : Text)
    (values : OptionValues) :
    (ofGiven given).withValue? option value = some values ↔
      (⟨option, some value⟩ : GivenOption).Suits ∧ isGiven given option = false ∧
        values = ofGiven (given ++ [⟨option, some value⟩]) := by
  cases present : isGiven given option with
  | true =>
      obtain ⟨earlier, found, suitable⟩ := exists_valueOf? suits takes present
      cases option with
      | config | keywords | output => simp [withValue?, ofGiven, found]
      | indentWidth | listing =>
          obtain ⟨set, has⟩ := Option.isSome_iff_exists.1 suitable
          rw [Option.bind_some] at has
          simp [withValue?, ofGiven, found, has]
      | verbose | version | help | inPlace => contradiction
  | false =>
      have absent := valueOf?_eq_none present
      have new := @valueOf?_concat_self given ⟨option, some value⟩ present
      cases option with
      | config | keywords | output =>
          simp [withValue?, ofGiven, absent, new, GivenOption.Suits, eq_comm]
      | indentWidth =>
          cases width : indentWidth? value <;>
            simp [withValue?, ofGiven, absent, new, GivenOption.Suits, width, eq_comm]
      | listing =>
          cases form : ListingForm.ofText? value <;>
            simp [withValue?, ofGiven, absent, new, GivenOption.Suits, form, eq_comm]
      | verbose | version | help | inPlace => contradiction

end OptionValues

namespace ArgumentState

variable {state next : ArgumentState}

theorem withValue_eq_ok_iff {option : CommandOption} {value : Text} :
    state.withValue option value = .ok next ↔
      ∃ values, state.values.withValue? option value = some values ∧
        next = { state with values := values, awaiting := none } := by
  rw [withValue]
  cases state.values.withValue? option value <;> simp [eq_comm]

section Given

variable {given : List GivenOption}

/-- One option more, behind those that were given before. -/
theorem withGiven_eq_ok_iff {one : GivenOption} (suits : ∀ other ∈ given, other.Suits)
    (formed : one.value.isSome = one.option.takesValue) (awaiting : state.awaiting = none)
    (values : state.values = .ofGiven given) :
    state.withGiven one = .ok next ↔
      (one.Suits ∧ (one.option = .verbose ∨ isGiven given one.option = false)) ∧
        next = { state with values := .ofGiven (given ++ [one]) } := by
  obtain ⟨option, value⟩ := one
  cases value with
  | some value =>
      have takes : option.takesValue = true := formed.symm
      have notVerbose : option ≠ .verbose := by
        rintro rfl
        contradiction
      change state.withValue option value = .ok next ↔ _
      simp only [withValue_eq_ok_iff, values,
        OptionValues.withValue?_ofGiven_eq_some_iff suits takes, notVerbose, false_or]
      rw [← awaiting]
      constructor
      · rintro ⟨_, ⟨suitable, new, rfl⟩, rfl⟩
        exact ⟨⟨suitable, new⟩, rfl⟩
      · rintro ⟨⟨suitable, new⟩, rfl⟩
        exact ⟨_, ⟨suitable, new, rfl⟩, rfl⟩
  | none =>
      have flag : option.takesValue = false := formed.symm
      change state.withFlag option = .ok next ↔ _
      cases option with
      | verbose =>
          have same : OptionValues.ofGiven (given ++ [⟨.verbose, none⟩]) = state.values := by
            simp [OptionValues.ofGiven, values]
          rw [same]
          simpa [withFlag, GivenOption.Suits] using eq_comm
      | inPlace =>
          have present : state.values.inPlace = isGiven given .inPlace := by rw [values]; rfl
          have set : OptionValues.ofGiven (given ++ [⟨.inPlace, none⟩]) =
              { state.values with inPlace := true } := by
            simp [OptionValues.ofGiven, values]
          rw [set]
          unfold withFlag
          dsimp only
          rw [present]
          cases isGiven given .inPlace with
          | true => simp
          | false => simpa [GivenOption.Suits] using eq_comm
      | version | help =>
          simp [withFlag, GivenOption.Suits]
      | config | keywords | indentWidth | output | listing => contradiction

/-- Options are read exactly if they can be given together with those before them. -/
theorem foldlM_withGiven_eq_ok_iff {more : List GivenOption}
    (formed : ∀ one ∈ more, one.value.isSome = one.option.takesValue)
    (awaiting : state.awaiting = none) (accepted : AreAccepted given)
    (values : state.values = .ofGiven given) :
    more.foldlM withGiven state = .ok next ↔
      AreAccepted (given ++ more) ∧ next = { state with values := .ofGiven (given ++ more) } := by
  -- From the back: an option is read in a state that holds all those before it.
  induction more using List.reverseRecOn generalizing next with
  | nil =>
      rw [List.append_nil, ← values]
      simpa [accepted, pure, Except.pure] using eq_comm
  | append_singleton more one induction =>
      obtain ⟨earlier, last⟩ := List.forall_mem_append.1 formed
      rw [foldlM_append_eq_ok_iff, ← List.append_assoc, areAccepted_concat_iff]
      simp only [induction earlier, foldlM_cons_eq_ok_iff, List.foldlM_nil, pure, Except.pure,
        Except.ok.injEq, exists_eq_right]
      have step (together : AreAccepted (given ++ more)) :=
        @withGiven_eq_ok_iff { state with values := .ofGiven (given ++ more) } next
          (given ++ more) one together.suits (last one (by simp)) awaiting rfl
      constructor
      · rintro ⟨between, ⟨together, rfl⟩, read⟩
        obtain ⟨fits, rfl⟩ := (step together).1 read
        exact ⟨⟨together, fits⟩, rfl⟩
      · rintro ⟨⟨together, fits⟩, rfl⟩
        exact ⟨_, ⟨together, rfl⟩, (step together).2 ⟨fits, rfl⟩⟩

section Arguments

variable (idle : state.IsIdle) (accepted : AreAccepted given)
  (values : state.values = .ofGiven given)

include idle accepted values

/-- Arguments that give options are read exactly if these can be given together with the
options before them. -/
theorem IsIdle.foldlM_step_eq_ok_iff {texts : List Text} {more : List GivenOption}
    (gives : GivesAll (CommandOption.known state.command) texts more) :
    texts.foldlM step state = .ok next ↔
      AreAccepted (given ++ more) ∧ next = { state with values := .ofGiven (given ++ more) } := by
  rw [idle.foldlM_step_of_givesAll gives,
    foldlM_withGiven_eq_ok_iff (fun one member => (gives.belongsTo one member).formed)
      idle.awaiting accepted values]

/-- What can be read starts with options that can be given, up to a plain argument or to the
end of options. -/
theorem IsIdle.exists_options {arguments : List Text}
    (read : arguments.foldlM step state = .ok next) (done : next.awaiting = none) :
    ∃ texts more rest, arguments = texts ++ rest ∧
      GivesAll (CommandOption.known state.command) texts more ∧ AreAccepted (given ++ more) ∧
        rest.foldlM step { state with values := .ofGiven (given ++ more) } = .ok next ∧
          ∀ argument ∈ rest.head?, IsPlain argument ∨ argument = ['-', '-'] := by
  obtain ⟨texts, more, rest, rfl, gives, stops⟩ := idle.exists_givesAll read done
  obtain ⟨between, first, read⟩ := foldlM_append_eq_ok_iff.1 read
  obtain ⟨together, rfl⟩ := (idle.foldlM_step_eq_ok_iff accepted values gives).1 first
  exact ⟨texts, more, rest, rfl, gives, together, read, stops⟩

end Arguments

end Given

end ArgumentState

end Bilingual

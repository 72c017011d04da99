import Bilingual.Proofs.ArgumentSpellings

/-!
# Reading options

Reading arguments that give options comes down to reading these options, one after the other
(`foldlM_step_of_givesAll`).  Conversely, whatever can be read stands behind arguments that
give options (`exists_givesAll`), so nothing else is ever taken for one.
-/

namespace Bilingual

theorem map_eq_ok_iff {Error Value Result : Type} {found : Except Error Value}
    {convert : Value → Result} {result : Result} :
    found.map convert = .ok result ↔ ∃ value, found = .ok value ∧ result = convert value := by
  cases found with
  | error reason => simp [Except.map]
  | ok value => simpa [Except.map] using eq_comm

section Folds

variable {Error State Element : Type} {step : State → Element → Except Error State}
  {state last : State}

theorem foldlM_cons_eq_ok_iff {element : Element} {rest : List Element} :
    (element :: rest).foldlM step state = .ok last ↔
      ∃ next, step state element = .ok next ∧ rest.foldlM step next = .ok last := by
  rw [List.foldlM_cons]
  cases step state element <;> simp [bind, Except.bind]

theorem foldlM_append_eq_ok_iff {first second : List Element} :
    (first ++ second).foldlM step state = .ok last ↔
      ∃ next, first.foldlM step state = .ok next ∧ second.foldlM step next = .ok last := by
  rw [List.foldlM_append]
  cases first.foldlM step state <;> simp [bind, Except.bind]

end Folds

namespace ArgumentState

variable {state next : ArgumentState}

/-- Reads an option that is given. -/
def withGiven (state : ArgumentState) (given : GivenOption) :
    Except NoInvocation ArgumentState :=
  match given.value with
  | some value => state.withValue given.option value
  | none => state.withFlag given.option

/-- The next argument may be an option. -/
structure IsIdle (state : ArgumentState) : Prop where
  awaiting : state.awaiting = none
  optionsEnded : state.optionsEnded = false
  topics : state.topics = none

theorem eq_of_withFlag {option : CommandOption} (read : state.withFlag option = .ok next) :
    next = { state with values := next.values } := by
  unfold withFlag at read
  split at read
  · contradiction
  · contradiction
  · rw [← Except.ok.inj read]
  · split at read
    · contradiction
    · rw [← Except.ok.inj read]

theorem eq_of_withValue {option : CommandOption} {value : Text}
    (read : state.withValue option value = .ok next) :
    next = { state with values := next.values, awaiting := none } := by
  unfold withValue at read
  split at read
  · rw [← Except.ok.inj read]
  · contradiction

theorem IsIdle.withValues (idle : state.IsIdle) (values : OptionValues) :
    { state with values := values }.IsIdle :=
  ⟨idle.awaiting, idle.optionsEnded, idle.topics⟩

theorem IsIdle.eq_of_withGiven (idle : state.IsIdle) {given : GivenOption}
    (read : state.withGiven given = .ok next) : next = { state with values := next.values } := by
  unfold withGiven at read
  split at read
  · have same := eq_of_withValue read
    rwa [← idle.awaiting] at same
  · exact eq_of_withFlag read

theorem IsIdle.eq_of_foldlM (idle : state.IsIdle) {given : List GivenOption}
    (read : given.foldlM withGiven state = .ok next) :
    next = { state with values := next.values } := by
  induction given generalizing state with
  | nil => rw [← Except.ok.inj read]
  | cons one others induction =>
      obtain ⟨between, first, read⟩ := foldlM_cons_eq_ok_iff.1 read
      rw [idle.eq_of_withGiven first] at read
      have rest := induction (idle.withValues between.values) read
      exact rest

theorem IsIdle.isIdle_of_foldlM (idle : state.IsIdle) {given : List GivenOption}
    (read : given.foldlM withGiven state = .ok next) : next.IsIdle := by
  rw [idle.eq_of_foldlM read]
  exact idle.withValues _

theorem IsIdle.step_eq (idle : state.IsIdle) (argument : Text) :
    state.step argument =
      match Argument.ofText argument with
      | .plain text => state.withPlain text
      | .endOfOptions => .ok { state with optionsEnded := true }
      | .long name value => state.withLong name value
      | .letters letters => state.withLetters letters := by
  rw [ArgumentState.step, idle.topics]
  dsimp only
  rw [withArgument, idle.optionsEnded, if_neg Bool.false_ne_true, idle.awaiting]
  cases Argument.ofText argument with
  | endOfOptions => simp [idle.topics]
  | long name value | letters letters | plain text => rfl

/-- Letters of flags are read one after the other. -/
theorem withLetters_append {letters : Text} {flags : List CommandOption}
    (all : List.Forall₂ (IsFlag (CommandOption.known state.command)) letters flags)
    (rest : Text) :
    state.withLetters (letters ++ rest) =
      (asFlags flags).foldlM withGiven state >>= fun next => next.withLetters rest := by
  -- Flags change the values only, so the options that are known stay the same.
  generalize knows : CommandOption.known state.command = known at all
  induction all generalizing state with
  | nil => rfl
  | @cons letter option letters flags flag others induction =>
      obtain ⟨member, bare, own⟩ := flag
      have found : CommandOption.ofLetter? state.command letter = some option :=
        CommandOption.ofLetter?_eq_some_iff.2 ⟨knows ▸ member, own⟩
      rw [List.cons_append, withLetters, found]
      dsimp only
      rw [bare, if_neg Bool.false_ne_true]
      change _ = (state.withFlag option >>= fun next => (asFlags flags).foldlM withGiven next) >>= _
      cases flagged : state.withFlag option with
      | error reason => rfl
      | ok next =>
          refine induction ?_
          rw [eq_of_withFlag flagged]
          exact knows

theorem withLong_of_mem {option : CommandOption}
    (mem : option ∈ CommandOption.known state.command) (value : Option Text) :
    state.withLong option.longName.toList value =
      match option.takesValue, value with
      | true, some value => state.withValue option value
      | true, none => .ok { state with awaiting := some option }
      | false, some _ => .error .refused
      | false, none => state.withFlag option := by
  have found := CommandOption.ofLongName?_eq_some_iff.2 ⟨mem, rfl⟩
  cases takes : option.takesValue <;> cases value <;> simp only [withLong, found, takes]

section Key

variable {letter : Char} {option : CommandOption}
  (key : IsKey (CommandOption.known state.command) letter option)

include key

theorem withLetters_key : state.withLetters [letter] = .ok { state with awaiting := some option } := by
  have found := CommandOption.ofLetter?_eq_some_iff.2 ⟨key.1, key.2.2⟩
  simp only [withLetters, found, key.2.1, if_true]

theorem withLetters_key_equals (value : Text) :
    state.withLetters (letter :: '=' :: value) = state.withValue option value := by
  have found := CommandOption.ofLetter?_eq_some_iff.2 ⟨key.1, key.2.2⟩
  simp only [withLetters, found, key.2.1, if_true]

theorem withLetters_key_joined {value : Text} (nonempty : value ≠ [])
    (bare : value.head? ≠ some '=') :
    state.withLetters (letter :: value) = state.withValue option value := by
  have found := CommandOption.ofLetter?_eq_some_iff.2 ⟨key.1, key.2.2⟩
  simp only [withLetters, found, key.2.1, if_true]
  split
  · contradiction
  · exact absurd rfl bare
  · rfl

end Key

/-- Letters of flags in front of other letters, in one argument. -/
theorem IsIdle.step_letters (idle : state.IsIdle) {letters rest : Text}
    {flags : List CommandOption}
    (all : List.Forall₂ (IsFlag (CommandOption.known state.command)) letters flags)
    (nonempty : letters ++ rest ≠ []) (notHyphen : rest.head? ≠ some '-') :
    state.step ('-' :: (letters ++ rest)) =
      (asFlags flags).foldlM withGiven state >>= fun next => next.withLetters rest := by
  rw [← withLetters_append all, idle.step_eq]
  cases all with
  | nil =>
      cases rest with
      | nil => contradiction
      | cons letter rest =>
          rw [List.nil_append, ofText_letters (by simpa using notHyphen)]
  | cons flag others =>
      rw [List.cons_append,
        ofText_letters (forall₂_isFlag_ne_hyphen (.cons flag others) _ rfl)]

section Reading

variable (idle : state.IsIdle)

include idle

theorem IsIdle.bind_congr {Result : Type} {given : List GivenOption}
    {first second : ArgumentState → Except NoInvocation Result}
    (same : ∀ next : ArgumentState, next.IsIdle → next.command = state.command →
      first next = second next) :
    given.foldlM withGiven state >>= first = given.foldlM withGiven state >>= second := by
  cases read : given.foldlM withGiven state with
  | error reason => rfl
  | ok next =>
      refine same next (idle.isIdle_of_foldlM read) ?_
      rw [idle.eq_of_foldlM read]

theorem IsIdle.step_of_callsFor {text : Text} {flags : List CommandOption}
    {option : CommandOption}
    (calls : CallsFor (CommandOption.known state.command) text flags option) :
    state.step text =
      (asFlags flags).foldlM withGiven state >>= fun next =>
        .ok { next with awaiting := some option } := by
  cases calls with
  | long mem takes =>
      rw [idle.step_eq, ofText_long]
      dsimp only
      rw [withLong_of_mem mem, takes]
      rfl
  | letter front key =>
      rw [idle.step_letters front (by simp) (by simpa using key.ne_hyphen)]
      refine idle.bind_congr fun next _ command => ?_
      rw [← command] at key
      exact withLetters_key key

theorem IsIdle.step_equals_of_callsFor {text : Text} {flags : List CommandOption}
    {option : CommandOption}
    (calls : CallsFor (CommandOption.known state.command) text flags option) (value : Text) :
    state.step (text ++ '=' :: value) =
      (asFlags flags).foldlM withGiven state >>= fun next => next.withValue option value := by
  cases calls with
  | long mem takes =>
      rw [idle.step_eq, ofText_long_equals]
      dsimp only
      rw [withLong_of_mem mem, takes]
      rfl
  | letter front key =>
      rw [List.cons_append, List.append_assoc,
        idle.step_letters front (by simp) (by simpa using key.ne_hyphen)]
      refine idle.bind_congr fun next _ command => ?_
      rw [← command] at key
      exact withLetters_key_equals key value

/-- Only the value of an option can stand where one is called for. -/
theorem IsIdle.step_awaiting (option : CommandOption) (argument : Text) :
    { state with awaiting := some option }.step argument =
      if IsPlain argument then state.withValue option argument else .error .refused := by
  obtain ⟨before, command, values, source, awaiting, ended, topics⟩ := state
  obtain rfl : ended = false := idle.optionsEnded
  obtain rfl : topics = none := idle.topics
  change withArgument _ argument = _
  rw [withArgument, if_neg Bool.false_ne_true]
  by_cases plain : IsPlain argument
  · rw [ofText_eq_plain_iff.2 ⟨rfl, plain⟩, if_pos plain]
    rfl
  · rw [if_neg plain]
    cases looks : Argument.ofText argument with
    | plain text => exact absurd (ofText_eq_plain_iff.1 looks).2 plain
    | endOfOptions | long name value | letters letters => rfl

/-- Arguments that give options are read as these. -/
theorem IsIdle.foldlM_step_of_gives {texts : List Text} {given : List GivenOption}
    (gives : Gives (CommandOption.known state.command) texts given) :
    texts.foldlM step state = given.foldlM withGiven state := by
  cases gives with
  | @long option mem flag =>
      rw [List.foldlM_cons, idle.step_eq, ofText_long]
      dsimp only
      rw [withLong_of_mem mem, flag]
      rfl
  | @letters letters flags all nonempty =>
      have read := @step_letters state idle letters [] flags all (by simpa using nonempty) (by simp)
      rw [List.append_nil] at read
      rw [List.foldlM_cons, read, bind_assoc]
      exact bind_pure _
  | @apart text value flags option calls plain =>
      rw [List.foldlM_cons, idle.step_of_callsFor calls, List.foldlM_append, bind_assoc]
      refine idle.bind_congr fun next ready _ => ?_
      have called := ready.step_awaiting option value
      rw [if_pos plain] at called
      exact congrArg (· >>= pure) called
  | equals calls =>
      rw [List.foldlM_cons, idle.step_equals_of_callsFor calls, List.foldlM_append, bind_assoc]
      rfl
  | @joined letters value flags letter option front key nonempty bare =>
      rw [List.foldlM_cons,
        idle.step_letters front (by simp) (by simpa using key.ne_hyphen),
        List.foldlM_append, bind_assoc]
      refine idle.bind_congr fun next _ command => ?_
      rw [← command] at key
      rw [withLetters_key_joined key nonempty bare]
      rfl

theorem IsIdle.foldlM_step_of_givesAll {texts : List Text} {given : List GivenOption}
    (gives : GivesAll (CommandOption.known state.command) texts given) :
    texts.foldlM step state = given.foldlM withGiven state := by
  generalize knows : CommandOption.known state.command = known at gives
  induction gives generalizing state with
  | nil => rfl
  | append first rest induction =>
      rw [List.foldlM_append, List.foldlM_append,
        idle.foldlM_step_of_gives (by rwa [knows])]
      exact idle.bind_congr fun next ready command => induction ready (by rw [command, knows])

end Reading

/-! ### Recognizing what is given -/

theorem exists_of_withLetters {letters : Text} (read : state.withLetters letters = .ok next) :
    (∃ flags, List.Forall₂ (IsFlag (CommandOption.known state.command)) letters flags) ∨
      ∃ front flags letter option rest, letters = front ++ letter :: rest ∧
        List.Forall₂ (IsFlag (CommandOption.known state.command)) front flags ∧
          IsKey (CommandOption.known state.command) letter option := by
  induction letters generalizing state with
  | nil => exact .inl ⟨[], .nil⟩
  | cons letter letters induction =>
      rw [withLetters] at read
      split at read
      · contradiction
      next option found =>
      obtain ⟨mem, own⟩ := CommandOption.ofLetter?_eq_some_iff.1 found
      cases takes : option.takesValue with
      | true => exact .inr ⟨[], [], letter, option, letters, rfl, .nil, mem, takes, own⟩
      | false =>
          rw [takes, if_neg Bool.false_ne_true] at read
          split at read
          · next between flagged =>
              have same : between.command = state.command := by rw [eq_of_withFlag flagged]
              have rest := induction read
              rw [same] at rest
              obtain ⟨flags, all⟩ | ⟨front, flags, key, valued, rest, rfl, all, isKey⟩ := rest
              · exact .inl ⟨option :: flags, .cons ⟨mem, takes, own⟩ all⟩
              · exact .inr ⟨letter :: front, option :: flags, key, valued, rest, rfl,
                  .cons ⟨mem, takes, own⟩ all, isKey⟩
          · contradiction

section Recognizing

variable (idle : state.IsIdle) {argument : Text} {arguments : List Text}
  (read : (argument :: arguments).foldlM step state = .ok next) (done : next.awaiting = none)

include idle read done

theorem IsIdle.exists_value_of_callsFor {flags : List CommandOption} {option : CommandOption}
    (calls : CallsFor (CommandOption.known state.command) argument flags option) :
    ∃ value rest, arguments = value :: rest ∧ IsPlain value := by
  obtain ⟨awaiting, first, read⟩ := foldlM_cons_eq_ok_iff.1 read
  rw [idle.step_of_callsFor calls] at first
  cases front : (asFlags flags).foldlM withGiven state with
  | error reason =>
      rw [front] at first
      contradiction
  | ok between =>
      rw [front] at first
      have ready : between.IsIdle := idle.isIdle_of_foldlM front
      obtain rfl : { between with awaiting := some option } = awaiting := Except.ok.inj first
      cases arguments with
      | nil =>
          rw [← Except.ok.inj read] at done
          contradiction
      | cons value rest =>
          refine ⟨value, rest, rfl, ?_⟩
          by_contra notPlain
          rw [List.foldlM_cons, ready.step_awaiting, if_neg notPlain] at read
          contradiction

theorem IsIdle.givesFirst_of_callsFor {flags : List CommandOption} {option : CommandOption}
    (calls : CallsFor (CommandOption.known state.command) argument flags option) :
    GivesFirst (CommandOption.known state.command) (argument :: arguments) := by
  obtain ⟨value, rest, rfl, plain⟩ := idle.exists_value_of_callsFor read done calls
  exact ⟨[argument, value], _, rest, rfl, by simp, .apart calls plain⟩

theorem IsIdle.givesFirst_of_long {name : Text} {value : Option Text}
    (looks : Argument.ofText argument = .long name value) :
    GivesFirst (CommandOption.known state.command) (argument :: arguments) := by
  have spelled := eq_of_ofText_eq_long looks
  have first := read
  rw [List.foldlM_cons, idle.step_eq, looks] at first
  dsimp only at first
  cases found : CommandOption.ofLongName? state.command name with
  | none =>
      rw [withLong, found] at first
      contradiction
  | some option =>
      obtain ⟨mem, rfl⟩ := CommandOption.ofLongName?_eq_some_iff.1 found
      rw [withLong_of_mem mem] at first
      cases takes : option.takesValue with
      | true =>
          cases value with
          | some value =>
              obtain rfl : argument = option.long ++ '=' :: value := spelled
              exact (Gives.equals (.long mem takes)).first
          | none =>
              obtain rfl : argument = option.long := by simpa [CommandOption.long] using spelled
              exact idle.givesFirst_of_callsFor read done (.long mem takes)
      | false =>
          cases value with
          | some value =>
              rw [takes] at first
              contradiction
          | none =>
              obtain rfl : argument = option.long := by simpa [CommandOption.long] using spelled
              exact (Gives.long mem takes).first

theorem IsIdle.givesFirst_of_letters {letters : Text}
    (looks : Argument.ofText argument = .letters letters) :
    GivesFirst (CommandOption.known state.command) (argument :: arguments) := by
  obtain ⟨rfl, nonempty⟩ := eq_of_ofText_eq_letters looks
  have first := read
  rw [List.foldlM_cons, idle.step_eq, looks] at first
  dsimp only at first
  cases outcome : state.withLetters letters with
  | error reason =>
      rw [outcome] at first
      contradiction
  | ok between =>
      obtain ⟨flags, all⟩ | ⟨front, flags, letter, option, rest, rfl, all, key⟩ :=
        exists_of_withLetters outcome
      · exact (Gives.letters all nonempty).first
      · cases rest with
        | nil => exact idle.givesFirst_of_callsFor read done (.letter all key)
        | cons character value =>
            by_cases equals : character = '='
            · subst equals
              exact (Gives.keyEquals all key value).first
            · exact (Gives.joined all key (by simp) (by simpa)).first

/-- An argument that is read as options gives some, alone or with the next one. -/
theorem IsIdle.givesFirst (notPlain : ¬IsPlain argument) (goesOn : argument ≠ ['-', '-']) :
    GivesFirst (CommandOption.known state.command) (argument :: arguments) := by
  cases looks : Argument.ofText argument with
  | plain text => exact absurd (ofText_eq_plain_iff.1 looks).2 notPlain
  | endOfOptions => exact absurd (eq_of_ofText_eq_endOfOptions looks) goesOn
  | long name value => exact idle.givesFirst_of_long read done looks
  | letters letters => exact idle.givesFirst_of_letters read done looks

end Recognizing

/-- Of arguments that can be read, those in front give options, up to a plain one or to the
end of options. -/
theorem IsIdle.exists_givesAll (idle : state.IsIdle) {arguments : List Text}
    (read : arguments.foldlM step state = .ok next) (done : next.awaiting = none) :
    ∃ texts given rest, arguments = texts ++ rest ∧
      GivesAll (CommandOption.known state.command) texts given ∧
        ∀ argument ∈ rest.head?, IsPlain argument ∨ argument = ['-', '-'] := by
  -- An option takes one argument or two, so the induction is on how many are left.
  induction lengthEq : arguments.length using Nat.strongRecOn
    generalizing state arguments with
  | ind count induction =>
  cases arguments with
  | nil => exact ⟨[], [], [], rfl, .nil, by simp⟩
  | cons argument arguments =>
  by_cases stops : IsPlain argument ∨ argument = ['-', '-']
  · exact ⟨[], [], argument :: arguments, rfl, .nil, by simpa using stops⟩
  obtain ⟨notPlain, goesOn⟩ := not_or.1 stops
  obtain ⟨texts, given, rest, split, nonempty, gives⟩ :=
    idle.givesFirst read done notPlain goesOn
  rw [split] at read
  obtain ⟨between, first, read⟩ := foldlM_append_eq_ok_iff.1 read
  rw [idle.foldlM_step_of_gives gives] at first
  have ready : between.IsIdle := idle.isIdle_of_foldlM first
  have command : between.command = state.command := by rw [idle.eq_of_foldlM first]
  have shorter : rest.length < count := by
    have positive := List.length_pos_iff.2 nonempty
    have total := congrArg List.length split
    rw [lengthEq, List.length_append] at total
    omega
  obtain ⟨others, more, last, rfl, all, ends⟩ := induction _ shorter ready read rfl
  rw [command] at all
  exact ⟨texts ++ others, given ++ more, last, by rw [split, List.append_assoc],
    .append gives all, ends⟩

end ArgumentState

end Bilingual

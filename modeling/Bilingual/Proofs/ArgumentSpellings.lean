import Bilingual.CommandLineArguments
import Mathlib.Data.List.Basic

/-!
# How options are written

An option is written with its long name or with its letter, and its value is attached to it
or is the next argument.  `Gives` says this of one argument or two, without any reader.  The
rest of the file is about the looks of arguments that are written so, and about the options
that names and letters stand for.
-/

namespace Bilingual

/-- An option that is given, with its value if it takes one. -/
structure GivenOption where
  option : CommandOption
  value : Option Text
  deriving DecidableEq, Repr

/-- The option is known, and has a value if it takes one. -/
structure GivenOption.BelongsTo (known : List CommandOption) (given : GivenOption) : Prop where
  known : given.option ∈ known
  formed : given.value.isSome = given.option.takesValue

instance (known : List CommandOption) (given : GivenOption) : Decidable (given.BelongsTo known) :=
  decidable_of_iff (given.option ∈ known ∧ given.value.isSome = given.option.takesValue)
    ⟨fun holds => ⟨holds.1, holds.2⟩, fun belongs => ⟨belongs.known, belongs.formed⟩⟩

/-- Options that are given without values. -/
def asFlags (options : List CommandOption) : List GivenOption :=
  options.map fun option => ⟨option, none⟩

/-- The argument is a single hyphen, or does not start with one. -/
def IsPlain (argument : Text) : Prop :=
  argument.head? = some '-' → argument = ['-']

instance : DecidablePred IsPlain :=
  fun argument => inferInstanceAs (Decidable (argument.head? = some '-' → argument = ['-']))

/-- The long name of an option behind two hyphens. -/
def CommandOption.long (option : CommandOption) : Text :=
  '-' :: '-' :: option.longName.toList

section Spellings

variable (known : List CommandOption)

/-- The letter of a known option that takes no value. -/
def IsFlag (letter : Char) (option : CommandOption) : Prop :=
  option ∈ known ∧ option.takesValue = false ∧ option.letter? = some letter

/-- The letter of a known option that takes a value. -/
def IsKey (letter : Char) (option : CommandOption) : Prop :=
  option ∈ known ∧ option.takesValue = true ∧ option.letter? = some letter

/-- The argument calls for the value of an option.  The letter of the option may stand behind
those of flags. -/
inductive CallsFor : Text → List CommandOption → CommandOption → Prop
  | long {option : CommandOption} (mem : option ∈ known) (takes : option.takesValue = true) :
      CallsFor option.long [] option
  | letter {letters : Text} {flags : List CommandOption} {letter : Char} {option : CommandOption}
      (front : List.Forall₂ (IsFlag known) letters flags) (key : IsKey known letter option) :
      CallsFor ('-' :: (letters ++ [letter])) flags option

/-- One argument or two that give options.

* `apart`: the value is the next argument.
* `equals`: the value stands behind an equals sign.
* `joined`: the value stands behind the letter of its option. -/
inductive Gives : List Text → List GivenOption → Prop
  | long {option : CommandOption} (mem : option ∈ known) (flag : option.takesValue = false) :
      Gives [option.long] (asFlags [option])
  | letters {letters : Text} {flags : List CommandOption}
      (all : List.Forall₂ (IsFlag known) letters flags) (nonempty : letters ≠ []) :
      Gives ['-' :: letters] (asFlags flags)
  | apart {text value : Text} {flags : List CommandOption} {option : CommandOption}
      (calls : CallsFor known text flags option) (plain : IsPlain value) :
      Gives [text, value] (asFlags flags ++ [⟨option, some value⟩])
  | equals {text value : Text} {flags : List CommandOption} {option : CommandOption}
      (calls : CallsFor known text flags option) :
      Gives [text ++ '=' :: value] (asFlags flags ++ [⟨option, some value⟩])
  | joined {letters value : Text} {flags : List CommandOption} {letter : Char}
      {option : CommandOption} (front : List.Forall₂ (IsFlag known) letters flags)
      (key : IsKey known letter option) (nonempty : value ≠ []) (bare : value.head? ≠ some '=') :
      Gives ['-' :: (letters ++ letter :: value)] (asFlags flags ++ [⟨option, some value⟩])

/-- Arguments that give options, and nothing else. -/
inductive GivesAll : List Text → List GivenOption → Prop
  | nil : GivesAll [] []
  | append {texts others : List Text} {given more : List GivenOption}
      (first : Gives known texts given) (rest : GivesAll others more) :
      GivesAll (texts ++ others) (given ++ more)

/-- The first argument gives options, alone or with the next one. -/
def GivesFirst (arguments : List Text) : Prop :=
  ∃ texts given rest, arguments = texts ++ rest ∧ texts ≠ [] ∧ Gives known texts given

end Spellings

section Spellings

variable {known : List CommandOption} {argument : Text} {arguments : List Text}
  {given : List GivenOption}

theorem Gives.first (gives : Gives known [argument] given) :
    GivesFirst known (argument :: arguments) :=
  ⟨[argument], given, arguments, rfl, by simp, gives⟩

theorem Gives.keyEquals {letters : Text} {flags : List CommandOption} {letter : Char}
    {option : CommandOption} (front : List.Forall₂ (IsFlag known) letters flags)
    (key : IsKey known letter option) (value : Text) :
    Gives known ['-' :: (letters ++ letter :: '=' :: value)]
      (asFlags flags ++ [⟨option, some value⟩]) := by
  have gives := @Gives.equals known _ value _ _ (.letter front key)
  rwa [List.cons_append, List.append_assoc] at gives

theorem belongsTo_asFlags {letters : Text} {flags : List CommandOption}
    (all : List.Forall₂ (IsFlag known) letters flags) :
    ∀ one ∈ asFlags flags, one.BelongsTo known := by
  induction all with
  | nil => simp [asFlags]
  | cons flag others induction =>
      exact List.forall_mem_cons.2 ⟨⟨flag.1, flag.2.1.symm⟩, induction⟩

theorem CallsFor.belongsTo {text value : Text} {flags : List CommandOption}
    {option : CommandOption} (calls : CallsFor known text flags option) :
    ∀ one ∈ asFlags flags ++ [⟨option, some value⟩], one.BelongsTo known := by
  refine List.forall_mem_append.2 ⟨?_, List.forall_mem_singleton.2 ?_⟩
  · cases calls with
    | long mem takes => simp [asFlags]
    | letter front key => exact belongsTo_asFlags front
  · cases calls with
    | long mem takes => exact ⟨mem, takes.symm⟩
    | letter front key => exact ⟨key.1, key.2.1.symm⟩

theorem Gives.belongsTo {texts : List Text} (gives : Gives known texts given) :
    ∀ one ∈ given, one.BelongsTo known := by
  cases gives with
  | long mem flag => exact List.forall_mem_singleton.2 ⟨mem, flag.symm⟩
  | letters all nonempty => exact belongsTo_asFlags all
  | apart calls plain => exact calls.belongsTo
  | equals calls => exact calls.belongsTo
  | joined front key nonempty bare => exact (CallsFor.letter front key).belongsTo

theorem GivesAll.belongsTo {texts : List Text} (gives : GivesAll known texts given) :
    ∀ one ∈ given, one.BelongsTo known := by
  induction gives with
  | nil => simp
  | append first rest induction => exact List.forall_mem_append.2 ⟨first.belongsTo, induction⟩

end Spellings

/-! ### Looks of arguments -/

theorem ofText_long (option : CommandOption) :
    Argument.ofText option.long = .long option.longName.toList none := by
  cases option <;> rfl

theorem ofText_long_equals (option : CommandOption) (value : Text) :
    Argument.ofText (option.long ++ '=' :: value) = .long option.longName.toList (some value) := by
  cases option <;> rfl

theorem ofText_letters {letter : Char} (notHyphen : letter ≠ '-') (letters : Text) :
    Argument.ofText ('-' :: letter :: letters) = .letters (letter :: letters) := by
  unfold Argument.ofText
  split <;> simp_all

theorem ofText_eq_plain_iff {argument text : Text} :
    Argument.ofText argument = .plain text ↔ argument = text ∧ IsPlain argument := by
  unfold Argument.ofText IsPlain
  split
  · simp
  · dsimp only
    split <;> simp
  · simp
  · next _ notLetters =>
      rw [Argument.plain.injEq, iff_self_and]
      rintro - hyphen
      cases argument with
      | nil => contradiction
      | cons first rest =>
          obtain rfl : first = '-' := by simpa using hyphen
          cases rest with
          | nil => rfl
          | cons letter letters => exact absurd rfl (notLetters letter letters)

theorem eq_of_ofText_eq_long {argument name : Text} {value : Option Text}
    (looks : Argument.ofText argument = .long name value) :
    argument = '-' :: '-' :: (name ++ (value.map ('=' :: ·)).getD []) := by
  unfold Argument.ofText at looks
  split at looks
  · contradiction
  · next text _ =>
      have whole := List.takeWhile_append_dropWhile (p := (· != '=')) (l := text)
      have behind : text.drop (text.takeWhile (· != '=')).length = text.dropWhile (· != '=') := by
        nth_rewrite 2 [← whole]
        exact List.drop_left
      dsimp only at looks
      rw [behind] at looks
      split at looks
      · next ends =>
          obtain ⟨rfl, rfl⟩ := Argument.long.inj looks
          rw [ends] at whole
          simpa using whole.symm
      · next first rest goesOn =>
          obtain ⟨rfl, rfl⟩ := Argument.long.inj looks
          obtain rfl : first = '=' := by
            have stops := List.head?_dropWhile_not (· != '=') text
            rw [goesOn] at stops
            simpa using stops
          rw [goesOn] at whole
          simpa using whole.symm
  · contradiction
  · contradiction

theorem eq_of_ofText_eq_letters {argument letters : Text}
    (looks : Argument.ofText argument = .letters letters) :
    argument = '-' :: letters ∧ letters ≠ [] := by
  unfold Argument.ofText at looks
  split at looks
  · contradiction
  · dsimp only at looks
    split at looks <;> contradiction
  · rw [← Argument.letters.inj looks]
    exact ⟨rfl, by simp⟩
  · contradiction

theorem eq_of_ofText_eq_endOfOptions {argument : Text}
    (looks : Argument.ofText argument = .endOfOptions) : argument = ['-', '-'] := by
  unfold Argument.ofText at looks
  split at looks
  · rfl
  · dsimp only at looks
    split at looks <;> contradiction
  · contradiction
  · contradiction

/-! ### Known options -/

theorem find?_eq_some_iff_of_unique {Element : Type} {list : List Element}
    {holds : Element → Bool} {element : Element}
    (unique : ∀ other, holds other = true → holds element = true → other = element) :
    list.find? holds = some element ↔ element ∈ list ∧ holds element = true := by
  constructor
  · exact fun found => ⟨List.mem_of_find?_eq_some found, List.find?_some found⟩
  · rintro ⟨member, here⟩
    obtain ⟨other, found⟩ := Option.isSome_iff_exists.1 (List.find?_isSome.2 ⟨element, member, here⟩)
    rw [found, unique other (List.find?_some found) here]

namespace CommandOption

theorem ofLongName?_eq_some_iff {command : Option CommandName} {name : Text}
    {option : CommandOption} :
    ofLongName? command name = some option ↔
      option ∈ known command ∧ name = option.longName.toList := by
  rw [ofLongName?, find?_eq_some_iff_of_unique, decide_eq_true_eq]
  intro other first second
  have same := (of_decide_eq_true first).symm.trans (of_decide_eq_true second)
  revert same
  cases other <;> cases option <;> decide

theorem ofLetter?_eq_some_iff {command : Option CommandName} {letter : Char}
    {option : CommandOption} :
    ofLetter? command letter = some option ↔
      option ∈ known command ∧ option.letter? = some letter := by
  rw [ofLetter?, find?_eq_some_iff_of_unique, decide_eq_true_eq]
  intro other first second
  have same := (of_decide_eq_true first).trans (of_decide_eq_true second).symm
  have letters : option.letter? ≠ none := by simp [of_decide_eq_true second]
  revert same letters
  cases other <;> cases option <;> decide

theorem letter?_ne_hyphen (option : CommandOption) : option.letter? ≠ some '-' := by
  cases option <;> decide

end CommandOption

theorem forall₂_isFlag_ne_hyphen {known : List CommandOption} {letters : Text}
    {flags : List CommandOption} (all : List.Forall₂ (IsFlag known) letters flags) :
    ∀ letter ∈ letters.head?, letter ≠ '-' := by
  rintro letter first rfl
  cases all with
  | nil => contradiction
  | cons flag others =>
      obtain rfl := Option.some.inj first
      exact CommandOption.letter?_ne_hyphen _ flag.2.2

theorem IsKey.ne_hyphen {known : List CommandOption} {letter : Char} {option : CommandOption}
    (key : IsKey known letter option) : letter ≠ '-' := by
  rintro rfl
  exact option.letter?_ne_hyphen key.2.2

end Bilingual

import Bilingual.Digits

/-!
# Commands and options

The words that can stand on the command line: the names of the commands, the
options that each of them knows, and the values that options take.
-/

namespace Bilingual

/-- The form of a listing. -/
inductive ListingForm
  | simple
  | json
  deriving DecidableEq, Repr

/-- The form of a listing that has a given name. -/
def ListingForm.ofText? (text : Text) : Option ListingForm :=
  if text = "simple".toList then some .simple
  else if text = "json".toList then some .json
  else none

/-- The name of a command. -/
inductive CommandName
  | format
  | toStandard
  | toLocalized
  | scan
  | keywords
  deriving DecidableEq, Repr

namespace CommandName

/-- Every name of a command. -/
def all : List CommandName :=
  [.format, .toStandard, .toLocalized, .scan, .keywords]

/-- The word for a command. -/
def word : CommandName → String
  | .format => "format"
  | .toStandard => "to-standard"
  | .toLocalized => "to-localized"
  | .scan => "scan"
  | .keywords => "keywords"

/-- The command that a word stands for. -/
def ofText? (text : Text) : Option CommandName :=
  all.find? fun name => text = name.word.toList

/-- The command works on a source. -/
def takesSource : CommandName → Bool
  | .keywords => false
  | .format | .toStandard | .toLocalized | .scan => true

end CommandName

/-- An option of the command line. -/
inductive CommandOption
  | config
  | keywords
  | indentWidth
  | verbose
  | version
  | help
  | output
  | inPlace
  | listing
  deriving DecidableEq, Repr

namespace CommandOption

/-- The long name of an option. -/
def longName : CommandOption → String
  | .config => "config"
  | .keywords => "keywords"
  | .indentWidth => "indent-width"
  | .verbose => "verbose"
  | .version => "version"
  | .help => "help"
  | .output => "output"
  | .inPlace => "write"
  | .listing => "format"

/-- The letter of an option, if it has one. -/
def letter? : CommandOption → Option Char
  | .config => some 'c'
  | .keywords => some 'k'
  | .indentWidth => none
  | .verbose => some 'v'
  | .version => some 'V'
  | .help => some 'h'
  | .output => some 'o'
  | .inPlace => some 'w'
  | .listing => some 'f'

/-- A value belongs to the option. -/
def takesValue : CommandOption → Bool
  | .config | .keywords | .indentWidth | .output | .listing => true
  | .verbose | .version | .help | .inPlace => false

/-- The options that can stand in front of the command and behind it. -/
def everywhere : List CommandOption :=
  [.config, .keywords, .indentWidth, .verbose, .help]

/-- The options that can stand behind a command, or in front of any. -/
def known : Option CommandName → List CommandOption
  | none => .version :: everywhere
  | some .format => .output :: .inPlace :: everywhere
  | some .toStandard | some .toLocalized => .output :: everywhere
  | some .scan | some .keywords => .listing :: everywhere

/-- The known option of a given long name. -/
def ofLongName? (command : Option CommandName) (name : Text) : Option CommandOption :=
  (known command).find? fun option => name = option.longName.toList

/-- The known option of a given letter. -/
def ofLetter? (command : Option CommandName) (letter : Char) : Option CommandOption :=
  (known command).find? fun option => option.letter? = some letter

end CommandOption

/-- The width of a level of indentation that a text denotes: decimal digits behind
an optional sign.  It is at least one and has sixteen bits. -/
def indentWidth? (text : Text) : Option Nat :=
  let (negative, digits) := splitSign text
  (number? 10 digits).filter fun width => !negative && 1 ≤ width && width < 0x10000

/-- The values of options.  An option that was not given has none. -/
structure OptionValues where
  config : Option Text
  keywords : Option Text
  indentWidth : Option Nat
  output : Option Text
  inPlace : Bool
  listing : Option ListingForm
  deriving DecidableEq, Repr

namespace OptionValues

/-- No option was given. -/
def none : OptionValues := ⟨.none, .none, .none, .none, false, .none⟩

/-- Adds an option with its value.  The value has to suit the option, and no option
has two values. -/
def withValue? (values : OptionValues) (option : CommandOption) (value : Text) :
    Option OptionValues :=
  match option, values with
  | .config, { config := .none, .. } => some { values with config := some value }
  | .keywords, { keywords := .none, .. } => some { values with keywords := some value }
  | .output, { output := .none, .. } => some { values with output := some value }
  | .indentWidth, { indentWidth := .none, .. } =>
      (indentWidth? value).map fun width => { values with indentWidth := some width }
  | .listing, { listing := .none, .. } =>
      (ListingForm.ofText? value).map fun form => { values with listing := some form }
  | _, _ => .none

end OptionValues

end Bilingual

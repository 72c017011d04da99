import Bilingual.CommandLineOptions

/-!
# Reading the arguments of the command line

Arguments are read from left to right.  An option is written with its long name
behind two hyphens or with its letter behind one; letters may be bundled.  A
value is attached to its option or is the next argument.  Two hyphens alone end
the options.  An option or a word that asks for help, or for the version, is answered
in place of a command.
-/

namespace Bilingual

/-- An argument by its looks.

* `endOfOptions`: two hyphens.
* `long`: the long name of an option, and what follows the first equals sign.
* `letters`: letters of options, the last with its value behind it.
* `plain`: anything else, a single hyphen too. -/
inductive Argument
  | endOfOptions
  | long (name : Text) (value : Option Text)
  | letters (letters : Text)
  | plain (text : Text)
  deriving DecidableEq, Repr

/-- Tells what an argument looks like. -/
def Argument.ofText : Text → Argument
  | ['-', '-'] => .endOfOptions
  | '-' :: '-' :: text =>
      let name := text.takeWhile (· != '=')
      match text.drop name.length with
      | [] => .long name none
      | _ :: value => .long name (some value)
  | '-' :: letter :: rest => .letters (letter :: rest)
  | text => .plain text

/-- A source: the standard input or a file. -/
inductive Source
  | standardInput
  | file (path : Text)
  deriving DecidableEq, Repr

/-- The source of a given name.  A hyphen is the standard input. -/
def Source.ofText (text : Text) : Source :=
  if text = ['-'] then .standardInput else .file text

/-- The path by which messages call a source. -/
def Source.path : Source → Text
  | .standardInput => ['-']
  | .file path => path

/-- Where the result of a conversion goes: to the standard output, to a file, or
into the source itself. -/
inductive Destination
  | standardOutput
  | file (path : Text)
  | source
  deriving DecidableEq, Repr

/-- What is done with a source. -/
inductive Conversion
  | format
  | toStandard
  | toLocalized
  deriving DecidableEq, Repr

/-- A command with all that it needs. -/
inductive Command
  | convert (conversion : Conversion) (source : Source) (destination : Destination)
  | listSpans (source : Source) (form : ListingForm)
  | listKeywords (form : ListingForm)
  deriving DecidableEq, Repr

/-- What the command line asks for: a command, and what it says about settings. -/
structure Invocation where
  settingsFile : Option Text
  tableFile : Option Text
  indentWidth : Option Nat
  command : Command
  deriving DecidableEq, Repr

/-- Why there is nothing to run: the arguments are refused, or they ask for the
version or for help. -/
inductive NoInvocation
  | refused
  | version
  | help
  deriving DecidableEq, Repr

/-- The word that asks for help where a command could stand. -/
def helpWord : String :=
  "help"

/-- Help can be had on everything together, or on what a single word stands for. -/
def isHelpTopic : List Text → Bool
  | [] => true
  | [word] => (CommandName.ofText? word).isSome || word = helpWord.toList
  | _ => false

/-- The arguments that were read so far: the options in front of the command, the
command, the options behind it, and its source.  An option may still await its
value.  Behind the word for help there are only topics. -/
structure ArgumentState where
  before : OptionValues
  command : Option CommandName
  values : OptionValues
  source : Option Text
  awaiting : Option CommandOption
  optionsEnded : Bool
  topics : Option (List Text)
  deriving DecidableEq, Repr

namespace ArgumentState

/-- No argument was read. -/
def initial : ArgumentState := ⟨.none, none, .none, none, none, false, none⟩

/-- Reads the value of an option. -/
def withValue (state : ArgumentState) (option : CommandOption) (value : Text) :
    Except NoInvocation ArgumentState :=
  match state.values.withValue? option value with
  | some values => .ok { state with values := values, awaiting := none }
  | none => .error .refused

/-- Reads an option without a value.  Only the one for more messages may be
repeated. -/
def withFlag (state : ArgumentState) (option : CommandOption) :
    Except NoInvocation ArgumentState :=
  match option with
  | .version => .error .version
  | .help => .error .help
  | .verbose => .ok state
  | _ =>
      if state.values.inPlace then .error .refused
      else .ok { state with values := { state.values with inPlace := true } }

/-- Reads an option that is written with its long name. -/
def withLong (state : ArgumentState) (name : Text) (value : Option Text) :
    Except NoInvocation ArgumentState :=
  match CommandOption.ofLongName? state.command name with
  | none => .error .refused
  | some option =>
      match option.takesValue, value with
      | true, some value => state.withValue option value
      | true, none => .ok { state with awaiting := some option }
      | false, some _ => .error .refused
      | false, none => state.withFlag option

/-- Reads options that are written with their letters.  What follows the letter of an
option that takes a value is that value. -/
def withLetters (state : ArgumentState) : Text → Except NoInvocation ArgumentState
  | [] => .ok state
  | letter :: letters =>
      match CommandOption.ofLetter? state.command letter with
      | none => .error .refused
      | some option =>
          if option.takesValue then
            match letters with
            | [] => .ok { state with awaiting := some option }
            | '=' :: value => state.withValue option value
            | value => state.withValue option value
          else
            match state.withFlag option with
            | .ok state => state.withLetters letters
            | .error reason => .error reason

/-- Reads the source of a command. -/
def withSource (state : ArgumentState) (text : Text) :
    Except NoInvocation ArgumentState :=
  match state.command, state.source with
  | some command, none =>
      if command.takesSource then .ok { state with source := some text }
      else .error .refused
  | _, _ => .error .refused

/-- Reads an argument that is neither an option nor the value of one. -/
def withPlain (state : ArgumentState) (text : Text) :
    Except NoInvocation ArgumentState :=
  match state.command with
  | some _ => state.withSource text
  | none =>
      match CommandName.ofText? text with
      | some command =>
          .ok { state with
            before := state.values
            command := some command
            values := .none }
      | none =>
          if text = helpWord.toList then .ok { state with topics := some [] }
          else .error .refused

/-- Reads an argument that is no topic of help. -/
def withArgument (state : ArgumentState) (argument : Text) :
    Except NoInvocation ArgumentState :=
  if state.optionsEnded then state.withSource argument
  else
    match Argument.ofText argument, state.awaiting with
    | .plain text, some option => state.withValue option text
    | .plain text, none => state.withPlain text
    | _, some _ => .error .refused
    | .endOfOptions, none => .ok { state with optionsEnded := true }
    | .long name value, none => state.withLong name value
    | .letters letters, none => state.withLetters letters

/-- Reads an argument. -/
def step (state : ArgumentState) (argument : Text) :
    Except NoInvocation ArgumentState :=
  match state.topics with
  | some topics => .ok { state with topics := some (topics ++ [argument]) }
  | none => state.withArgument argument

/-- Where the result of a conversion is to go.  There cannot be two such places. -/
def destination (state : ArgumentState) : Except NoInvocation Destination :=
  match state.values.output, state.values.inPlace with
  | some path, false => .ok (.file path)
  | none, true => .ok .source
  | none, false => .ok .standardOutput
  | some _, true => .error .refused

/-- The command that was read, if nothing is missing. -/
def finishedCommand (state : ArgumentState) : Except NoInvocation Command :=
  let form := state.values.listing.getD .simple
  match state.command, state.source.map Source.ofText with
  | some .format, some source => state.destination.map (.convert .format source)
  | some .toStandard, some source => state.destination.map (.convert .toStandard source)
  | some .toLocalized, some source =>
      state.destination.map (.convert .toLocalized source)
  | some .scan, some source => .ok (.listSpans source form)
  | some .keywords, _ => .ok (.listKeywords form)
  | _, _ => .error .refused

/-- What the arguments ask for.  An option behind the command wins over the same
option in front of it. -/
def finish (state : ArgumentState) : Except NoInvocation Invocation :=
  match state.topics, state.awaiting with
  | some topics, _ => .error (if isHelpTopic topics then .help else .refused)
  | none, some _ => .error .refused
  | none, none => state.finishedCommand.map fun command =>
      { settingsFile := state.values.config <|> state.before.config
        tableFile := state.values.keywords <|> state.before.keywords
        indentWidth := state.values.indentWidth <|> state.before.indentWidth
        command := command }

end ArgumentState

/-- Reads arguments. -/
def readArguments (arguments : List Text) : Except NoInvocation Invocation :=
  (arguments.foldlM ArgumentState.step .initial).bind ArgumentState.finish

end Bilingual

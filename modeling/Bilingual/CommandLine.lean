import Bilingual.CommandLineArguments
import Bilingual.IndentLimits
import Bilingual.KeywordSubstitution
import Bilingual.Listings
import Bilingual.SettingsLoader
import Bilingual.SpanScanner

/-!
# The command line

A command sees files and the standard input.  It loads its settings and its
keyword table first, then reads its source, works on it, and only then delivers
a result: to the standard output or to one file.
-/

namespace Bilingual

/-- What a command can see. -/
structure Surroundings where
  files : FileTree
  standardInput : FileContent
  deriving DecidableEq, Repr

/-- Why a command fails. -/
inductive CommandError
  | settings (reason : SettingsError)
  | table (reason : KeywordTableError)
  | unreadable (source : Source) (reason : FileError)
  | unwritable (path : Text) (reason : FileError)
  | standardInputInPlace
  | overflow (reason : IndentOverflow)
  deriving DecidableEq, Repr

/-- The wording of the reason. -/
def CommandError.message : CommandError → String
  | .settings reason => "Error: configuration error: " ++ reason.message
  | .table reason => "Error: " ++ reason.message
  | .unreadable source reason =>
      "Error: failed to read " ++ String.ofList source.path ++ ": " ++ reason.message
  | .unwritable path reason =>
      "Error: failed to write " ++ String.ofList path ++ ": " ++ reason.message
  | .standardInputInPlace =>
      "Error: failed to write -: --write needs a file path, not standard input"
  | .overflow reason => "panicked: " ++ reason.message

/-- The exit status that tells of the failure. -/
def CommandError.status : CommandError → Nat
  | .overflow _ => 101
  | _ => 1

/-- What a run has delivered so far: its text on the standard output, and the files. -/
@[ext]
structure Delivery where
  output : Text
  files : FileTree
  deriving DecidableEq, Repr

/-- A step of a run.  What was delivered remains when it fails. -/
abbrev CommandStep := EStateM CommandError Delivery

/-- Goes on with a value that was found, or fails. -/
def orFail {Reason Value : Type} (found : Except Reason Value)
    (failure : Reason → CommandError) : CommandStep Value :=
  match found with
  | .ok value => pure value
  | .error reason => throw (failure reason)

/-- Prints a text. -/
def printText (text : Text) : CommandStep Unit :=
  modify fun delivered => { delivered with output := delivered.output ++ text }

/-- Writes a file. -/
def writeFile (path content : Text) : CommandStep Unit := do
  let delivered ← get
  let files ← orFail (delivered.files.write path content) (.unwritable path)
  set { delivered with files := files }

/-- The text of a source. -/
def Source.text (input : FileContent) (files : FileTree) : Source → Except FileError Text
  | .standardInput => FileTree.textOf input
  | .file path => files.read path

/-- Reads a source. -/
def Source.read (source : Source) (input : FileContent) : CommandStep Text := do
  let delivered ← get
  orFail (source.text input delivered.files) (.unreadable source)

/-! ### Conversions -/

/-- What the settings provide: a keyword table, and rules for the formatter. -/
structure Tools where
  table : KeywordTable
  rules : FormatRules

/-- Formats localized source. -/
def Tools.format (tools : Tools) (localized : Text) : Except IndentOverflow Text := do
  let formatted ← formatWithin tools.rules (toStandard tools.table localized)
  return toLocalized tools.table formatted

/-- Does a conversion. -/
def Conversion.apply (tools : Tools) (text : Text) : Conversion → Except IndentOverflow Text
  | .format => tools.format text
  | .toStandard => .ok (Bilingual.toStandard tools.table text)
  | .toLocalized => .ok (Bilingual.toLocalized tools.table text)

/-- Delivers the result of a conversion of the text of a source.  A source that already is
the result is not written. -/
def Destination.deliver (source : Source) (text result : Text) : Destination → CommandStep Unit
  | .standardOutput => printText result
  | .file path => writeFile path result
  | .source =>
      match source with
      | .standardInput => throw .standardInputInPlace
      | .file path => if result = text then pure () else writeFile path result

/-! ### Commands -/

/-- The listing of spans. -/
def spanListing (spans : List Span) : ListingForm → Text
  | .simple => spans.flatMap spanLine
  | .json => jsonListing (spans.map Span.toJson)

/-- The listing of entries. -/
def entryListing (entries : List KeywordEntry) : ListingForm → Text
  | .simple => entries.flatMap entryLine
  | .json => jsonListing (entries.map KeywordEntry.toJson)

/-- Runs a command. -/
def Command.run (tools : Tools) (input : FileContent) : Command → CommandStep Unit
  | .convert conversion source destination => do
      let text ← source.read input
      let result ← orFail (conversion.apply tools text) .overflow
      destination.deliver source text result
  | .listSpans source form => do
      let text ← source.read input
      printText (spanListing (scan text) form)
  | .listKeywords form => printText (entryListing tools.table.sortedEntries form)

namespace Invocation

/-- The layers of settings: a file, and above it what the options say. -/
def loader (invocation : Invocation) : Except SettingsError SettingsLoader := do
  let files : SettingsLoader :=
    match invocation.settingsFile with
    | some path => .withFile .builtin path true
    | none => .builtin
  let withTable ← match invocation.tableFile with
    | some path => files.withOverride "keywords.table".toList (.text path)
    | none => .ok files
  match invocation.indentWidth with
  | some width => withTable.withOverride "formatting.indent_width".toList (.integer width)
  | none => .ok withTable

/-- The settings of an invocation. -/
def settings (invocation : Invocation) (files : FileTree) :
    Except SettingsError Settings :=
  invocation.loader.bind fun loader => loader.load files

/-- Loads what an invocation works with. -/
def tools (invocation : Invocation) : CommandStep Tools := do
  let delivered ← get
  let settings ← orFail (invocation.settings delivered.files) .settings
  let table ← orFail (settings.keywordTable delivered.files) .table
  return ⟨table, settings.formatting⟩

/-- Runs an invocation. -/
def run (invocation : Invocation) (input : FileContent) : CommandStep Unit := do
  let tools ← invocation.tools
  invocation.command.run tools input

end Invocation

/-! ### The whole program -/

/-- What a run leaves: its exit status, its texts on the standard output and on the
error output, and the files. -/
structure Outcome where
  status : Nat
  output : Text
  errorOutput : Text
  files : FileTree
  deriving DecidableEq, Repr

/-- The line that tells the version. -/
def versionLine : Text :=
  "piyafmt 0.1.0\n".toList

/-- The line that stands for the help on the program or on one of its commands, which is
not spelled out any further. -/
def helpLine : Text :=
  "Usage: piyafmt [OPTIONS] <COMMAND>\n".toList

/-- The line that answers arguments that ask for nothing. -/
def refusalLine : Text :=
  "error: the arguments do not ask for any command\n".toList

/-- The outcome of a run with given arguments. -/
def runCommandLine (arguments : List Text) (surroundings : Surroundings) : Outcome :=
  match readArguments arguments with
  | .error .version => ⟨0, versionLine, [], surroundings.files⟩
  | .error .help => ⟨0, helpLine, [], surroundings.files⟩
  | .error .refused => ⟨2, [], refusalLine, surroundings.files⟩
  | .ok invocation =>
      match (invocation.run surroundings.standardInput).run ⟨[], surroundings.files⟩ with
      | .ok _ delivered => ⟨0, delivered.output, [], delivered.files⟩
      | .error reason delivered =>
          ⟨reason.status, delivered.output, (reason.message ++ "\n").toList, delivered.files⟩

end Bilingual

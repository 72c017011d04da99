import Bilingual.BuiltinKeywords
import Bilingual.FormatRules
import Bilingual.KeyPath
import Bilingual.KeywordTableFile
import Bilingual.TomlDocument

/-!
# Loading settings

Settings come in layers: built-in ones, then files in the order in which they were
added, and above all of them single values.  Each layer overrides the ones below
it, member by member.  Files are TOML, whatever their names say.
-/

namespace Bilingual

/-- Why there are no settings.

* `path`: a name has not the form of a path.
* `syntaxError`: a file is not TOML.
* `unreadable`: a file cannot be found or read.
* `kind`: a value cannot be converted to what its setting wants.
* `shape`: a group of settings is no group, or lacks a member. -/
inductive SettingsError
  | path (name : Text)
  | syntaxError (file : Text)
  | unreadable (file : Text)
  | kind (setting : String)
  | shape (group : String)
  deriving DecidableEq, Repr

/-- The wording of the reason. -/
def SettingsError.message : SettingsError → String
  | .path name => "`" ++ String.ofList name ++ "` is not the path of a setting"
  | .syntaxError file => "malformed configuration file " ++ String.ofList file
  | .unreadable file => "unreadable configuration file " ++ String.ofList file
  | .kind setting => "the value of `" ++ setting ++ "` is of the wrong kind"
  | .shape group => "`" ++ group ++ "` is not a complete group of settings"

/-- Settings: the rules of the formatter and the file of the keyword table, if it
is not the built-in one. -/
structure Settings where
  formatting : FormatRules
  tableFile : Option Text
  deriving DecidableEq, Repr

/-- The keyword table of given settings. -/
def Settings.keywordTable (settings : Settings) (tree : FileTree) :
    Except KeywordTableError KeywordTable :=
  match settings.tableFile with
  | some path => KeywordTable.ofFile tree path
  | none => .ok .builtin

/-! ### Reading settings from values -/

/-- Reads a setting with a conversion. -/
def convertSetting {Value : Type} (name : String)
    (convert? : SettingValue → Option Value) (value : SettingValue) :
    Except SettingsError Value :=
  match convert? value with
  | some converted => .ok converted
  | none => .error (.kind name)

/-- Reads a setting that may be left out. -/
def convertOr {Value : Type} (name : String) (standard : Value)
    (convert? : SettingValue → Option Value) (value : Option SettingValue) :
    Except SettingsError Value :=
  match value with
  | none => .ok standard
  | some value => convertSetting name convert? value

/-- Reads format rules, given how to find the settings in their order. -/
def formatRulesOf (setting? : String → Nat → Option SettingValue) :
    Except SettingsError FormatRules := do
  let standard := FormatRules.standard
  let indentWidth ← convertOr "indent_width" standard.indentWidth SettingValue.word64?
    (setting? "indent_width" 0)
  let spaceAfterComma ← convertOr "space_after_comma" standard.spaceAfterComma
    SettingValue.truth? (setting? "space_after_comma" 1)
  let spaceAfterColon ← convertOr "space_after_colon" standard.spaceAfterColon
    SettingValue.truth? (setting? "space_after_colon" 2)
  let reindentComments ← convertOr "reindent_comments" standard.reindentComments
    SettingValue.truth? (setting? "reindent_comments" 3)
  return ⟨indentWidth, spaceAfterComma, spaceAfterColon, reindentComments⟩

/-- Reads the group of the formatter: a table, or a list of the settings in their
order. -/
def readFormatting : SettingValue → Except SettingsError FormatRules
  | .table members => formatRulesOf fun name _ => members.lookup name.toList
  | .list elements => formatRulesOf fun _ position => elements[position]?
  | _ => .error (.shape "formatting")

/-- Reads the path of the keyword table.  Null means that there is none. -/
def readTableFile : SettingValue → Except SettingsError (Option Text)
  | .null => .ok none
  | value => (convertSetting "table" SettingValue.text? value).map some

/-- Reads the group of the keyword table: a table, or a list of one setting at
least. -/
def readKeywords : SettingValue → Except SettingsError (Option Text)
  | .table members =>
      match members.lookup "table".toList with
      | some value => readTableFile value
      | none => .ok none
  | .list (value :: _) => readTableFile value
  | _ => .error (.shape "keywords")

/-- Reads settings from the value of all layers together. -/
def Settings.ofValue (value : SettingValue) : Except SettingsError Settings := do
  let formatting ← match value.member? "formatting".toList with
    | some group => readFormatting group
    | none => .error (.shape "formatting")
  let tableFile ← match value.member? "keywords".toList with
    | some group => readKeywords group
    | none => .ok none
  return ⟨formatting, tableFile⟩

/-! ### Layers -/

/-- The names and values of the built-in layer. -/
def builtinSettings : List (Text × SettingValue) :=
  [("formatting".toList, .table
      [("indent_width".toList, .integer 4),
        ("space_after_comma".toList, .boolean false),
        ("space_after_colon".toList, .boolean false),
        ("reindent_comments".toList, .boolean true)]),
    ("keywords".toList, .table [])]

/-- A file of settings.  One that is not required counts only if it can be read. -/
structure SettingsFile where
  path : Text
  required : Bool
  deriving DecidableEq, Repr

/-- Layers of settings that have not been loaded yet: files, and single values with
their paths, in the order in which they were added. -/
structure SettingsLoader where
  files : List SettingsFile
  overrides : List (KeyPath × SettingValue)
  deriving Repr

namespace SettingsLoader

/-- The built-in layer alone. -/
def builtin : SettingsLoader := ⟨[], []⟩

/-- Adds a file. -/
def withFile (loader : SettingsLoader) (path : Text) (required : Bool) : SettingsLoader :=
  { loader with files := loader.files ++ [⟨path, required⟩] }

/-- Sets a single value.  It replaces an earlier one of the same path. -/
def withOverride (loader : SettingsLoader) (name : Text) (value : SettingValue) :
    Except SettingsError SettingsLoader :=
  match KeyPath.read? name with
  | none => .error (.path name)
  | some path =>
      .ok { loader with
        overrides := loader.overrides.filter (·.1 ≠ path) ++ [(path, value)] }

/-- The text of a file.  If there is no file of the given name, the one with the
usual ending behind the name is meant. -/
def fileText? (tree : FileTree) (path : Text) : Option Text :=
  if tree.isFile path then (tree.read path).toOption
  else
    match appendToFileName? path ".toml".toList with
    | some longer => if tree.isFile longer then (tree.read longer).toOption else none
    | none => none

/-- The names and values of a file. -/
def fileMembers (tree : FileTree) (file : SettingsFile) :
    Except SettingsError (List (Text × SettingValue)) :=
  match fileText? tree file.path with
  | none => if file.required then .error (.unreadable file.path) else .ok []
  | some text =>
      match readToml? text with
      | some members => .ok members
      | none => .error (.syntaxError file.path)

/-- Lays a layer over a value. -/
def layOver (value : SettingValue) (members : List (Text × SettingValue)) : SettingValue :=
  members.foldl (fun value member => value.putNamed member.1 member.2) value

/-- Lays files over a value, one after the other. -/
def layFiles (tree : FileTree) (value : SettingValue) :
    List SettingsFile → Except SettingsError SettingValue
  | [] => .ok value
  | file :: files =>
      match fileMembers tree file with
      | .error reason => .error reason
      | .ok members => layFiles tree (layOver value members) files

/-- The value of all layers together. -/
def combined (loader : SettingsLoader) (tree : FileTree) :
    Except SettingsError SettingValue :=
  (layFiles tree (layOver (.table []) builtinSettings) loader.files).map fun value =>
    loader.overrides.foldl (fun value override => value.putAtPath override.1 override.2)
      value

/-- Loads the settings. -/
def load (loader : SettingsLoader) (tree : FileTree) : Except SettingsError Settings :=
  (loader.combined tree).bind Settings.ofValue

end SettingsLoader

end Bilingual

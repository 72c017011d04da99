import Bilingual.CommandLine
import Bilingual.Proofs.LayeredSettings
import Bilingual.Proofs.RequestedCommands

/-!
# Settings of a command line

The built-in settings lie under the file that an option names, and this lies under the values
that other options give.  So each field says what its own option gives, otherwise what the
file assigns to it, otherwise its built-in value.  `settles_iff` says that the program runs
with just these settings.
-/

namespace Bilingual

namespace Request

/-- The value that an option of the request gives for a field. -/
def fieldValue? (request : Request) : SettingField → Option SettingValue
  | .tableFile => (request.value? .keywords).map .text
  | .indentWidth =>
      ((request.value? .indentWidth).bind indentWidth?).map fun width : Nat => .integer width
  | .spaceAfterComma | .spaceAfterColon | .reindentComments => none

/-- The value that the file of settings assigns to a field last. -/
def configured? (request : Request) (tree : FileTree) (field : SettingField) :
    Option SettingValue :=
  (request.value? .config).bind fun path =>
    ((LoaderStep.file path true).written tree field).getLast?

/-- The file of settings, if there is one, can be read and assigns values of the right
types. -/
def IsConfigured (request : Request) (tree : FileTree) : Prop :=
  ∀ path ∈ request.value? .config, (LoaderStep.file path true).IsProper tree

/-- The layers above the built-in one: the file of settings, and above it the values that
options give. -/
def layers (request : Request) : List LoaderStep :=
  ((request.value? .config).map fun path => .file path true).toList ++
    ((request.fieldValue? .tableFile).map (.override .tableFile)).toList ++
      ((request.fieldValue? .indentWidth).map (.override .indentWidth)).toList

/-- The settings for a request.

* `loaded`: they come from its layers.
* `fields`: each field is settled for itself, by its option, or else by the file, or else by
  its built-in value. -/
structure Settles (request : Request) (tree : FileTree) (settings : Settings) : Prop where
  loaded : loadSteps request.layers tree = .ok settings
  fields : request.IsConfigured tree → ∀ field : SettingField, field.get settings =
    field.chosen ((request.fieldValue? field).or (request.configured? tree field))

section Layers

variable {request : Request} {tree : FileTree}

theorem isSome_read?_fieldValue? {field : SettingField} {value : SettingValue}
    (given : request.fieldValue? field = some value) : (field.read? value).isSome = true := by
  cases field with
  | tableFile =>
      obtain ⟨path, -, rfl⟩ := Option.map_eq_some_iff.1 given
      rfl
  | indentWidth =>
      obtain ⟨width, set, rfl⟩ := Option.map_eq_some_iff.1 given
      obtain ⟨text, -, denotes⟩ := Option.bind_eq_some_iff.1 set
      have bound : width < 0x10000 := by
        have holds := (Option.filter_eq_some_iff.1 denotes).2
        simp only [Bool.and_eq_true, decide_eq_true_eq] at holds
        exact holds.2
      have fits : isWord64 width = true := decide_eq_true (by omega)
      have positive : ¬(width : Int) < 0 := by omega
      simp [SettingField.read?, SettingValue.word64?, fits, positive]
  | spaceAfterComma | spaceAfterColon | reindentComments => contradiction

theorem isProper_layers (configured : request.IsConfigured tree) :
    ∀ step ∈ request.layers, step.IsProper tree := by
  intro step member
  simp only [layers, List.mem_append, Option.mem_toList,
    Option.map_eq_some_iff] at member
  obtain (⟨path, given, rfl⟩ | ⟨value, given, rfl⟩) | ⟨value, given, rfl⟩ := member
  · exact configured path given
  · exact isSome_read?_fieldValue? given
  · exact isSome_read?_fieldValue? given

theorem lastValue?_layers (field : SettingField) :
    lastValue? tree request.layers field =
      (request.fieldValue? field).or (request.configured? tree field) := by
  -- Values that options give win over the file, whatever their order.
  have above : (request.layers.flatMap (·.overriding field)).getLast? =
      request.fieldValue? field := by
    have file : ((request.value? .config).map fun path => .file path true).toList.flatMap
        (LoaderStep.overriding field) = [] := by
      cases request.value? .config <;> rfl
    have option (other : SettingField) :
        ((request.fieldValue? other).map (.override other)).toList.flatMap
          (LoaderStep.overriding field) =
        if other = field then (request.fieldValue? other).toList else [] := by
      cases request.fieldValue? other <;> simp [LoaderStep.overriding]
    rw [layers, List.flatMap_append, List.flatMap_append, file, option, option]
    cases field with
    | tableFile => cases request.fieldValue? .tableFile <;> simp
    | indentWidth => cases request.fieldValue? .indentWidth <;> simp
    | spaceAfterComma | spaceAfterColon | reindentComments => rfl
  have below : (request.layers.flatMap (·.written tree field)).getLast? =
      request.configured? tree field := by
    rw [layers, configured?]
    cases request.value? .config <;> cases request.fieldValue? .tableFile <;>
      cases request.fieldValue? .indentWidth <;> simp [LoaderStep.written]
  rw [lastValue?, above, below]

end Layers

/-- A file of settings whose values are of the right types leaves no request without
settings. -/
theorem exists_settles {request : Request} {tree : FileTree}
    (configured : request.IsConfigured tree) : ∃ settings, request.Settles tree settings := by
  obtain ⟨settings, loaded, fields⟩ := exists_loadSteps (isProper_layers configured)
  exact ⟨settings, loaded, fun _ field => by rw [fields, lastValue?_layers]⟩

theorem loader_invocation (request : Request) :
    request.invocation.loader = request.layers.foldlM LoaderStep.extend .builtin := by
  have tableKey : "keywords.table".toList = SettingField.tableFile.key := by decide
  have widthKey : "formatting.indent_width".toList = SettingField.indentWidth.key := by decide
  have set (loader : SettingsLoader) (field : SettingField) (value : SettingValue) :
      loader.withOverride field.key value = .ok (loader.setField field value) :=
    (LoaderStep.override field value).extend_eq loader
  unfold Invocation.loader layers fieldValue? invocation
  rw [foldlM_extend, tableKey, widthKey]
  cases request.value? .config <;> cases request.value? .keywords <;>
    cases (request.value? .indentWidth).bind indentWidth? <;> simp only [set] <;> rfl

theorem settles_iff {request : Request} {tree : FileTree} {settings : Settings} :
    request.Settles tree settings ↔ request.invocation.settings tree = .ok settings := by
  rw [Invocation.settings, loader_invocation]
  refine ⟨Settles.loaded, fun loaded => ⟨loaded, fun configured => ?_⟩⟩
  obtain ⟨other, settles⟩ := exists_settles configured
  obtain rfl : other = settings := Except.ok.inj (settles.loaded.symm.trans loaded)
  exact settles.fields configured

end Request

end Bilingual

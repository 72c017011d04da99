import Bilingual.Proofs.SettingFields
import Mathlib.Data.List.Basic

/-!
# Layers of settings

Files and single values are added to a loader in any order.  When they assign values of the
right types to known fields, each field is settled for itself: by the last single value for
it, otherwise by the last file that sets it, otherwise by the built-in value.  So it does not
matter how single values stand between files, or values for different fields among each
other.  The main statement is `load_fieldwise`.
-/

namespace Bilingual

/-- A step in the making of a loader: a file is added, or a field is set to a value. -/
inductive LoaderStep
  | file (path : Text) (required : Bool)
  | override (field : SettingField) (value : SettingValue)

/-- The path that a name in a file stands for. -/
def pathOf (name : Text) : KeyPath :=
  (KeyPath.read? name).getD ⟨name, []⟩

namespace SettingField

/-- The values that names and values of a file assign to a field. -/
def assignedBy (field : SettingField) (members : List (Text × SettingValue)) :
    List SettingValue :=
  members.flatMap fun member => field.assigned (pathOf member.1) member.2

/-- The values that single values at paths assign to a field. -/
def assignedAt (field : SettingField) (overrides : List (KeyPath × SettingValue)) :
    List SettingValue :=
  overrides.flatMap fun override => field.assigned override.1 override.2

end SettingField

namespace LoaderStep

/-- Takes the step. -/
def extend (loader : SettingsLoader) : LoaderStep → Except SettingsError SettingsLoader
  | .file path required => .ok (loader.withFile path required)
  | .override field value => loader.withOverride field.key value

/-- The values to which the step sets a field above all files. -/
def overriding (field : SettingField) : LoaderStep → List SettingValue
  | .file _ _ => []
  | .override other value => if other = field then [value] else []

/-- The values that the file of the step assigns to a field. -/
def written (tree : FileTree) (field : SettingField) : LoaderStep → List SettingValue
  | .file path required =>
      match SettingsLoader.fileMembers tree ⟨path, required⟩ with
      | .ok members => field.assignedBy members
      | .error _ => []
  | .override _ _ => []

/-- The file of the step can be read and assigns values of the right types, or a field is
set to such a value. -/
def IsProper (tree : FileTree) : LoaderStep → Prop
  | .file path required =>
      ∃ members, SettingsLoader.fileMembers tree ⟨path, required⟩ = .ok members ∧
        ∀ member ∈ members, Assigns (pathOf member.1) member.2
  | .override field value => (field.read? value).isSome = true

instance (tree : FileTree) (step : LoaderStep) : Decidable (step.IsProper tree) :=
  match step with
  | .override field value => inferInstanceAs (Decidable ((field.read? value).isSome = true))
  | .file path required =>
      match read : SettingsLoader.fileMembers tree ⟨path, required⟩ with
      | .ok members =>
          decidable_of_iff (∀ member ∈ members, Assigns (pathOf member.1) member.2)
            (by simp [IsProper, read])
      | .error _ => .isFalse (by simp [IsProper, read])

/-- The step adds a file. -/
def addsFile : LoaderStep → Bool
  | .file _ _ => true
  | .override _ _ => false

/-- The step sets a field above all files. -/
def overrides (field : SettingField) : LoaderStep → Bool
  | .file _ _ => false
  | .override other _ => other = field

end LoaderStep

/-- Loads the settings of a loader that is made by some steps. -/
def loadSteps (steps : List LoaderStep) (tree : FileTree) : Except SettingsError Settings :=
  (steps.foldlM LoaderStep.extend .builtin).bind (·.load tree)

/-! ### Values on top of each other -/

section Layers

variable {value : SettingValue} {known : SettingField → Option SettingValue}

/-- Each field has the last value that is assigned to it. -/
theorem HasFields.foldl (has : HasFields value known) {overrides : List (KeyPath × SettingValue)}
    (assigns : ∀ override ∈ overrides, Assigns override.1 override.2) :
    HasFields
      (overrides.foldl (fun value override => value.putAtPath override.1 override.2) value)
      fun field => (field.assignedAt overrides).getLast?.or (known field) := by
  induction overrides generalizing value known with
  | nil => exact has
  | cons override overrides induction =>
      obtain ⟨first, others⟩ := List.forall_mem_cons.1 assigns
      have rest := induction (has.putAtPath first) others
      simpa only [SettingField.assignedAt, List.flatMap_cons, List.getLast?_append,
        Option.or_assoc, List.foldl_cons] using rest

theorem putNamed_eq (target : SettingValue) (name : Text) (value : SettingValue) :
    target.putNamed name value = target.putAtPath (pathOf name) value := by
  unfold SettingValue.putNamed pathOf
  cases KeyPath.read? name <;> rfl

theorem HasFields.layOver (has : HasFields value known) {members : List (Text × SettingValue)}
    (assigns : ∀ member ∈ members, Assigns (pathOf member.1) member.2) :
    HasFields (SettingsLoader.layOver value members)
      fun field => (field.assignedBy members).getLast?.or (known field) := by
  have assigns : ∀ override ∈ members.map fun member => (pathOf member.1, member.2),
      Assigns override.1 override.2 :=
    List.forall_mem_map.2 assigns
  have placed := has.foldl assigns
  simpa only [SettingField.assignedAt, SettingField.assignedBy, List.flatMap_map, List.foldl_map,
    SettingsLoader.layOver, putNamed_eq] using placed

/-- The values that files assign to a field. -/
def SettingField.assignedIn (field : SettingField) (tree : FileTree)
    (files : List SettingsFile) : List SettingValue :=
  files.flatMap fun file => (LoaderStep.file file.path file.required).written tree field

theorem HasFields.layFiles (has : HasFields value known) {tree : FileTree}
    {files : List SettingsFile}
    (proper : ∀ file ∈ files, (LoaderStep.file file.path file.required).IsProper tree) :
    ∃ result, SettingsLoader.layFiles tree value files = .ok result ∧
      HasFields result fun field => (field.assignedIn tree files).getLast?.or (known field) := by
  induction files generalizing value known with
  | nil => exact ⟨value, rfl, has⟩
  | cons file files induction =>
      obtain ⟨⟨members, read, assigns⟩, others⟩ := List.forall_mem_cons.1 proper
      obtain ⟨result, laid, rest⟩ := induction (has.layOver assigns) others
      refine ⟨result, ?_, ?_⟩
      · rw [SettingsLoader.layFiles, read]
        exact laid
      · have first : ∀ field : SettingField,
            (LoaderStep.file file.path file.required).written tree field =
              field.assignedBy members := by
          intro field
          rw [LoaderStep.written, read]
        simpa only [SettingField.assignedIn, List.flatMap_cons, List.getLast?_append, first,
          Option.or_assoc] using rest

end Layers

/-! ### Making a loader -/

namespace SettingsLoader

/-- Sets a field above all files. -/
def setField (loader : SettingsLoader) (field : SettingField) (value : SettingValue) :
    SettingsLoader :=
  { loader with
    overrides := loader.overrides.filter (·.1 ≠ field.path) ++ [(field.path, value)] }

end SettingsLoader

theorem SettingField.read?_key (field : SettingField) :
    KeyPath.read? field.key = some field.path := by
  cases field <;> decide +kernel

/-- A value at the path of a field is assigned to that field only. -/
theorem SettingField.assigned_path (field other : SettingField) (value : SettingValue) :
    field.assigned other.path value = if other = field then [value] else [] := by
  cases field <;> cases other <;> rfl

/-- The loader behind a step. -/
def LoaderStep.apply (loader : SettingsLoader) : LoaderStep → SettingsLoader
  | .file path required => loader.withFile path required
  | .override field value => loader.setField field value

theorem LoaderStep.extend_eq (step : LoaderStep) (loader : SettingsLoader) :
    step.extend loader = .ok (step.apply loader) := by
  cases step with
  | file path required => rfl
  | override field value =>
      rw [extend, SettingsLoader.withOverride, field.read?_key]
      rfl

theorem foldlM_extend (steps : List LoaderStep) (loader : SettingsLoader) :
    steps.foldlM LoaderStep.extend loader = .ok (steps.foldl LoaderStep.apply loader) := by
  have pureStep : LoaderStep.extend = fun loader step => pure (step.apply loader) := by
    funext loader step
    exact step.extend_eq loader
  rw [pureStep]
  exact List.foldlM_pure

/-- The files that a step adds. -/
def LoaderStep.files : LoaderStep → List SettingsFile
  | .file path required => [⟨path, required⟩]
  | .override _ _ => []

theorem files_foldl (steps : List LoaderStep) (loader : SettingsLoader) :
    (steps.foldl LoaderStep.apply loader).files =
      loader.files ++ steps.flatMap LoaderStep.files := by
  induction steps generalizing loader with
  | nil => simp
  | cons step steps induction =>
      rw [List.foldl_cons, induction, List.flatMap_cons, ← List.append_assoc]
      cases step with
      | file path required => rfl
      | override field value => simp [LoaderStep.apply, SettingsLoader.setField, LoaderStep.files]

theorem assignedIn_files (steps : List LoaderStep) (tree : FileTree) (field : SettingField) :
    field.assignedIn tree (steps.flatMap LoaderStep.files) =
      steps.flatMap (·.written tree field) := by
  rw [SettingField.assignedIn, List.flatMap_assoc]
  refine List.flatMap_congr fun step _ => ?_
  cases step with
  | file path required => exact List.append_nil _
  | override field value => rfl

theorem flatMap_filter_of_eq_nil {Element Value : Type} {keep : Element → Bool}
    {collect : Element → List Value} {list : List Element}
    (dropped : ∀ element ∈ list, keep element = false → collect element = []) :
    (list.filter keep).flatMap collect = list.flatMap collect := by
  induction list with
  | nil => rfl
  | cons element list induction =>
      obtain ⟨first, others⟩ := List.forall_mem_cons.1 dropped
      rw [List.flatMap_cons, ← induction others]
      cases kept : keep element with
      | true => rw [List.filter_cons_of_pos kept, List.flatMap_cons]
      | false => rw [List.filter_cons_of_neg (by simp [kept]), first kept, List.nil_append]

/-- The values that are set above all files for one field leave those for others alone. -/
theorem getLast?_assignedAt_setField (loader : SettingsLoader) (field other : SettingField)
    (value : SettingValue) :
    (field.assignedAt (loader.setField other value).overrides).getLast? =
      if other = field then some value else (field.assignedAt loader.overrides).getLast? := by
  rw [SettingField.assignedAt, SettingsLoader.setField, List.flatMap_append,
    List.flatMap_singleton, field.assigned_path]
  by_cases same : other = field
  · rw [if_pos same, if_pos same, List.getLast?_concat]
  · rw [if_neg same, if_neg same, List.append_nil, flatMap_filter_of_eq_nil]
    · rfl
    · intro override _ removed
      obtain ⟨path, one⟩ := override
      obtain rfl : path = other.path := by simpa using removed
      rw [field.assigned_path, if_neg same]

theorem getLast?_assignedAt_foldl (steps : List LoaderStep) (loader : SettingsLoader)
    (field : SettingField) :
    (field.assignedAt (steps.foldl LoaderStep.apply loader).overrides).getLast? =
      (steps.flatMap (·.overriding field)).getLast?.or
        (field.assignedAt loader.overrides).getLast? := by
  induction steps generalizing loader with
  | nil => rfl
  | cons step steps induction =>
      rw [List.foldl_cons, induction, List.flatMap_cons, List.getLast?_append, Option.or_assoc]
      cases step with
      | file path required => rfl
      | override other value =>
          rw [LoaderStep.apply, getLast?_assignedAt_setField, LoaderStep.overriding]
          split <;> rfl

theorem assigns_path {field : SettingField} {value : SettingValue}
    (typed : (field.read? value).isSome = true) : Assigns field.path value where
  shape _ _ := .inr ⟨field.name, rfl⟩
  typed other one member := by
    rw [other.assigned_path] at member
    split at member
    · next same =>
        rw [List.mem_singleton.1 member, ← same]
        exact typed
    · contradiction

theorem assigns_foldl {tree : FileTree} {steps : List LoaderStep}
    (proper : ∀ step ∈ steps, step.IsProper tree) {loader : SettingsLoader}
    (assigns : ∀ override ∈ loader.overrides, Assigns override.1 override.2) :
    ∀ override ∈ (steps.foldl LoaderStep.apply loader).overrides,
      Assigns override.1 override.2 := by
  induction steps generalizing loader with
  | nil => exact assigns
  | cons step steps induction =>
      obtain ⟨first, others⟩ := List.forall_mem_cons.1 proper
      apply induction others
      cases step with
      | file path required => exact assigns
      | override field value =>
          intro override member
          rcases List.mem_append.1 member with old | new
          · exact assigns override (List.mem_of_mem_filter old)
          · rw [List.mem_singleton.1 new]
            exact assigns_path first

/-! ### Loading -/

theorem SettingField.pathOf_group (field : SettingField) :
    pathOf field.group = ⟨field.group, []⟩ := by
  cases field <;> decide +kernel

/-- The built-in layer. -/
theorem hasFields_builtin :
    HasFields (SettingsLoader.layOver (.table []) builtinSettings) SettingField.builtin? := by
  have formatting : pathOf "formatting".toList = ⟨"formatting".toList, []⟩ :=
    SettingField.indentWidth.pathOf_group
  have keywords : pathOf "keywords".toList = ⟨"keywords".toList, []⟩ :=
    SettingField.tableFile.pathOf_group
  simp only [SettingsLoader.layOver, builtinSettings, List.foldl_cons, List.foldl_nil,
    putNamed_eq, formatting, keywords]
  intro field
  cases field <;> exact ⟨_, rfl, rfl⟩

/-- A field says what it is set to, whatever its built-in value. -/
theorem SettingField.chosen_or_builtin? (field : SettingField) (value : Option SettingValue) :
    field.chosen (value.or field.builtin?) = field.chosen value := by
  cases value with
  | some value => rfl
  | none => cases field <;> decide +kernel

theorem SettingField.isSome_read?_builtin? (field : SettingField) :
    ∀ one ∈ field.builtin?, (field.read? one).isSome = true := by
  intro one known
  cases field <;> cases known <;> rfl

section Steps

variable {tree : FileTree} {steps : List LoaderStep}

theorem isProper_file_of_mem (proper : ∀ step ∈ steps, step.IsProper tree) :
    ∀ file ∈ steps.flatMap LoaderStep.files,
      (LoaderStep.file file.path file.required).IsProper tree := by
  intro file member
  obtain ⟨step, known, added⟩ := List.mem_flatMap.1 member
  cases step with
  | override field value => contradiction
  | file path required =>
      obtain rfl := List.mem_singleton.1 added
      exact proper _ known

/-- The last value that the steps set a field to above all files, or else the last one that
their files assign to it. -/
def lastValue? (tree : FileTree) (steps : List LoaderStep) (field : SettingField) :
    Option SettingValue :=
  (steps.flatMap (·.overriding field)).getLast?.or (steps.flatMap (·.written tree field)).getLast?

theorem isSome_read?_lastValue? (proper : ∀ step ∈ steps, step.IsProper tree)
    (field : SettingField) :
    ∀ one ∈ lastValue? tree steps field, (field.read? one).isSome = true := by
  intro one last
  rcases Option.or_eq_some_iff.1 last with above | ⟨-, below⟩
  · obtain ⟨step, known, member⟩ := List.mem_flatMap.1 (List.mem_of_getLast? above)
    cases step with
    | file path required => contradiction
    | override other value =>
        rw [LoaderStep.overriding] at member
        split at member
        · next same =>
            rw [List.mem_singleton.1 member, ← same]
            exact proper _ known
        · contradiction
  · obtain ⟨step, known, member⟩ := List.mem_flatMap.1 (List.mem_of_getLast? below)
    cases step with
    | override other value => contradiction
    | file path required =>
        obtain ⟨members, read, assigns⟩ := proper _ known
        rw [LoaderStep.written, read] at member
        obtain ⟨assignment, inFile, assigned⟩ := List.mem_flatMap.1 member
        exact (assigns assignment inFile).typed field one assigned

/-- Steps that assign values of the right types give settings, each field of which says what
it was set to last. -/
theorem exists_loadSteps (proper : ∀ step ∈ steps, step.IsProper tree) :
    ∃ settings, loadSteps steps tree = .ok settings ∧
      ∀ field : SettingField, field.get settings = field.chosen (lastValue? tree steps field) := by
  have assigns : ∀ override ∈ (steps.foldl LoaderStep.apply .builtin).overrides,
      Assigns override.1 override.2 :=
    assigns_foldl proper (by simp [SettingsLoader.builtin])
  obtain ⟨laid, files, below⟩ := hasFields_builtin.layFiles (isProper_file_of_mem proper)
  have fields := below.foldl assigns
  have known : ∀ field : SettingField,
      (field.assignedAt (steps.foldl LoaderStep.apply .builtin).overrides).getLast?.or
        ((field.assignedIn tree (steps.flatMap LoaderStep.files)).getLast?.or field.builtin?) =
      (lastValue? tree steps field).or field.builtin? := by
    intro field
    rw [getLast?_assignedAt_foldl, assignedIn_files, ← Option.or_assoc, lastValue?]
    congr 2
    exact Option.or_none
  simp only [known] at fields
  have typed : ∀ field, ∀ one ∈ (lastValue? tree steps field).or field.builtin?,
      (field.read? one).isSome = true := by
    intro field one chosen
    rcases Option.or_eq_some_iff.1 chosen with last | ⟨-, builtin⟩
    · exact isSome_read?_lastValue? proper field one last
    · exact field.isSome_read?_builtin? one builtin
  obtain ⟨settings, read, same⟩ := fields.ofValue typed
  have added : (steps.foldl LoaderStep.apply .builtin).files = steps.flatMap LoaderStep.files :=
    files_foldl steps .builtin
  refine ⟨settings, ?_, ?_⟩
  · rw [loadSteps, foldlM_extend]
    change (SettingsLoader.combined _ tree).bind Settings.ofValue = .ok settings
    rw [SettingsLoader.combined, added, files]
    exact read
  · intro field
    rw [same, field.chosen_or_builtin?]

/-- Steps that add the same files in the same order, and set each field to the same values
in the same order, set each field to the same value last. -/
theorem lastValue?_congr {other : List LoaderStep}
    (files : other.filter LoaderStep.addsFile = steps.filter LoaderStep.addsFile)
    (fields : ∀ field, other.filter (·.overrides field) = steps.filter (·.overrides field)) :
    lastValue? tree other = lastValue? tree steps := by
  have above : ∀ (list : List LoaderStep) (field : SettingField),
      list.flatMap (·.overriding field) =
        (list.filter (·.overrides field)).flatMap (·.overriding field) := by
    intro list field
    refine (flatMap_filter_of_eq_nil fun step _ dropped => ?_).symm
    cases step with
    | file path required => rfl
    | override other value => exact if_neg (of_decide_eq_false dropped)
  have below : ∀ (list : List LoaderStep) (field : SettingField),
      list.flatMap (·.written tree field) =
        (list.filter LoaderStep.addsFile).flatMap (·.written tree field) := by
    intro list field
    refine (flatMap_filter_of_eq_nil fun step _ dropped => ?_).symm
    cases step with
    | file path required => contradiction
    | override other value => rfl
  funext field
  rw [lastValue?, above other, below other, files, fields, ← above, ← below, lastValue?]

end Steps

/-- Steps that assign values of the right types give settings.  Each field says the last
value to which a step sets it, otherwise the last one that a file assigns to it, otherwise
the built-in one.  So steps that differ only in how the single values stand between the
files, and between single values for other fields, give the same settings. -/
theorem load_fieldwise {tree : FileTree} {steps : List LoaderStep}
    (proper : ∀ step ∈ steps, step.IsProper tree) :
    (∃ settings, loadSteps steps tree = .ok settings ∧
      ∀ field : SettingField,
        field.get settings = field.chosen (lastValue? tree steps field)) ∧
    ∀ other : List LoaderStep,
      other.filter LoaderStep.addsFile = steps.filter LoaderStep.addsFile →
      (∀ field, other.filter (·.overrides field) = steps.filter (·.overrides field)) →
      loadSteps other tree = loadSteps steps tree := by
  obtain ⟨settings, loaded, same⟩ := exists_loadSteps proper
  refine ⟨⟨settings, loaded, same⟩, ?_⟩
  intro other files fields
  have otherProper : ∀ step ∈ other, step.IsProper tree := by
    intro step member
    cases step with
    | file path required =>
        have kept := List.mem_filter.2 ⟨member, (rfl : LoaderStep.addsFile _ = true)⟩
        rw [files] at kept
        exact proper _ (List.mem_of_mem_filter kept)
    | override field value =>
        have kept := List.mem_filter (p := LoaderStep.overrides field).2
          ⟨member, decide_eq_true rfl⟩
        rw [fields] at kept
        exact proper _ (List.mem_of_mem_filter kept)
  obtain ⟨others, otherLoaded, otherSame⟩ := exists_loadSteps otherProper
  rw [loaded, otherLoaded]
  congr 1
  refine Settings.ext_get fun field => ?_
  rw [same, otherSame, lastValue?_congr files fields]

/-- A directory with two files of settings. -/
def settingsDirectory : FileTree :=
  (FileTree.empty ["work".toList]).putAll
    [("a.toml".toList,
        .text "[formatting]\nindent_width = 2\nreindent_comments = false".toList),
      ("b.toml".toList, .text "keywords.table = 'k.json'\nformatting.indent_width = 3".toList)]

theorem load_fieldwise_twoFiles :
    let steps : List LoaderStep :=
      [.override .spaceAfterComma (.boolean false), .file "a.toml".toList true,
        .override .spaceAfterColon (.text "on".toList), .file "b.toml".toList true,
        .file "none.toml".toList false, .override .spaceAfterComma (.boolean true)]
    let moved : List LoaderStep :=
      [.file "a.toml".toList true, .file "b.toml".toList true,
        .file "none.toml".toList false, .override .spaceAfterComma (.boolean false),
        .override .spaceAfterComma (.boolean true), .override .spaceAfterColon (.text "on".toList)]
    loadSteps steps settingsDirectory =
        .ok ⟨⟨3, true, true, false⟩, some "k.json".toList⟩ ∧
      loadSteps moved settingsDirectory = loadSteps steps settingsDirectory := by
  intro steps moved
  have proper : ∀ step ∈ steps, step.IsProper settingsDirectory := by decide +kernel
  obtain ⟨⟨settings, loaded, fields⟩, same⟩ := load_fieldwise proper
  have expected : settings = ⟨⟨3, true, true, false⟩, some "k.json".toList⟩ := by
    refine Settings.ext_get fun field => (fields field).trans ?_
    cases field <;> decide +kernel
  refine ⟨by rw [loaded, expected], same moved rfl ?_⟩
  intro field
  cases field <;> simp [steps, moved, LoaderStep.overrides]

end Bilingual

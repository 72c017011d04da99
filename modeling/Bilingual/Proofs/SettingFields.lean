import Bilingual.SettingsLoader

/-!
# Fields of settings

Five fields can be set, each under the name of its group.  A value that is put at a path
assigns values to some of them: the value itself if the path leads to a field, or members
of the value if the path leads to a group.  The main statements are `HasFields.putAtPath`,
which says that nothing else becomes of the fields, and `HasFields.ofValue`, by which
settings are read field by field.
-/

namespace Bilingual

/-- A setting that can be set. -/
inductive SettingField
  | indentWidth
  | spaceAfterComma
  | spaceAfterColon
  | reindentComments
  | tableFile
  deriving DecidableEq, Repr

namespace SettingField

/-- The group of a field. -/
def group : SettingField → Text
  | .indentWidth | .spaceAfterComma | .spaceAfterColon | .reindentComments =>
      "formatting".toList
  | .tableFile => "keywords".toList

/-- The name of a field in its group. -/
def name : SettingField → Text
  | .indentWidth => "indent_width".toList
  | .spaceAfterComma => "space_after_comma".toList
  | .spaceAfterColon => "space_after_colon".toList
  | .reindentComments => "reindent_comments".toList
  | .tableFile => "table".toList

/-- The path of a field. -/
def path (field : SettingField) : KeyPath :=
  ⟨field.group, [.member field.name]⟩

/-- The path of a field as it is written. -/
def key (field : SettingField) : Text :=
  field.group ++ '.' :: field.name

/-- What a field says.  The keyword table may be the built-in one, which has no file. -/
abbrev Value : SettingField → Type
  | .indentWidth => Nat
  | .spaceAfterComma | .spaceAfterColon | .reindentComments => Bool
  | .tableFile => Option Text

/-- What a field says among given settings. -/
def get : (field : SettingField) → Settings → field.Value
  | .indentWidth, settings => settings.formatting.indentWidth
  | .spaceAfterComma, settings => settings.formatting.spaceAfterComma
  | .spaceAfterColon, settings => settings.formatting.spaceAfterColon
  | .reindentComments, settings => settings.formatting.reindentComments
  | .tableFile, settings => settings.tableFile

/-- What a field says when nothing is set. -/
def standard : (field : SettingField) → field.Value
  | .indentWidth => 4
  | .spaceAfterComma => false
  | .spaceAfterColon => false
  | .reindentComments => true
  | .tableFile => none

/-- What a value says when it is assigned to a field, if it is of the right type. -/
def read? : (field : SettingField) → SettingValue → Option field.Value
  | .indentWidth, value => value.word64?
  | .spaceAfterComma, value => value.truth?
  | .spaceAfterColon, value => value.truth?
  | .reindentComments, value => value.truth?
  | .tableFile, value => (readTableFile value).toOption

/-- The built-in value of a field. -/
def builtin? : SettingField → Option SettingValue
  | .indentWidth => some (.integer 4)
  | .spaceAfterComma => some (.boolean false)
  | .spaceAfterColon => some (.boolean false)
  | .reindentComments => some (.boolean true)
  | .tableFile => none

end SettingField

/-- All fields. -/
def SettingField.all : List SettingField :=
  [.indentWidth, .spaceAfterComma, .spaceAfterColon, .reindentComments, .tableFile]

theorem SettingField.mem_all (field : SettingField) : field ∈ all := by
  cases field <;> simp [all]

instance {Holds : SettingField → Prop} [DecidablePred Holds] : Decidable (∀ field, Holds field) :=
  decidable_of_iff (∀ field ∈ SettingField.all, Holds field)
    ⟨fun holds field => holds field field.mem_all, fun holds field _ => holds field⟩

/-- The settings whose fields say what is given. -/
def Settings.ofFields (value : (field : SettingField) → field.Value) : Settings :=
  ⟨⟨value .indentWidth, value .spaceAfterComma, value .spaceAfterColon,
    value .reindentComments⟩, value .tableFile⟩

theorem Settings.get_ofFields (value : (field : SettingField) → field.Value)
    (field : SettingField) : field.get (.ofFields value) = value field := by
  cases field <;> rfl

/-- Settings are what their fields say. -/
theorem Settings.ext_get {first second : Settings}
    (same : ∀ field : SettingField, field.get first = field.get second) : first = second := by
  obtain ⟨⟨width, comma, colon, comments⟩, file⟩ := first
  obtain ⟨⟨width', comma', colon', comments'⟩, file'⟩ := second
  obtain rfl : width = width' := same .indentWidth
  obtain rfl : comma = comma' := same .spaceAfterComma
  obtain rfl : colon = colon' := same .spaceAfterColon
  obtain rfl : comments = comments' := same .reindentComments
  obtain rfl : file = file' := same .tableFile
  rfl

/-! ### Members of tables -/

namespace SettingValue

/-- The value is a table. -/
def isTable : SettingValue → Bool
  | .table _ => true
  | _ => false

theorem lookup_putMember (name other : Text) (value : SettingValue)
    (members : List (Text × SettingValue)) :
    (putMember name value members).lookup other =
      if other = name then some value else members.lookup other := by
  have apart : ∀ {one another : Text}, ¬one = another → (one == another) = false :=
    beq_eq_false_iff_ne.2
  induction members with
  | nil =>
      by_cases same : other = name
      · simp [putMember, same]
      · simp [putMember, List.lookup_cons, same, apart same]
  | cons member members induction =>
      rw [putMember]
      by_cases first : member.1 = name
      · rw [if_pos first, List.lookup_cons, List.lookup_cons, first]
        by_cases same : other = name
        · simp [same]
        · simp [same, apart same]
      · rw [if_neg first, List.lookup_cons, List.lookup_cons, induction]
        by_cases same : other = name
        · simp [same, apart (Ne.symm first)]
        · simp only [if_neg same]

/-- Setting a member gives a table in which that member alone is new. -/
theorem setMember_eq (target : SettingValue) (name : Text) (value : SettingValue) :
    ∃ put, target.setMember name value = .table (putMember (lowered name) put target.members) ∧
      (value.isTable = false → put = value) := by
  cases value with
  | table members => exact ⟨_, rfl, by simp [isTable]⟩
  | _ => exact ⟨_, rfl, fun _ => rfl⟩

/-- Of the values that are set under one name the last one stays, when none of them is a
table. -/
theorem exists_setMembers {name : Text} {assignments : List (Text × SettingValue)}
    (plain : ∀ assignment ∈ assignments, lowered assignment.1 = name →
      assignment.2.isTable = false) (members : List (Text × SettingValue)) :
    ∃ result, setMembers (.table members) assignments = .table result ∧
      result.lookup name =
        ((assignments.filter (lowered ·.1 = name)).map Prod.snd).getLast?.or
          (members.lookup name) := by
  induction assignments generalizing members with
  | nil => exact ⟨members, rfl, rfl⟩
  | cons assignment assignments induction =>
      obtain ⟨first, value⟩ := assignment
      obtain ⟨put, set, kept⟩ := setMember_eq (.table members) first value
      obtain ⟨result, all, found⟩ := induction
        (fun other member => plain other (by simp [member])) (putMember (lowered first) put members)
      refine ⟨result, by rw [setMembers, set]; exact all, ?_⟩
      rw [found, lookup_putMember]
      by_cases same : lowered first = name
      · have value := kept (plain (first, value) (by simp) same)
        rw [if_pos same.symm, List.filter_cons_of_pos (by simpa using same), List.map_cons,
          List.getLast?_cons, value]
        cases ((assignments.filter (lowered ·.1 = name)).map Prod.snd).getLast? <;> rfl
      · rw [if_neg (Ne.symm same), List.filter_cons_of_neg (by simpa using same)]

/-- A path leads through one member of the table at which it starts. -/
theorem putAtPath_eq (target : SettingValue) (path : KeyPath) (value : SettingValue) :
    ∃ put, target.putAtPath path value =
      .table (putMember (lowered path.first) put target.members) := by
  obtain ⟨first, steps⟩ := path
  cases steps with
  | nil =>
      obtain ⟨put, set, -⟩ := setMember_eq target first value
      exact ⟨put, set⟩
  | cons step steps => exact ⟨_, rfl⟩

/-- Members with other names stay. -/
theorem member?_putAtPath_of_ne (target : SettingValue) {path : KeyPath} {name : Text}
    (other : lowered path.first ≠ name) (value : SettingValue) :
    (target.putAtPath path value).member? name = target.member? name := by
  obtain ⟨put, same⟩ := target.putAtPath_eq path value
  rw [same, member?, members, lookup_putMember, if_neg other.symm]
  rfl

section Group

variable {target : SettingValue} {first name : Text} {members : List (Text × SettingValue)}
  (group : target.member? (lowered first) = some (.table members))

include group

/-- A table at the name of a group sets members of the group. -/
theorem exists_putAtPath_group {assignments : List (Text × SettingValue)}
    (plain : ∀ assignment ∈ assignments, lowered assignment.1 = name →
      assignment.2.isTable = false) :
    ∃ result,
      (target.putAtPath ⟨first, []⟩ (.table assignments)).member? (lowered first) =
        some (.table result) ∧
      result.lookup name =
        ((assignments.filter (lowered ·.1 = name)).map Prod.snd).getLast?.or
          (members.lookup name) := by
  obtain ⟨result, all, last⟩ := exists_setMembers plain members
  refine ⟨result, ?_, last⟩
  have present : (target.member? (lowered first)).getD (.table []) = .table members := by
    rw [group, Option.getD_some]
  rw [putAtPath, putAt, setMember, present, all, member?, SettingValue.members,
    lookup_putMember, if_pos rfl]

/-- A value at the name of a member of a group sets that member. -/
theorem exists_putAtPath_member (value : SettingValue) :
    ∃ put,
      (target.putAtPath ⟨first, [.member name]⟩ value).member? (lowered first) =
        some (.table (putMember (lowered name) put members)) ∧
      (value.isTable = false → put = value) := by
  obtain ⟨put, set, kept⟩ := setMember_eq (.table members) name value
  refine ⟨put, ?_, kept⟩
  have present : (target.member? (lowered first)).getD .null = .table members := by
    rw [group, Option.getD_some]
  have placed : target.putAtPath ⟨first, [.member name]⟩ value =
      .table (putMember (lowered first)
        (((target.member? (lowered first)).getD .null).setMember name value)
        target.members) := rfl
  rw [placed, present, set, member?, SettingValue.members, lookup_putMember, if_pos rfl]
  rfl

end Group

end SettingValue

/-! ### Assignments -/

namespace SettingField

/-- The values that a value at a path assigns to a field. -/
def assigned (field : SettingField) (path : KeyPath) (value : SettingValue) :
    List SettingValue :=
  if lowered path.first = field.group then
    match path.steps with
    | [] => (value.members.filter (lowered ·.1 = field.name)).map Prod.snd
    | [.member name] => if lowered name = field.name then [value] else []
    | _ => []
  else []

theorem isTable_of_read? {field : SettingField} {value : SettingValue}
    (typed : (field.read? value).isSome = true) : value.isTable = false := by
  cases value with
  | table members => cases field <;> contradiction
  | _ => rfl

end SettingField

/-- What a value at a path assigns to fields is of the right types: a group becomes a table,
and each field gets a value that it can read. -/
structure Assigns (path : KeyPath) (value : SettingValue) : Prop where
  shape : ∀ field : SettingField, lowered path.first = field.group →
    path.steps = [] ∧ value.isTable = true ∨ ∃ name, path.steps = [.member name]
  typed : ∀ field : SettingField, ∀ one ∈ field.assigned path value,
    (field.read? one).isSome = true

instance (steps : List KeyStep) : Decidable (∃ name, steps = [.member name]) :=
  match steps with
  | [.member name] => .isTrue ⟨name, rfl⟩
  | [] => .isFalse (by simp)
  | [.element _] => .isFalse (by simp)
  | _ :: _ :: _ => .isFalse (by simp)

instance (path : KeyPath) (value : SettingValue) : Decidable (Assigns path value) :=
  decidable_of_iff
    ((∀ field : SettingField, lowered path.first = field.group →
        path.steps = [] ∧ value.isTable = true ∨ ∃ name, path.steps = [.member name]) ∧
      ∀ field : SettingField, ∀ one ∈ field.assigned path value,
        (field.read? one).isSome = true)
    ⟨fun holds => ⟨holds.1, holds.2⟩, fun assigns => ⟨assigns.shape, assigns.typed⟩⟩

/-- Groups are tables, and the fields in them have the given values. -/
def HasFields (value : SettingValue) (known : SettingField → Option SettingValue) : Prop :=
  ∀ field, ∃ members, value.member? field.group = some (.table members) ∧
    members.lookup field.name = known field

/-- A value at a path changes the fields to which it assigns something, and no others. -/
theorem HasFields.putAtPath {value put : SettingValue} {path : KeyPath}
    {known : SettingField → Option SettingValue} (has : HasFields value known)
    (assigns : Assigns path put) :
    HasFields (value.putAtPath path put)
      fun field => (field.assigned path put).getLast?.or (known field) := by
  intro field
  dsimp only
  obtain ⟨members, group, found⟩ := has field
  by_cases here : lowered path.first = field.group
  · obtain ⟨first, steps⟩ := path
    have typed := assigns.typed field
    rw [← here] at group ⊢
    rw [← found]
    rcases assigns.shape field here with ⟨ends, table⟩ | ⟨name, ends⟩
    · obtain rfl : steps = [] := ends
      obtain ⟨assignments, rfl⟩ : ∃ assignments, put = .table assignments := by
        cases put <;> first | contradiction | exact ⟨_, rfl⟩
      have values : field.assigned ⟨first, []⟩ (.table assignments) =
          (assignments.filter (lowered ·.1 = field.name)).map Prod.snd := if_pos here
      rw [values] at typed ⊢
      refine SettingValue.exists_putAtPath_group group fun assignment member same => ?_
      have chosen : assignment ∈ assignments.filter (lowered ·.1 = field.name) :=
        List.mem_filter.2 ⟨member, decide_eq_true same⟩
      exact SettingField.isTable_of_read? (typed _ (List.mem_map_of_mem chosen))
    · obtain rfl : steps = [.member name] := ends
      obtain ⟨result, placed, kept⟩ := SettingValue.exists_putAtPath_member group put
      refine ⟨_, placed, ?_⟩
      have values : field.assigned ⟨first, [.member name]⟩ put =
          if lowered name = field.name then [put] else [] := if_pos here
      rw [values] at typed ⊢
      rw [SettingValue.lookup_putMember]
      by_cases same : lowered name = field.name
      · rw [if_pos same] at typed ⊢
        rw [if_pos same.symm, kept (SettingField.isTable_of_read? (typed put (by simp)))]
        rfl
      · rw [if_neg same, if_neg (Ne.symm same)]
        rfl
  · refine ⟨members, by rw [value.member?_putAtPath_of_ne here, group], ?_⟩
    rw [SettingField.assigned, if_neg here, found]
    rfl

/-! ### Reading settings -/

theorem convertOr_eq_ok {Value : Type} (name : String) (standard : Value)
    {convert? : SettingValue → Option Value} {value : Option SettingValue}
    (typed : ∀ one ∈ value, (convert? one).isSome = true) :
    convertOr name standard convert? value = .ok ((value.bind convert?).getD standard) := by
  cases value with
  | none => rfl
  | some value =>
      obtain ⟨converted, same⟩ := Option.isSome_iff_exists.1 (typed value rfl)
      simp [convertOr, convertSetting, same]

/-- What a field says when it is set to the given value, or to none. -/
def SettingField.chosen (field : SettingField) (value : Option SettingValue) : field.Value :=
  (value.bind field.read?).getD field.standard

section Groups

variable {members : List (Text × SettingValue)} {known : SettingField → Option SettingValue}
  (typed : ∀ field, ∀ one ∈ known field, (field.read? one).isSome = true)

include typed

theorem readFormatting_eq_ok
    (lookup : ∀ field : SettingField, field.group = "formatting".toList →
      members.lookup field.name = known field) :
    readFormatting (.table members) =
      .ok (Settings.ofFields fun field => field.chosen (known field)).formatting := by
  have width : members.lookup "indent_width".toList = known .indentWidth :=
    lookup .indentWidth rfl
  have comma : members.lookup "space_after_comma".toList = known .spaceAfterComma :=
    lookup .spaceAfterComma rfl
  have colon : members.lookup "space_after_colon".toList = known .spaceAfterColon :=
    lookup .spaceAfterColon rfl
  have comments : members.lookup "reindent_comments".toList = known .reindentComments :=
    lookup .reindentComments rfl
  have typedWidth : ∀ one ∈ known .indentWidth, one.word64?.isSome = true := typed .indentWidth
  have typedComma : ∀ one ∈ known .spaceAfterComma, one.truth?.isSome = true :=
    typed .spaceAfterComma
  have typedColon : ∀ one ∈ known .spaceAfterColon, one.truth?.isSome = true :=
    typed .spaceAfterColon
  have typedComments : ∀ one ∈ known .reindentComments, one.truth?.isSome = true :=
    typed .reindentComments
  rw [readFormatting, formatRulesOf, width, comma, colon, comments,
    convertOr_eq_ok _ _ typedWidth, convertOr_eq_ok _ _ typedComma,
    convertOr_eq_ok _ _ typedColon, convertOr_eq_ok _ _ typedComments]
  rfl

theorem readKeywords_eq_ok
    (lookup : members.lookup SettingField.tableFile.name = known .tableFile) :
    readKeywords (.table members) = .ok (SettingField.tableFile.chosen (known .tableFile)) := by
  have file : members.lookup "table".toList = known .tableFile := lookup
  have typed := typed .tableFile
  rw [readKeywords, file]
  cases found : known .tableFile with
  | none => rfl
  | some value =>
      have typed := typed value found
      simp only [SettingField.chosen, Option.bind_some, SettingField.read?] at typed ⊢
      cases outcome : readTableFile value with
      | ok file => rfl
      | error reason => simp [outcome, Except.toOption] at typed

end Groups

/-- Settings are read field by field. -/
theorem HasFields.ofValue {value : SettingValue} {known : SettingField → Option SettingValue}
    (has : HasFields value known)
    (typed : ∀ field, ∀ one ∈ known field, (field.read? one).isSome = true) :
    ∃ settings, Settings.ofValue value = .ok settings ∧
      ∀ field : SettingField, field.get settings = field.chosen (known field) := by
  obtain ⟨members, formatting, -⟩ := has .indentWidth
  obtain ⟨others, keywords, file⟩ := has .tableFile
  have formatting : value.member? "formatting".toList = some (.table members) := formatting
  have keywords : value.member? "keywords".toList = some (.table others) := keywords
  have lookup : ∀ field : SettingField, field.group = "formatting".toList →
      members.lookup field.name = known field := by
    intro field group
    obtain ⟨again, same, found⟩ := has field
    rw [group, formatting, Option.some.injEq, SettingValue.table.injEq] at same
    rw [same, found]
  have rules := readFormatting_eq_ok typed lookup
  have table := readKeywords_eq_ok typed file
  refine ⟨.ofFields fun field => field.chosen (known field), ?_, Settings.get_ofFields _⟩
  rw [Settings.ofValue, formatting, keywords]
  dsimp only
  rw [rules, table]
  rfl

end Bilingual

import Bilingual.TomlStatements

/-!
# The meaning of a TOML text

The statements of a text build up a tree of tables.  Nothing in it may be defined
twice: a header may not name a table that another header or an assignment has
defined, and an assignment with a path of several names may extend only tables
that come from such paths.
-/

namespace Bilingual

/-- How a table came to be.

* `header`: a header names it, or it is the whole text.
* `implied`: a header names a table below it.
* `dotted`: an assignment has a path through it. -/
inductive TomlOrigin
  | header
  | implied
  | dotted
  deriving DecidableEq, Repr

/-- What a name stands for.  In a list of tables the last one comes first. -/
inductive TomlItem
  | value (value : SettingValue)
  | table (origin : TomlOrigin) (items : List (Text × TomlItem))
  | tables (elements : List (List (Text × TomlItem)))
  deriving Repr

/-- The items of a table. -/
abbrev TomlItems := List (Text × TomlItem)

namespace TomlItem

/-- The item of a given name. -/
def find? (name : Text) (items : TomlItems) : Option TomlItem :=
  items.lookup name

/-- Puts an item in place of the one of the same name, or behind the others. -/
def put (name : Text) (item : TomlItem) : TomlItems → TomlItems
  | [] => [(name, item)]
  | other :: items =>
      if other.1 = name then (name, item) :: items else other :: put name item items

/-- Changes the table at the end of a path below a table.  Missing tables on the
way are made, with the origin `missing`; in a list of tables the way goes through
the last one.  An assignment may not go through the table of a header. -/
def changeAt? (missing : TomlOrigin)
    (change : TomlOrigin → TomlItems → Option TomlItems) (origin : TomlOrigin) :
    List Text → TomlItems → Option TomlItems
  | [], items => change origin items
  | name :: path, items =>
      match find? name items with
      | none =>
          (changeAt? missing change missing path []).map fun inner =>
            put name (.table missing inner) items
      | some (.value _) => none
      | some (.table origin inner) =>
          if missing = .dotted && origin = .header then none
          else
            (changeAt? missing change origin path inner).map fun inner =>
              put name (.table origin inner) items
      | some (.tables []) => none
      | some (.tables (last :: earlier)) =>
          (changeAt? missing change .header path last).map fun last =>
            put name (.tables (last :: earlier)) items

/-- Assigns an item to a path of names, which is not empty. -/
def assign? (path : List Text) (item : TomlItem) (items : TomlItems) :
    Option TomlItems :=
  match path.getLast? with
  | none => none
  | some name =>
      let way := path.dropLast
      let change (origin : TomlOrigin) (items : TomlItems) : Option TomlItems :=
        if !way.isEmpty && origin ≠ .dotted then none
        else if (find? name items).isSome then none
        else some (put name item items)
      changeAt? .dotted change .header way items

mutual

/-- The value that an item stands for. -/
def toSetting : TomlItem → SettingValue
  | .value setting => setting
  | .table _ items => .table (toMembers items)
  | .tables elements => .list (toElements elements).reverse

/-- The values that the items of a table stand for. -/
def toMembers : TomlItems → List (Text × SettingValue)
  | [] => []
  | (name, item) :: items => (name, toSetting item) :: toMembers items

/-- The values of a list of tables. -/
def toElements : List TomlItems → List SettingValue
  | [] => []
  | items :: elements => .table (toMembers items) :: toElements elements

end

end TomlItem

mutual

/-- The value that is written.  A table in braces may not assign a name twice. -/
def TomlValue.meaning? : TomlValue → Option SettingValue
  | .scalar value => some value
  | .list elements => (TomlValue.meanings? elements).map .list
  | .inlineTable assignments =>
      (TomlValue.assignAll? [] assignments).map fun items =>
        .table (TomlItem.toMembers items)

/-- The values that are written. -/
def TomlValue.meanings? : List TomlValue → Option (List SettingValue)
  | [] => some []
  | value :: values => do
      let meaning ← value.meaning?
      let meanings ← TomlValue.meanings? values
      return meaning :: meanings

/-- Carries out assignments one after the other. -/
def TomlValue.assignAll? (items : TomlItems) :
    List (List Text × TomlValue) → Option TomlItems
  | [] => some items
  | (path, value) :: assignments => do
      let meaning ← value.meaning?
      let items ← TomlItem.assign? path (.value meaning) items
      TomlValue.assignAll? items assignments

end

/-- A text that has been read in part: all tables so far, and the path of the table
in which assignments belong. -/
structure TomlDocument where
  items : TomlItems
  current : List Text
  deriving Repr

namespace TomlDocument

/-- Nothing has been read. -/
def empty : TomlDocument := ⟨[], []⟩

/-- Changes the item at a path whose way consists of tables of headers. -/
def define? (document : TomlDocument) (path : List Text)
    (define : Option TomlItem → Option TomlItem) : Option TomlDocument :=
  match path.getLast? with
  | none => none
  | some name =>
      let change (_ : TomlOrigin) (items : TomlItems) : Option TomlItems :=
        (define (TomlItem.find? name items)).map fun item => TomlItem.put name item items
      (TomlItem.changeAt? .implied change .header path.dropLast document.items).map
        fun items => ⟨items, path⟩

/-- Defines the table that a header names. -/
def defineTable : Option TomlItem → Option TomlItem
  | none => some (.table .header [])
  | some (.table .implied items) => some (.table .header items)
  | some _ => none

/-- Adds the element that a header names. -/
def defineElement : Option TomlItem → Option TomlItem
  | none => some (.tables [[]])
  | some (.tables elements) => some (.tables ([] :: elements))
  | some _ => none

/-- Carries out a statement. -/
def step? (document : TomlDocument) : TomlStatement → Option TomlDocument
  | .table path => document.define? path defineTable
  | .tableElement path => document.define? path defineElement
  | .assignment path value => do
      let meaning ← value.meaning?
      let change (_ : TomlOrigin) (items : TomlItems) : Option TomlItems :=
        TomlItem.assign? path (.value meaning) items
      let items ←
        TomlItem.changeAt? .implied change .header document.current document.items
      return { document with items := items }

end TomlDocument

/-- Reads the names and values of a TOML text. -/
def readToml? (source : Text) : Option (List (Text × SettingValue)) := do
  let statements ← tomlStatements? source
  let document ← statements.foldlM TomlDocument.step? .empty
  return TomlItem.toMembers document.items

end Bilingual

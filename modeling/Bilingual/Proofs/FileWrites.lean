import Bilingual.FileTree
import Mathlib.Data.List.Infix

/-!
# Files that were written

A path to which a file can be written ends with a name in a directory.  Writing puts
the content there and leaves every other file as it was, and what is read from the path
afterwards is what was written.  The main statement is `isWritten_of_write`.
-/

namespace Bilingual

namespace FileTree

variable {tree : FileTree} {location other : List Text} {content : FileContent}

/-! ### Putting a content at a location -/

theorem find?_map_content (files : List TreeFile) :
    ((files.map fun file =>
        if file.location = location then { file with content := content } else file).find?
          (·.location = other)).map TreeFile.content =
      if other = location then (files.find? (·.location = other)).map fun _ => content
      else (files.find? (·.location = other)).map TreeFile.content := by
  induction files with
  | nil => simp
  | cons file files induction =>
      rw [List.map_cons, List.find?_cons, List.find?_cons]
      by_cases here : file.location = location
      · by_cases same : location = other
        · simp [here, same]
        · have apart : ¬other = location := fun equal => same equal.symm
          simpa [here, same, apart] using induction
      · by_cases there : file.location = other
        · have apart : ¬other = location := fun equal => here (there.trans equal)
          simp [there, apart]
        · simpa [here, there] using induction

theorem exists_of_file? (present : (tree.file? location).isSome = true) :
    ∃ file ∈ tree.files, file.location = location := by
  rw [file?, Option.isSome_map, List.find?_isSome] at present
  simpa using present

theorem file?_put (tree : FileTree) (location other : List Text) (content : FileContent) :
    (tree.put location content).file? other =
      if other = location then some content else tree.file? other := by
  unfold put
  by_cases present : (tree.file? location).isSome
  · rw [if_pos present, file?, find?_map_content]
    by_cases same : other = location
    · subst same
      rw [file?, Option.isSome_map] at present
      rw [if_pos rfl, if_pos rfl]
      obtain ⟨file, found⟩ := Option.isSome_iff_exists.1 present
      rw [found, Option.map_some]
    · rw [if_neg same, if_neg same, file?]
  · rw [if_neg present, file?, List.find?_append]
    by_cases same : other = location
    · subst same
      have absent : tree.files.find? (·.location = other) = none := by
        simpa [file?] using present
      simp [absent]
    · have others : ¬location = other := fun equal => same equal.symm
      simp [same, others, file?]

theorem workingDirectory_put (tree : FileTree) (location : List Text) (content : FileContent) :
    (tree.put location content).workingDirectory = tree.workingDirectory := by
  unfold put
  split <;> rfl

theorem directories_put (tree : FileTree) (location : List Text) (content : FileContent) :
    (tree.put location content).directories = tree.directories := by
  unfold put
  split <;> rfl

theorem isDirectory_put (tree : FileTree) (location other : List Text) (content : FileContent) :
    (tree.put location content).isDirectory other =
      (tree.isDirectory other || other.isPrefixOf location && other != location) := by
  unfold put
  split
  · next present =>
      obtain ⟨file, member, there⟩ := exists_of_file? present
      have sameNames : ∀ file : TreeFile,
          (if file.location = location then { file with content := content }
            else file).location = file.location := fun file => by split <;> rfl
      simp only [isDirectory, List.any_map, Function.comp_def, sameNames]
      rw [Bool.eq_iff_iff]
      simp only [Bool.or_eq_true, List.any_eq_true]
      refine ⟨.inl, ?_⟩
      rintro (directory | leads)
      · exact directory
      · exact .inr ⟨file, member, by rwa [there]⟩
  · simp [isDirectory, Bool.or_assoc]

theorem contains_put (contained : tree.contains other = true) :
    (tree.put location content).contains other = true := by
  rw [contains, Bool.or_eq_true] at contained ⊢
  rw [file?_put, isDirectory_put]
  rcases contained with file | directory
  · split <;> simp [file]
  · simp [directory]

theorem isDirectory_of_prefix {shorter : List Text} (front : shorter <+: location)
    (directory : tree.isDirectory location = true) : tree.isDirectory shorter = true := by
  simp only [isDirectory, Bool.or_eq_true, List.any_eq_true, List.isPrefixOf_iff_prefix,
    Bool.and_eq_true, bne_iff_ne] at directory ⊢
  rcases directory with ⟨listed, member, longer⟩ | ⟨file, member, longer, proper⟩
  · exact .inl ⟨listed, member, front.trans longer⟩
  · refine .inr ⟨file, member, front.trans longer, ?_⟩
    rintro rfl
    exact proper (longer.eq_of_length_le front.length_le)

theorem isDirectory_start (tree : FileTree) (path : Text) :
    tree.isDirectory (tree.start path) = true := by
  unfold start
  split <;> simp [isDirectory]

/-! ### Following a path -/

/-- The location to which one component of a path leads. -/
def follow (tree : FileTree) (location : List Text) (name : Text) :
    Except FileError (List Text) :=
  if (tree.file? location).isSome then .error .notADirectory
  else if name.isEmpty || name = ['.'] then .ok location
  else if name = ['.', '.'] then .ok location.dropLast
  else if tree.contains (location ++ [name]) then .ok (location ++ [name])
  else .error .notFound

theorem follow_eq_ok_iff {next : List Text} {name : Text} :
    tree.follow location name = .ok next ↔ tree.file? location = none ∧
      if name = [] ∨ name = ['.'] then next = location
      else if name = ['.', '.'] then next = location.dropLast
      else tree.contains (location ++ [name]) = true ∧ next = location ++ [name] := by
  unfold follow
  cases file : tree.file? location with
  | some content => simp
  | none =>
      simp only [Option.isSome_none, Bool.false_eq_true, if_false, true_and, Bool.or_eq_true,
        List.isEmpty_iff, decide_eq_true_eq]
      split
      · rw [Except.ok.injEq, eq_comm]
      split
      · rw [Except.ok.injEq, eq_comm]
      split
      · next contained => rw [Except.ok.injEq, and_iff_right contained, eq_comm]
      · next missing => simp [missing]

theorem walk_cons (tree : FileTree) (location : List Text) (name : Text) (names : List Text) :
    tree.walk location (name :: names) =
      tree.follow location name >>= fun next => tree.walk next names := by
  rw [walk, follow]
  repeat' split
  all_goals rfl

theorem walk_append (tree : FileTree) (location : List Text) (names others : List Text) :
    tree.walk location (names ++ others) =
      tree.walk location names >>= fun found => tree.walk found others := by
  induction names generalizing location with
  | nil => rfl
  | cons name names induction =>
      rw [List.cons_append, walk_cons, walk_cons]
      cases tree.follow location name with
      | error reason => rfl
      | ok next => exact induction next

/-- A component does not lead anywhere from a file. -/
theorem eq_of_walk (tree : FileTree) {location found : List Text} {names : List Text}
    (file : tree.file? location ≠ none) (walked : tree.walk location names = .ok found) :
    found = location := by
  cases names with
  | nil => exact (Except.ok.inj walked).symm
  | cons name names =>
      rw [walk, if_pos (Option.isSome_iff_ne_none.2 file)] at walked
      contradiction

/-- Where no directory is, a file can be put without standing in the way of a component
that leads away from a directory. -/
theorem follow_put (plain : tree.isDirectory location = false) {start next : List Text}
    {name : Text} (inside : tree.isDirectory start = true)
    (followed : tree.follow start name = .ok next) :
    (tree.put location content).follow start name = .ok next ∧
      (tree.file? next = none → tree.isDirectory next = true) := by
  have elsewhere : start ≠ location := by
    rintro rfl
    rw [inside] at plain
    contradiction
  rw [follow_eq_ok_iff] at followed ⊢
  obtain ⟨noFile, followed⟩ := followed
  rw [file?_put, if_neg elsewhere]
  by_cases stays : name = [] ∨ name = ['.']
  · rw [if_pos stays] at followed ⊢
    exact ⟨⟨noFile, followed⟩, fun _ => by rwa [followed]⟩
  by_cases climbs : name = ['.', '.']
  · rw [if_neg stays, if_pos climbs] at followed ⊢
    refine ⟨⟨noFile, followed⟩, fun _ => ?_⟩
    rw [followed]
    exact isDirectory_of_prefix (List.dropLast_prefix start) inside
  · rw [if_neg stays, if_neg climbs] at followed ⊢
    obtain ⟨contained, rfl⟩ := followed
    refine ⟨⟨noFile, contains_put contained, rfl⟩, fun none => ?_⟩
    rw [contains, none] at contained
    exact contained

/-- A walk that ends in no file goes through directories only. -/
theorem walk_put (plain : tree.isDirectory location = false) {start found names : List Text}
    (inside : tree.isDirectory start = true) (walked : tree.walk start names = .ok found)
    (noFile : tree.file? found = none) :
    (tree.put location content).walk start names = .ok found := by
  induction names generalizing start with
  | nil => exact walked
  | cons name names induction =>
      rw [walk_cons] at walked ⊢
      cases followed : tree.follow start name with
      | error reason =>
          rw [followed] at walked
          contradiction
      | ok next =>
          rw [followed] at walked
          replace walked : tree.walk next names = .ok found := walked
          obtain ⟨again, directory⟩ := follow_put plain inside followed
          have through : tree.file? next = none := by
            by_contra file
            rw [tree.eq_of_walk file walked] at noFile
            contradiction
          rw [again]
          exact induction (directory through) walked

/-! ### Where a path has its file -/

/-- The path ends with a name, and what is in front of it leads to a directory in which
there is no directory of that name. -/
structure NamesFile (tree : FileTree) (path : Text) (names : List Text) (directory : List Text)
    (name : Text) : Prop where
  components : splitAtEach '/' path = names ++ [name]
  nonempty : name ≠ []
  notHere : name ≠ ['.']
  notAbove : name ≠ ['.', '.']
  walk : tree.walk (tree.start path) names = .ok directory
  noFile : tree.file? directory = none
  noDirectory : tree.isDirectory (directory ++ [name]) = false

theorem namedComponents_fst {path : Text} (noSlash : (namedComponents path).2 = false) :
    (namedComponents path).1 = splitAtEach '/' path := by
  have sameLength : (namedComponents path).1.length = (splitAtEach '/' path).length := by
    simpa [namedComponents] using noSlash
  refine List.IsPrefix.eq_of_length ?_ sameLength
  rw [namedComponents, ← List.reverse_suffix, List.reverse_reverse]
  exact List.dropWhile_suffix _

theorem ne_nil_of_getLast?_namedComponents {path name : Text}
    (last : (namedComponents path).1.getLast? = some name) : name ≠ [] := by
  rw [namedComponents, List.getLast?_reverse] at last
  have shown := List.head?_dropWhile_not List.isEmpty (splitAtEach '/' path).reverse
  rw [last] at shown
  rintro rfl
  contradiction

theorem exists_namesFile_of_target {path : Text} (target : tree.target path = .ok location) :
    ∃ names directory name, tree.NamesFile path names directory name ∧
      location = directory ++ [name] := by
  unfold FileTree.target at target
  split at target
  · contradiction
  dsimp only at target
  split at target
  · contradiction
  next name last =>
  split at target
  · contradiction
  next directory walk =>
  split at target
  · contradiction
  next noFile =>
  split at target
  · contradiction
  next plain =>
  split at target
  · contradiction
  next noDirectory =>
  simp only [Bool.or_eq_true, decide_eq_true_eq, not_or, Bool.not_eq_true] at plain
  obtain ⟨⟨noSlash, notHere⟩, notAbove⟩ := plain
  have components := List.dropLast_append_getLast? name last
  rw [namedComponents_fst noSlash] at components walk
  exact ⟨_, directory, name, ⟨components.symm, ne_nil_of_getLast?_namedComponents last, notHere,
    notAbove, walk, by simpa using noFile, by simpa using noDirectory⟩,
    (Except.ok.inj target).symm⟩

namespace NamesFile

variable {path : Text} {names directory : List Text} {name : Text}

theorem put (named : tree.NamesFile path names directory name) (content : FileContent) :
    (tree.put (directory ++ [name]) content).NamesFile path names directory name where
  components := named.components
  nonempty := named.nonempty
  notHere := named.notHere
  notAbove := named.notAbove
  walk := by
    have start : (tree.put (directory ++ [name]) content).start path = tree.start path := by
      rw [FileTree.start, FileTree.start, workingDirectory_put]
    rw [start]
    exact walk_put named.noDirectory (tree.isDirectory_start path) named.walk named.noFile
  noFile := by
    rw [file?_put, if_neg (by simp), named.noFile]
  noDirectory := by
    rw [isDirectory_put, named.noDirectory]
    simp

theorem resolve (named : tree.NamesFile path names directory name) :
    tree.resolve path = if (tree.file? (directory ++ [name])).isSome then .ok (directory ++ [name])
      else .error .notFound := by
  have nonempty : ¬path.isEmpty = true := by
    intro empty
    have components := named.components
    rw [List.isEmpty_iff.1 empty, splitAtEach] at components
    have last := congrArg List.getLast? components
    rw [List.getLast?_concat] at last
    exact named.nonempty (Option.some.inj last).symm
  have contained : tree.contains (directory ++ [name]) =
      (tree.file? (directory ++ [name])).isSome := by
    rw [contains, named.noDirectory, Bool.or_false]
  rw [FileTree.resolve, if_neg nonempty, named.components, walk_append, named.walk]
  change tree.walk directory [name] = _
  rw [FileTree.walk, contained]
  simp [named.noFile, named.nonempty, named.notHere, named.notAbove, FileTree.walk]

end NamesFile

/-! ### Writing -/

/-- What a write of a content to a path leaves.

* `resolve`: if the path led somewhere before, then to the location that was written.
* `read`: the path leads to the content now. -/
structure IsWritten (before : FileTree) (path content : Text) (location : List Text)
    (after : FileTree) : Prop where
  resolve : ∀ found, before.resolve path = .ok found → found = location
  read : after.read path = .ok content
  file? : ∀ other, after.file? other =
    if other = location then some (.text content) else before.file? other
  workingDirectory : after.workingDirectory = before.workingDirectory
  directories : after.directories = before.directories

theorem isWritten_of_write {after : FileTree} {path content : Text}
    (write : tree.write path content = .ok after) :
    ∃ location, tree.IsWritten path content location after := by
  unfold FileTree.write at write
  cases target : tree.target path with
  | error reason =>
      rw [target] at write
      contradiction
  | ok location =>
      rw [target] at write
      obtain rfl := Except.ok.inj write
      obtain ⟨names, directory, name, named, rfl⟩ := exists_namesFile_of_target target
      refine ⟨directory ++ [name], ?_, ?_, (tree.file?_put _ · _), tree.workingDirectory_put _ _,
        tree.directories_put _ _⟩
      · intro found resolved
        rw [named.resolve] at resolved
        split at resolved
        · exact (Except.ok.inj resolved).symm
        · contradiction
      · have there : (tree.put (directory ++ [name]) (.text content)).file? (directory ++ [name]) =
            some (.text content) := by rw [file?_put, if_pos rfl]
        rw [read, (named.put (.text content)).resolve, there]
        simp [there, textOf]

end FileTree

end Bilingual

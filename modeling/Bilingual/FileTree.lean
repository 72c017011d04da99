import Bilingual.Text

/-!
# Files

The files that a command can see, and the directories in which they are.  Paths are
resolved component by component, as in the operating system, so that a path that
goes through a file or through nothing fails in the way that is expected.
-/

namespace Bilingual

/-- The content of a file: a text, or bytes that are not the UTF-8 form of one. -/
inductive FileContent
  | text (content : Text)
  | bytes (content : List UInt8)
  deriving DecidableEq, Repr

/-- The content that bytes make up. -/
def FileContent.ofBytes (bytes : List UInt8) : FileContent :=
  match String.fromUTF8? bytes.toByteArray with
  | some content => .text content.toList
  | none => .bytes bytes

/-- Why a file cannot be read or written. -/
inductive FileError
  | notFound
  | notADirectory
  | isADirectory
  | invalidText
  deriving DecidableEq, Repr

/-- The wording of the operating system. -/
def FileError.message : FileError → String
  | .notFound => "No such file or directory (os error 2)"
  | .notADirectory => "Not a directory (os error 20)"
  | .isADirectory => "Is a directory (os error 21)"
  | .invalidText => "stream did not contain valid UTF-8"

/-- Cuts a text at every occurrence of a character. -/
def splitAtEach (separator : Char) : Text → List Text
  | [] => [[]]
  | character :: rest =>
      match splitAtEach separator rest with
      | [] => [[]]
      | part :: parts =>
          if character = separator then [] :: part :: parts
          else (character :: part) :: parts

/-- A file, with the names of the directories that lead to it and its own name
at the end. -/
structure TreeFile where
  location : List Text
  content : FileContent
  deriving DecidableEq, Repr

/-- Files and directories, by the names that lead to them from the root.  A directory
exists if it is listed or if something is in it; paths start from the working
directory. -/
structure FileTree where
  workingDirectory : List Text
  directories : List (List Text)
  files : List TreeFile
  deriving DecidableEq, Repr

namespace FileTree

/-- The tree with a working directory and nothing in it. -/
def empty (workingDirectory : List Text) : FileTree :=
  ⟨workingDirectory, [], []⟩

/-- The content of the file at a location. -/
def file? (tree : FileTree) (location : List Text) : Option FileContent :=
  (tree.files.find? (·.location = location)).map TreeFile.content

/-- There is a directory at a location: one that is listed, or one that leads to
something else. -/
def isDirectory (tree : FileTree) (location : List Text) : Bool :=
  (tree.workingDirectory :: tree.directories).any location.isPrefixOf ||
    tree.files.any fun file =>
      location.isPrefixOf file.location && location != file.location

/-- There is a file or a directory at a location. -/
def contains (tree : FileTree) (location : List Text) : Bool :=
  (tree.file? location).isSome || tree.isDirectory location

/-- Follows the components of a path from a location.  Files cannot be gone
through. -/
def walk (tree : FileTree) (location : List Text) :
    List Text → Except FileError (List Text)
  | [] => .ok location
  | name :: names =>
      if (tree.file? location).isSome then .error .notADirectory
      else if name.isEmpty || name = ['.'] then tree.walk location names
      else if name = ['.', '.'] then tree.walk location.dropLast names
      else if tree.contains (location ++ [name]) then tree.walk (location ++ [name]) names
      else .error .notFound

/-- Where a path starts: at the root if its first character is a slash. -/
def start (tree : FileTree) (path : Text) : List Text :=
  if path.head? = some '/' then [] else tree.workingDirectory

/-- The location to which a path leads. -/
def resolve (tree : FileTree) (path : Text) : Except FileError (List Text) :=
  if path.isEmpty then .error .notFound
  else tree.walk (tree.start path) (splitAtEach '/' path)

/-- The path leads to a file. -/
def isFile (tree : FileTree) (path : Text) : Bool :=
  match tree.resolve path with
  | .ok location => (tree.file? location).isSome
  | .error _ => false

/-- The text of a content. -/
def textOf : FileContent → Except FileError Text
  | .text content => .ok content
  | .bytes _ => .error .invalidText

/-- Reads the text of a file. -/
def read (tree : FileTree) (path : Text) : Except FileError Text :=
  match tree.resolve path with
  | .error reason => .error reason
  | .ok location =>
      match tree.file? location with
      | some content => textOf content
      | none => .error .isADirectory

/-- Puts a content at a location, in place of the present one if there is one. -/
def put (tree : FileTree) (location : List Text) (content : FileContent) : FileTree :=
  if (tree.file? location).isSome then
    { tree with files := tree.files.map fun file =>
        if file.location = location then { file with content := content } else file }
  else { tree with files := tree.files ++ [⟨location, content⟩] }

/-- The components of a path without those that an ending slash makes, and whether
there were any. -/
def namedComponents (path : Text) : List Text × Bool :=
  let components := splitAtEach '/' path
  let named := (components.reverse.dropWhile List.isEmpty).reverse
  (named, named.length != components.length)

/-- The location at which a path would have a file.  There may be none yet, but its
directory has to exist. -/
def target (tree : FileTree) (path : Text) : Except FileError (List Text) :=
  if path.isEmpty then .error .notFound
  else
    let (components, slash) := namedComponents path
    match components.getLast? with
    | none => .error .isADirectory
    | some name =>
        match tree.walk (tree.start path) components.dropLast with
        | .error reason => .error reason
        | .ok directory =>
            if (tree.file? directory).isSome then .error .notADirectory
            else if slash || name = ['.'] || name = ['.', '.'] then .error .isADirectory
            else if tree.isDirectory (directory ++ [name]) then .error .isADirectory
            else .ok (directory ++ [name])

/-- Writes a text to a file. -/
def write (tree : FileTree) (path : Text) (content : Text) : Except FileError FileTree :=
  (tree.target path).map fun location => tree.put location (.text content)

/-- The names of a path that do not stand for the directory itself. -/
def plainNames (path : Text) : List Text :=
  (splitAtEach '/' path).filter fun name => !name.isEmpty && name != ['.']

/-- The location to which a path leads where nothing is in its way. -/
def locationOf (tree : FileTree) (path : Text) : List Text :=
  (plainNames path).foldl (fun location name =>
    if name = ['.', '.'] then location.dropLast else location ++ [name]) (tree.start path)

/-- Puts contents at the locations of paths. -/
def putAll (tree : FileTree) (files : List (Text × FileContent)) : FileTree :=
  files.foldl (fun tree file => tree.put (tree.locationOf file.1) file.2) tree

/-- Adds a directory at the location of a path. -/
def addDirectory (tree : FileTree) (path : Text) : FileTree :=
  { tree with directories := tree.directories ++ [tree.locationOf path] }

/-- The files that are not as they were in an earlier tree. -/
def changesSince (earlier tree : FileTree) : List TreeFile :=
  tree.files.filter fun file => earlier.file? file.location != some file.content

/-- The path of a location, from the working directory where it leads there. -/
def pathOf (tree : FileTree) (location : List Text) : Text :=
  if tree.workingDirectory.isPrefixOf location then
    List.intercalate ['/'] (location.drop tree.workingDirectory.length)
  else '/' :: List.intercalate ['/'] location

end FileTree

/-! ### Names of files -/

/-- The name of the file to which a path leads, if the path ends with one.  A
slash or a single dot at the end does not matter. -/
def fileName? (path : Text) : Option Text :=
  match (FileTree.plainNames path).getLast? with
  | some name => if name = ['.', '.'] then none else some name
  | none => none

/-- What follows the last dot of a file name.  A name whose only dot is its first
character has no extension. -/
def extensionOf (path : Text) : Text :=
  match fileName? path with
  | none => []
  | some name =>
      let after := (name.reverse.takeWhile (· != '.')).reverse
      let before := name.take (name.length - after.length)
      if before.length ≤ 1 then [] else after

/-- The path with an ending added to the name of its file. -/
def appendToFileName? (path ending : Text) : Option Text :=
  match fileName? path with
  | none => none
  | some name =>
      let components := (splitAtEach '/' path).reverse.dropWhile fun component =>
        component.isEmpty || component = ['.']
      some (List.intercalate ['/'] ((name ++ ending) :: components.tail).reverse)

end Bilingual

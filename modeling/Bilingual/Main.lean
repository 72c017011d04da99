import Bilingual.CommandLine

/-!
# The program

The program collects what its command can see of the real files and of the real
standard input, runs the command, and then writes what the command leaves.
-/

namespace Bilingual

/-- The paths of the directories that a path goes through, and the path itself. -/
def pathsAlong (path : Text) : List Text :=
  (List.range path.length).filterMap fun count =>
    let start := path.take (count + 1)
    if count + 1 = path.length || path[count + 1]? = some '/' then some start else none

/-- Adds what is at a path to a tree. -/
def probe (tree : FileTree) (path : Text) : IO FileTree := do
  try
    let bytes ← IO.FS.readBinFile (String.ofList path)
    return tree.put (tree.locationOf path) (.ofBytes bytes.toList)
  catch reason =>
    match reason with
    | .inappropriateType _ 21 _ => return tree.addDirectory path
    | _ => return tree

/-- Adds everything along the given paths to a tree. -/
def probeAll (tree : FileTree) (paths : List Text) : IO FileTree :=
  (paths.flatMap pathsAlong).foldlM probe tree

/-- The paths that an invocation names. -/
def Invocation.paths (invocation : Invocation) : List Text :=
  let settingsPaths := invocation.settingsFile.toList.flatMap fun path =>
    path :: (appendToFileName? path ".toml".toList).toList
  let sourcePaths := match invocation.command with
    | .convert _ (.file path) _ | .listSpans (.file path) _ => [path]
    | _ => []
  let destinationPaths := match invocation.command with
    | .convert _ _ (.file path) => [path]
    | _ => []
  settingsPaths ++ sourcePaths ++ destinationPaths

/-- The command reads the standard input. -/
def Command.readsStandardInput : Command → Bool
  | .convert _ .standardInput _ | .listSpans .standardInput _ => true
  | _ => false

/-- What an invocation can see.  The file of the keyword table is known only once
the settings are loaded. -/
def Invocation.surroundings (invocation : Invocation) : IO Surroundings := do
  let directory := (toString (← IO.currentDir)).toList
  let empty := FileTree.empty (FileTree.plainNames directory)
  let named ← probeAll empty invocation.paths
  let tablePaths := match invocation.settings named with
    | .ok settings => settings.tableFile.toList
    | .error _ => []
  let files ← probeAll named tablePaths
  let input ←
    if invocation.command.readsStandardInput then (← IO.getStdin).readBinToEnd
    else pure .empty
  return ⟨files, .ofBytes input.toList⟩

/-- Writes a file of a tree. -/
def writeBack (tree : FileTree) (file : TreeFile) : IO Unit :=
  let path := String.ofList (tree.pathOf file.location)
  match file.content with
  | .text content => IO.FS.writeFile path (String.ofList content)
  | .bytes content => IO.FS.writeBinFile path content.toByteArray

/-- Runs the program with given arguments. -/
def runProgram (arguments : List Text) : IO UInt32 := do
  let surroundings ← match readArguments arguments with
    | .ok invocation => invocation.surroundings
    | .error _ => pure ⟨.empty [], .text []⟩
  let outcome := runCommandLine arguments surroundings
  for file in surroundings.files.changesSince outcome.files do
    writeBack surroundings.files file
  IO.print (String.ofList outcome.output)
  IO.eprint (String.ofList outcome.errorOutput)
  return UInt32.ofNat outcome.status

end Bilingual

/-- The entry point of the program. -/
def main (arguments : List String) : IO UInt32 :=
  Bilingual.runProgram (arguments.map String.toList)

import ModelSource.Command.Arguments
import ModelSource.Command.Run

/-!
# The program

Arguments are parsed, the files that the command is about are read into a file
tree, the command runs on that tree, and the files it changed are written back.
Everything that is decided is decided by `Arguments.parse` and `Command.run`; what
stands here moves bytes.
-/

namespace ModelSource.Disk

/-- The names from the first on, more and more of them. -/
def stages (names : List String) : List (List String) :=
  (List.range (names.length + 1)).map names.take

/-- The tree with what stands on disk at the end of a path, if the path leads
anywhere. -/
def readEntry (t : FileTree) (path : String) : IO FileTree := do
  let target := (← IO.currentDir) / path
  match t.resolve path with
  | none => return t
  | some place =>
    if ← target.isDir then return t.putAt place .folder
    match ← (IO.FS.readBinFile target).toBaseIO with
    | .ok bytes => return t.putAt place (.file (.ofBytes bytes.toList))
    | .error _ => return t

/-- The tree with everything on the way along a path. -/
def readPath (t : FileTree) (path : String) : IO FileTree :=
  (stages (FileTree.names path)).foldlM (fun t way => readEntry t (String.intercalate "/" way)) t

/-- The tree in which relative paths start where the program was started. -/
def workingTree : IO FileTree := do
  let here := (FileTree.names (← IO.currentDir).toString).filter (· ≠ "")
  return { entries := (stages here).map fun place => (place, .folder), workingFolder := here }

/-- Writes the files of the tree `new` that are not the same in the tree `old`. -/
def writeChanges (old new : FileTree) : IO Unit :=
  new.entries.forM fun (place, entry) => do
    match entry with
    | .file (.text text) =>
      if old.entryAt? place ≠ some entry then
        IO.FS.writeFile ("/" ++ String.intercalate "/" place) text
    | .file (.raw _) | .folder => return

end ModelSource.Disk

namespace ModelSource.UsageError

/-- What the program says about arguments that make no command. -/
def complaint : UsageError → String
  | .displayHelp | .displayHelpOnNothing =>
    "commands: list, render DEMO, save DEMO, tree DEMO, completions SHELL"
  | .displayVersion => "version 1"
  | .invalidSubcommand => "there is no such command"
  | .missingSubcommand => "a command is missing"
  | .missingRequired => "a word is missing behind the command"
  | .invalidValue => "there is no such value"
  | .valueValidation => "not a number, or one that is too great"
  | .unknownArgument => "there is no such argument"
  | .argumentConflict => "two arguments exclude each other"
  | .tooManyValues => "the option takes no value"

/-- What the program leaves with: a call for help is no mistake. -/
def exitCode : UsageError → UInt32
  | .displayHelp | .displayVersion => 0
  | .displayHelpOnNothing | .invalidSubcommand | .missingSubcommand | .missingRequired
  | .invalidValue | .valueValidation | .unknownArgument | .argumentConflict | .tooManyValues => 2

end ModelSource.UsageError

namespace ModelSource.FileError

/-- What the program says about a failure: the message, then the document's error. -/
def complaint (e : FileError) : String :=
  let told := e.cause?.elim [] fun cause => [cause.message]
  String.intercalate ": " ((if e.message.isEmpty then [] else [e.message]) ++ told)

end ModelSource.FileError

open ModelSource in
def main (arguments : List String) : IO UInt32 := do
  match Arguments.parse arguments with
  | .error e =>
    IO.eprintln e.complaint
    return e.exitCode
  | .ok invocation =>
    let before ← invocation.command.paths.foldlM Disk.readPath (← Disk.workingTree)
    let (result, after) := invocation.command.run before
    Disk.writeChanges before after
    match result with
    | .ok text =>
      IO.print text
      return 0
    | .error e =>
      IO.eprintln e.complaint
      return 1

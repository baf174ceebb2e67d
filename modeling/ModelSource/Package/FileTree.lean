import ModelSource.Text.Blank
import ModelSource.Text.Utf8

/-!
# Files and folders

A file tree is a root folder with files and folders in it, and a folder in which
relative paths start. A path is followed one name at a time; every step is made
from a folder that exists, so a path that runs through a file or a missing folder
leads nowhere, even where two points would lead out of it again. No name is
longer than 255 bytes and no path as long as 4096, and neither holds the character
U+0000.
-/

namespace ModelSource

/-- What a file holds: text, or bytes that are not text. -/
inductive Content where
  | text (text : String)
  | raw (bytes : List UInt8)
deriving DecidableEq

namespace Content

/-- Bytes are text if all of them can be read. -/
def ofBytes (bytes : List UInt8) : Content :=
  let characters := Text.decode bytes
  if characters.all Option.isSome then .text (String.ofList (characters.filterMap id))
  else .raw bytes

/-- The text with U+FFFD for every unreadable stretch. -/
def shown : Content → String
  | .text content => content
  | .raw bytes => String.ofList ((Text.decode bytes).map fun c => c.getD '\ufffd')

end Content

/-- What a path leads to. -/
inductive FileEntry where
  | file (content : Content)
  | folder
deriving DecidableEq

/-- The place of a file or folder: the names that lead to it from the root. -/
abbrev Place := List String

structure FileTree where
  entries : List (Place × FileEntry) := []
  /-- Where relative paths start. -/
  workingFolder : Place := []

namespace FileTree

/-- The tree with one empty folder, in which relative paths start. -/
def workspace (name : String) : FileTree :=
  { entries := [([name], .folder)], workingFolder := [name] }

/-- What stands at a place. The root is a folder. -/
def entryAt? (t : FileTree) (place : Place) : Option FileEntry :=
  if place.isEmpty then some .folder else t.entries.lookup place

def isFolderAt (t : FileTree) (place : Place) : Bool :=
  t.entryAt? place == some .folder

/-- Puts an entry at a place. -/
def putAt (t : FileTree) (place : Place) (entry : FileEntry) : FileTree :=
  { t with entries := replace t.entries }
where
  /-- The first entry of the place is replaced; a new one comes last. -/
  replace : List (Place × FileEntry) → List (Place × FileEntry)
    | [] => [(place, entry)]
    | (key, old) :: rest =>
      if key = place then (key, entry) :: rest else (key, old) :: replace rest

/-- Follows names from a place. Every step needs a folder to start in. -/
def follow (t : FileTree) (here : Place) : List String → Option Place
  | [] => some here
  | name :: rest =>
    if t.isFolderAt here then
      if name = "" ∨ name = "." then t.follow here rest
      else if name = ".." then t.follow here.dropLast rest
      else if name.utf8ByteSize ≤ 255 then t.follow (here ++ [name]) rest
      else none
    else none

/-- The names of a path. -/
def names (path : String) : List String :=
  (Text.pieces (· == '/') path.toList).map String.ofList

/-- The place a path leads to; nothing has to stand there. -/
def resolve (t : FileTree) (path : String) : Option Place :=
  if path.isEmpty ∨ 4096 ≤ path.utf8ByteSize ∨ path.toList.contains '\x00' then none
  else t.follow (if path.toList.head? = some '/' then [] else t.workingFolder) (names path)

/-- What stands at the end of a path. -/
def entry? (t : FileTree) (path : String) : Option FileEntry :=
  (t.resolve path).bind t.entryAt?

def isFolder (t : FileTree) (path : String) : Bool :=
  t.entry? path == some .folder

/-- The text of a file. -/
def readText? (t : FileTree) (path : String) : Option String :=
  match t.entry? path with
  | some (.file (.text text)) => some text
  | _ => none

/-- Writes a file, where there is a folder for it and none in its place. -/
def write? (t : FileTree) (path : String) (content : Content) : Option FileTree :=
  match t.resolve path with
  | some place =>
    if t.isFolderAt place then none else some (t.putAt place (.file content))
  | none => none

/-- Makes the folders on the way along names, as far as there are none. -/
def makeFolders (t : FileTree) (here : Place) : List String → FileTree
  | [] => t
  | name :: rest =>
    if name = "" ∨ name = "." then t.makeFolders here rest
    else if name = ".." then t.makeFolders here.dropLast rest
    else
      let place := here ++ [name]
      match t.entryAt? place with
      | some .folder => t.makeFolders place rest
      | some (.file _) => t
      | none => (t.putAt place .folder).makeFolders place rest

/-- Makes a folder and those above it. -/
def makeFolder (t : FileTree) (path : String) : FileTree :=
  t.makeFolders t.workingFolder (names path)

/-- The names below the working folder that lead to a place inside it. -/
def relative? (t : FileTree) (place : Place) : Option Place :=
  if t.workingFolder.isPrefixOf place ∧ place ≠ t.workingFolder then
    some (place.drop t.workingFolder.length)
  else none

/-- Everything inside the working folder: a file with what it shows, a folder with
a slash at its end. -/
def listing (t : FileTree) : List (String × Option String) :=
  t.entries.filterMap fun (place, entry) =>
    (t.relative? place).map fun names =>
      let path := String.intercalate "/" names
      match entry with
      | .file content => (path, some content.shown)
      | .folder => (path ++ "/", none)

end FileTree

/-- A name inside a folder. An absolute name stands for itself. -/
def joinPath (folder name : String) : String :=
  if name.toList.head? = some '/' then name
  else if folder.isEmpty ∨ folder.toList.getLast? = some '/' then folder ++ name
  else folder ++ "/" ++ name

end ModelSource

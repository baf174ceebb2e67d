import ModelSource.Document.Drawing
import ModelSource.Package.FileTree
import ModelSource.Render

/-!
# Saving a document into a package

A package is a folder with one file per document and a manifest that lists the
documents, one name a line, in the order in which they came. Saving renders the
document before it touches any file, writes the document's file and adds the name
to the manifest unless a line of it, blanks aside, is that name already.
-/

namespace ModelSource

/-- Why a file operation failed. -/
inductive FileError where
  | notFolder (path : String)
  /-- Connections could not be drawn. -/
  | drawing (cause : Error)
  /-- The document could not be rendered. -/
  | rendering (ident : String) (cause : Error)
  | reading (path : String)
  | writing (path : String)
  | badOptions
  /-- The options in a file are none. -/
  | badOptionsIn (path : String)
deriving DecidableEq

namespace FileError

/-- What is said about the failure. A drawing error speaks for itself. -/
def message : FileError → String
  | .notFolder path => path ++ " is not a directory"
  | .drawing _ => ""
  | .rendering ident _ => "failed to render " ++ ident
  | .reading path => "failed to read " ++ path
  | .writing path => "failed to write " ++ path
  | .badOptions => "invalid render options"
  | .badOptionsIn path => "in " ++ path ++ ": invalid render options"

/-- The error of the document behind the failure. -/
def cause? : FileError → Option Error
  | .drawing cause | .rendering _ cause => some cause
  | .notFolder _ | .reading _ | .writing _ | .badOptions | .badOptionsIn _ => none

end FileError

namespace Manifest

/-- The name of the file that lists the members of a package. -/
def fileName : String :=
  "package.order"

/-- A line of the manifest, blanks aside, is this name. -/
def lists (content ident : String) : Bool :=
  (Text.lines content).any fun line => Text.trim line == ident

/-- Lines as the content of a file. -/
def ofLines (lines : List String) : String :=
  String.intercalate "\n" lines ++ "\n"

/-- The manifest with one more name; `none` if it lists the name. -/
def extend? (content ident : String) : Option String :=
  if lists content ident then none else some (ofLines (Text.lines content ++ [ident]))

end Manifest

structure SaveOptions where
  /-- Draw connections before rendering. The document itself stays as it is. -/
  drawConnections : Bool := false
  render : RenderOptions := {}

/-- What saving has done. -/
structure SaveReport where
  /-- The file that was written. -/
  path : String
  /-- The name was added to the manifest. -/
  listed : Bool
deriving DecidableEq

/-- An operation on files. What a failed one has written stays written. -/
abbrev FileEdit (α : Type) : Type :=
  ExceptT FileError (StateM FileTree) α

namespace Document

/-- The document as it is rendered: with its connections drawn, if asked. -/
def drawnFor (d : Document) (options : SaveOptions) : Except FileError Document :=
  if options.drawConnections then
    match drawConnections d with
    | (.ok _, drawn) => .ok drawn
    | (.error e, _) => .error (.drawing e)
  else .ok d

/-- The text of the document's file. -/
def fileText (d : Document) (options : SaveOptions) : Except FileError String :=
  match d.drawnFor options with
  | .error e => .error e
  | .ok drawn =>
    match ModelSource.render options.render (.document drawn) with
    | .ok text => .ok text
    | .error e => .error (.rendering d.ident e)

/-- The path of the document's file. -/
def filePath (d : Document) (folder : String) : String :=
  joinPath folder (d.ident ++ ".mo")

end Document

/-- Writes a file. -/
def writeText (path text : String) : FileEdit Unit :=
  fun t =>
    match t.write? path (.text text) with
    | some t => (.ok (), t)
    | none => (.error (.writing path), t)

/-- The text of a manifest; a manifest that is not there is empty. -/
def manifestText (t : FileTree) (path : String) : Except FileError String :=
  match t.entry? path with
  | none => .ok ""
  | some _ =>
    match t.readText? path with
    | some text => .ok text
    | none => .error (.reading path)

/-- Adds a name to a manifest; tells whether it was missing. -/
def listInManifest (path ident : String) : FileEdit Bool :=
  fun t =>
    match manifestText t path with
    | .error e => (.error e, t)
    | .ok content =>
      match Manifest.extend? content ident with
      | none => (.ok false, t)
      | some extended =>
        match writeText path extended t with
        | (.ok (), t) => (.ok true, t)
        | (.error e, t) => (.error e, t)

/-- Saves a document into a folder. -/
def save (d : Document) (folder : String) (options : SaveOptions) : FileEdit SaveReport :=
  fun t =>
    if t.isFolder folder then
      match d.fileText options with
      | .error e => (.error e, t)
      | .ok text =>
        match writeText (d.filePath folder) text t with
        | (.error e, t) => (.error e, t)
        | (.ok (), t) =>
          match listInManifest (joinPath folder Manifest.fileName) d.ident t with
          | (.error e, t) => (.error e, t)
          | (.ok listed, t) => (.ok ⟨d.filePath folder, listed⟩, t)
    else (.error (.notFolder folder), t)

end ModelSource

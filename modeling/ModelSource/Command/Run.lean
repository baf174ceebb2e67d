import ModelSource.Command.Basic

/-!
# Running a command

A command answers with what it prints and may change files. Options come from the
file, then from the command line, which wins.
-/

namespace ModelSource

/-- A text with blanks after it, up to a width. -/
def padRight (width : Nat) (text : String) : String :=
  text ++ String.ofList (List.replicate (width - text.length) ' ')

namespace Demo

/-- The list of all demos. -/
def overview : String :=
  "Demos:\n" ++ String.join (all.map fun demo =>
    "  " ++ padRight 16 demo.name ++ " " ++ demo.help ++ "\n")

end Demo

namespace RenderRequest

/-- Options with those of the command line over them. -/
def override (r : RenderRequest) (o : RenderOptions) : RenderOptions :=
  { indent := if r.tabs then .tab else (r.indent.map Indent.spaces).getD o.indent
    startIndent := r.startIndent.getD o.startIndent
    width := r.width.getD o.width }

/-- The options that a request asks for. -/
def options (r : RenderRequest) (t : FileTree) : Except FileError RenderOptions :=
  match r.config with
  | some path => (RenderOptions.load t path).map r.override
  | none => .ok (r.override {})

/-- The source text of a demo. -/
def text (r : RenderRequest) (t : FileTree) : Except FileError String :=
  match r.options t with
  | .error e => .error e
  | .ok o =>
    match r.demo.document with
    | .error e => .error (.rendering r.demo.name e)
    | .ok d => d.fileText { drawConnections := r.drawConnections, render := o }

end RenderRequest

namespace SaveRequest

/-- What is printed about a document that was saved. -/
def announce (ident : String) (report : SaveReport) : String :=
  "Wrote " ++ report.path ++ "\n"
    ++ (if report.listed then "Added " ++ ident ++ " to package.order\n" else "")

/-- Saves a demo. -/
def run (r : SaveRequest) : FileEdit String :=
  fun t =>
    match r.demo.document with
    | .error e => (.error (.rendering r.demo.name e), t)
    | .ok d =>
      let (result, t) := save d r.folder { drawConnections := r.drawConnections } t
      (result.map (announce d.ident), t)

end SaveRequest

namespace Command

/-- Runs a command. Completion scripts are left to the shells, so nothing is
printed for them. -/
def run : Command → FileEdit String
  | .list => fun t => (.ok Demo.overview, t)
  | .render request => fun t => (request.text t, t)
  | .save request => request.run
  | .tree demo => fun t =>
    match demo.document with
    | .ok d => (.ok (d.toTree.pretty ++ "\n"), t)
    | .error e => (.error (.rendering demo.name e), t)
  | .completions _ => fun t => (.ok "", t)

/-- The paths of the files and folders that the command looks at or writes. -/
def paths : Command → List String
  | .render request => request.config.toList
  | .save request =>
    match request.demo.document with
    | .ok d =>
      [request.folder, d.filePath request.folder, joinPath request.folder Manifest.fileName]
    | .error _ => [request.folder]
  | .list | .tree _ | .completions _ => []

end Command

end ModelSource

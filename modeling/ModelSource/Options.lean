import ModelSource.Package.Save
import ModelSource.Toml.Reader

/-!
# Render options from a file

An options file may set the unit of indentation, the depth of the outermost line
and the line width. Every option has a default, and a key that is no option makes
the file invalid. The unit is the word `tab` or a table with the one key `spaces`;
a table with the one key `tab` and nothing in it will do for the word.
-/

namespace ModelSource

namespace RenderOptions

/-- A natural number of at most `greatest`. -/
def natural? (greatest : Nat) : Toml.Setting → Option Nat
  | .integer n => if 0 ≤ n ∧ n ≤ greatest then some n.toNat else none
  | _ => none

/-- The unit of indentation. -/
def indent? : Toml.Setting → Option Indent
  | .text "tab" => some .tab
  | .table _ [("spaces", count)] => (natural? 255 count).map .spaces
  | .table _ [("tab", .emptyArray)] => some .tab
  | .table _ [("tab", .table _ [])] => some .tab
  | _ => none

/-- The greatest depth or width that can be given. -/
def greatestCount : Nat :=
  Nat.pow 2 64 - 1

/-- Options with one more of them set. -/
def setOption? (o : RenderOptions) (key : String) (value : Toml.Setting) : Option RenderOptions :=
  if key = "indent" then (indent? value).map fun indent => { o with indent }
  else if key = "start_indent" then
    (natural? greatestCount value).map fun startIndent => { o with startIndent }
  else if key = "width" then (natural? greatestCount value).map fun width => { o with width }
  else none

/-- Options with some more of them set. -/
def setOptions? (o : RenderOptions) : Toml.Entries → Option RenderOptions
  | [] => some o
  | (key, value) :: rest =>
    match o.setOption? key value with
    | some o => o.setOptions? rest
    | none => none

/-- The options that a text gives. -/
def ofText? (text : String) : Option RenderOptions :=
  match Toml.read text with
  | some entries => ({} : RenderOptions).setOptions? entries
  | none => none

/-- The options that a text gives, or the complaint about it. -/
def parse (text : String) : Except FileError RenderOptions :=
  match ofText? text with
  | some o => .ok o
  | none => .error .badOptions

/-- The options that a file gives. -/
def load (t : FileTree) (path : String) : Except FileError RenderOptions :=
  match t.readText? path with
  | none => .error (.reading path)
  | some text =>
    match ofText? text with
    | some o => .ok o
    | none => .error (.badOptionsIn path)

end RenderOptions

end ModelSource

import ModelSource.Pen.Basic
import ModelSource.Printer.Value

/-!
# Writing modifications

The number of entries decides on the layout, as does the first item of a list; loops over
entries and items count them, to know where a separator belongs. What can be said without
a pen, the text of a literal or of a row, is taken from the printers.
-/

namespace ModelSource.Pen

open Printer (scalarTexts braced listLayout equalSign itemSegment)

/-- A description, quoted. -/
def description : Option String → Edit Pen Unit :=
  optional fun content => do
    write " "
    write (Text.quote content)

/-- Keywords, each followed by a blank. -/
def keywords : List String → Edit Pen Unit
  | [] => pure ()
  | word :: rest => do
    write word
    write " "
    keywords rest

/-- What stands between two entries on lines of their own. -/
def lineEnd : Edit Pen Unit := do
  write ","
  newline

/-- The word before annotations, which are written at a path of their own. -/
def annotating (absent : Bool) (content : Edit Pen Unit) : Edit Pen Unit :=
  only (¬ absent) (under "annotation" do
    write " annotation "
    content)

mutual

/-- A modification map. -/
def modification : Modification → Edit Pen Unit
  | ⟨entries⟩ =>
    match entries.length with
    | 0 => pure ()
    | 1 | 2 => do
      write "("
      inlineEntries 0 entries
      write ")"
    | count => do
      nested do
        write "("
        newline
        lineEntries count 0 entries
      write ")"

/-- Entries on one line, the first of them at the given index. -/
def inlineEntries (index : Nat) : List (String × Value) → Edit Pen Unit
  | [] => pure ()
  | (key, value) :: rest => do
    only (0 < index) (write ", ")
    entry key value
    inlineEntries (index + 1) rest

/-- Entries on lines of their own, the first of them at the given index. -/
def lineEntries (count index : Nat) : List (String × Value) → Edit Pen Unit
  | [] => pure ()
  | (key, value) :: rest => do
    writeIndent
    entry key value
    only (index + 1 < count) lineEnd
    lineEntries count (index + 1) rest

def entry (key : String) : Value → Edit Pen Unit
  | .scalar scalar => under key do
    let content ← located (scalar.text? none)
    write (key ++ "=" ++ content)
  | .tuple scalars => under key do
    let content ← located ((scalarTexts scalars).map (braced ", "))
    write (key ++ "=" ++ content)
  | .map entries => under key do
    write key
    modification entries
  | .assign assignment => under key (assign key assignment)
  | .list items => under key do
    write key
    match listLayout items with
    | .records => do
      write "=\x7b"
      newline
      nested (records items.length 0 items)
      newline
      writeIndent
      write "\x7d"
    | .flat content => do
      let content ← located content
      write ("=" ++ content)

def assign (key : String) : Assign → Edit Pen Unit
  | ⟨literal, modifications, flags, about, annotations, typeName, precision⟩ => do
    Edit.answer (Assign.validate ⟨literal, modifications, flags, about, annotations, typeName,
      precision⟩)
    keywords flags.keywords
    keywords typeName.toList
    write key
    modification modifications
    optional (fun scalar => do
      let content ← located (scalar.text? precision)
      write (equalSign modifications)
      write content) literal
    description about
    annotating annotations.isEmpty (modification annotations)

/-- The records of a list, the first of them at the given index. -/
def records (count index : Nat) : List Value → Edit Pen Unit
  | [] => pure ()
  | .map ⟨[(name, value)]⟩ :: rest => do
    writeIndent
    under (itemSegment index) (entry name value)
    only (index + 1 < count) lineEnd
    records count (index + 1) rest
  | .map entries :: _ => unsupported (.mapListEntries entries.size)
  | other :: _ => unsupported (.mapListHolding other.shape)

end

/-- Annotations at the end of a statement. -/
def annotationPart (annotations : Modification) : Edit Pen Unit :=
  annotating annotations.isEmpty (modification annotations)

end ModelSource.Pen

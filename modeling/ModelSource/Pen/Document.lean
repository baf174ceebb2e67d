import ModelSource.Pen.Element
import ModelSource.Printer.Document

/-!
# Writing documents

The pen goes one level deeper behind the header and comes back before the end. In between
it writes elements and annotations, and comes up for the words that open a section.
-/

namespace ModelSource.Pen

open Printer (elementSegment)

/-- Elements, the first of them at the given position of its section. -/
def elements (index : Nat) : List Element → Edit Pen Unit
  | [] => pure ()
  | e :: rest => do
    under (elementSegment index e) (element e)
    elements (index + 1) rest

/-- A section with the words that open it. -/
def sectionPart (s : Sections) (target : Section) : Edit Pen Unit :=
  if target = .publicPart then under target.keyword (elements 0 (s.get target))
  else if (s.get target).isEmpty then pure ()
  else do
    outdented (line target.keyword)
    under target.keyword (elements 0 (s.get target))

/-- Sections one after the other. -/
def sectionParts (s : Sections) : List Section → Edit Pen Unit
  | [] => pure ()
  | target :: rest => do
    sectionPart s target
    sectionParts s rest

/-- The line that names the package. -/
def withinLine (within : Within) : Edit Pen Unit :=
  match within.name with
  | some name => line ("within " ++ name ++ ";")
  | none => line "within;"

/-- The annotations of the document. -/
def documentAnnotations (annotations : Modification) : Edit Pen Unit :=
  only (¬ annotations.isEmpty) (under "annotation" do
    write "annotation "
    modification annotations
    write ";"
    newline)

def document (d : Document) : Edit Pen Unit :=
  under d.ident do
    optional withinLine d.within
    writeIndent
    keywords d.flags.keywords
    write "model "
    write d.ident
    description d.description
    newline
    nested do
      sectionParts d.sections Section.all
      documentAnnotations d.annotations
    line ("end " ++ d.ident ++ ";")

end ModelSource.Pen

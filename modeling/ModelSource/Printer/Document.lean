import ModelSource.Document.Basic
import ModelSource.Printer.Element

/-!
# Printing documents

A document prints its package, its header, its sections in their fixed order, its
annotations and its end. Elements stand one level deeper than the header; the
words that open a section stand at the level of the header, and those of the
public section are left out, as are those of a section without elements. The
annotations of the document start in the first column.
-/

namespace ModelSource.Printer

open Printout

/-- The path segment of an element: a declaration's name, or its kind and position. -/
def elementSegment (index : Nat) : Element → String
  | .declaration d => d.ident
  | e => e.kind.name ++ itemSegment index

/-- Elements, the first of them at the given position of its section. -/
def elements (depth : Nat) (path : List String) (index : Nat) : List Element → Printout
  | [] => ∅
  | e :: rest =>
    element depth (path ++ [elementSegment index e]) e ++ elements depth path (index + 1) rest

/-- A section with the words that open it. -/
def sectionPart (depth : Nat) (path : List String) (s : Sections) (target : Section) : Printout :=
  let content := elements (depth + 1) (path ++ [target.keyword]) 0 (s.get target)
  if target = .publicPart then content
  else if (s.get target).isEmpty then ∅
  else line depth target.keyword ++ content

/-- Sections one after the other. -/
def sectionParts (depth : Nat) (path : List String) (s : Sections) : List Section → Printout
  | [] => ∅
  | target :: rest => sectionPart depth path s target ++ sectionParts depth path s rest

/-- The line that names the package. -/
def withinLine (depth : Nat) (within : Within) : Printout :=
  line depth (match within.name with
    | some name => "within " ++ name ++ ";"
    | none => "within;")

def document (depth : Nat) (path : List String) (d : Document) : Printout :=
  let path := path ++ [d.ident]
  optional (withinLine depth) d.within
    ++ indentTo depth ++ keywords d.flags.keywords ++ text "model " ++ text d.ident
    ++ description d.description ++ newline
    ++ sectionParts depth path d.sections Section.all
    ++ (if d.annotations.isEmpty then ∅
        else text "annotation " ++ modification (depth + 1) (path ++ ["annotation"]) d.annotations
          ++ text ";" ++ newline)
    ++ line depth ("end " ++ d.ident ++ ";")

end ModelSource.Printer

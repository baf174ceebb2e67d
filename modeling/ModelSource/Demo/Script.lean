import ModelSource.Document.Annotations
import ModelSource.Document.Build

/-!
# Scripts that build a document

A demo is a script of edits on a document. These are the edits it is written in:
those of the document, without answers that a script has no use for.
-/

namespace ModelSource.Demo

/-- A sequence of edits on a document. -/
abbrev Script := Edit Document Unit

/-- A change that cannot fail. -/
def change (f : Document → Document) : Script :=
  fun d => (.ok (), f d)

def declare (typeName ident : String) (options : DeclarationOptions) : Script := do
  let _ ← Document.addDeclaration typeName ident options

def parameter (typeName ident : String) (options : DeclarationOptions) : Script := do
  let _ ← Document.addParameter typeName ident options

def connect (refs : List String) : Script := do
  let _ ← Document.addConnection refs

def importName (path : String) (names : ImportNames) : Script := do
  let _ ← Document.addImport path names

def equation (left right : Expression) (options : EquationOptions) : Script :=
  change (.addEquation left right options)

/-- Runs a script for every item. -/
def each (items : List α) (script : α → Script) : Script :=
  match items with
  | [] => pure ()
  | item :: rest => do
    script item
    each rest script

/-- Runs a script for every item, which is told its position. -/
def eachIndexed (items : List α) (script : Nat → α → Script) : Script :=
  go 0 items
where
  /-- The items from a position on. -/
  go (index : Nat) : List α → Script
    | [] => pure ()
    | item :: rest => do
      script index item
      go (index + 1) rest

/-- The document that a script makes out of another. -/
def build (start : Document) (script : Script) : Except Error Document :=
  match script start with
  | (.ok (), d) => .ok d
  | (.error e, _) => .error e

end ModelSource.Demo

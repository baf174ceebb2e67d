import ModelSource.Pen.Value
import ModelSource.Printer.Element

/-!
# Writing elements and clauses

An element is written at the depth at which the pen stands, and the clauses of a construct
one level deeper.
-/

namespace ModelSource.Pen

open Printer (equalSign bindingText importText declarationKeywords opening itemSegment)

/-- The end of a statement: description, annotations, semicolon. -/
def closing (about : Option String) (annotations : Modification) : Edit Pen Unit := do
  description about
  annotationPart annotations
  write ";"
  newline

def equation (e : Equation) : Edit Pen Unit := do
  writeIndent
  write (e.left ++ " = " ++ e.right)
  closing e.description e.annotations

def algorithm (step : Equation) : Edit Pen Unit := do
  writeIndent
  write (step.left ++ " := " ++ step.right)
  closing step.description step.annotations

def connection (c : Connection) : Edit Pen Unit := do
  writeIndent
  write ("connect(" ++ c.a ++ ", " ++ c.b ++ ")")
  closing c.description c.annotations

def extendsClause (e : Extends) : Edit Pen Unit := do
  writeIndent
  write "extends "
  write e.name
  modification e.modifications
  write ";"
  newline

/-- Raw lines, indented or not. -/
def rawLines (indented : Bool) : List String → Edit Pen Unit
  | [] => pure ()
  | content :: rest => do
    only (indented = true) writeIndent
    write content
    newline
    rawLines indented rest

/-- The type of a declaration and its name. -/
def typeAndName (d : Declaration) : Edit Pen Unit := do
  write d.typeName
  only (¬ d.subscripts.isEmpty)
    (write ("[" ++ String.intercalate "," d.subscripts ++ "]"))
  write " "
  write d.ident

def declaration (d : Declaration) : Edit Pen Unit := do
  writeIndent
  keywords (declarationKeywords d)
  typeAndName d
  modification d.modifications
  optional (fun value => do
    let content ← under "value" (located (bindingText value))
    write (equalSign d.modifications)
    write content) d.value
  optional (fun condition => do
    write " if "
    write condition) d.condition
  closing d.description d.annotations

/-- The line that opens a construct, up to its end. -/
def openConstruct (kind : ConstructKind) (test : Option Expression) (indices : List ForIndex) :
    Edit Pen Unit := do
  let content ← located (opening kind test indices)
  write content

mutual

def construct : Construct → Edit Pen Unit
  | ⟨kind, bodyKind, test, indices, body, branches, orelse⟩ =>
    if bodyKind = .expression then do
      let content ← Edit.answer
        (Construct.inline ⟨kind, bodyKind, test, indices, body, branches, orelse⟩)
      line content
    else do
      writeIndent
      openConstruct kind test indices
      newline
      nested (clauses body)
      (match kind.branchKeyword with
        | some word => constructBranches word 0 branches
        | none => pure ())
      (match orelse with
        | some last => do
          line "else"
          under "else" (nested (clauses last))
        | none => pure ())
      line ("end " ++ kind.keyword ++ ";")

/-- The further branches, the first of them at the given index. -/
def constructBranches (word : String) (index : Nat) : List Branch → Edit Pen Unit
  | [] => pure ()
  | ⟨test, body⟩ :: rest => do
    line (word ++ " " ++ test ++ " then")
    under (word ++ itemSegment index) (nested (clauses body))
    constructBranches word (index + 1) rest

def clauses : List Clause → Edit Pen Unit
  | [] => pure ()
  | c :: rest => do
    clause c
    clauses rest

def clause : Clause → Edit Pen Unit
  | .equation e => equation e
  | .connection c => connection c
  | .algorithm step => algorithm step
  | .statement content => line (content ++ ";")
  | .expression content => line content
  | .construct c => construct c

end

def element : Element → Edit Pen Unit
  | .declaration d => declaration d
  | .equation e => equation e
  | .connection c => connection c
  | .algorithm step => algorithm step
  | .importClause i => line (importText i)
  | .extendsClause e => extendsClause e
  | .text t => rawLines t.indented t.lines
  | .construct c => construct c

end ModelSource.Pen

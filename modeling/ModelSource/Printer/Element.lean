import ModelSource.Element
import ModelSource.Printer.Value

/-!
# Printing elements and clauses

Every element prints whole lines at the depth it is given. A construct prints its
clauses one level deeper, between a line that opens each part and one that closes
the whole; an if-expression prints the single line that it is.
-/

namespace ModelSource.Printer

open Printout

/-- The end of a statement: description, annotations, semicolon. -/
def closing (depth : Nat) (path : List String) (about : Option String)
    (annotations : Modification) : Printout :=
  description about ++ annotationPart depth path annotations ++ text ";" ++ newline

def equation (depth : Nat) (path : List String) (e : Equation) : Printout :=
  indentTo depth ++ text (e.left ++ " = " ++ e.right)
    ++ closing depth path e.description e.annotations

def algorithm (depth : Nat) (path : List String) (step : Equation) : Printout :=
  indentTo depth ++ text (step.left ++ " := " ++ step.right)
    ++ closing depth path step.description step.annotations

def connection (depth : Nat) (path : List String) (c : Connection) : Printout :=
  indentTo depth ++ text ("connect(" ++ c.a ++ ", " ++ c.b ++ ")")
    ++ closing depth path c.description c.annotations

/-- The text of an import clause. -/
def importText : Import → String
  | .qualified path => "import " ++ path ++ ";"
  | .multi path names => "import " ++ path ++ "." ++ braced ", " names ++ ";"
  | .named shortName path => "import " ++ shortName ++ " = " ++ path ++ ";"

def extendsClause (depth : Nat) (path : List String) (e : Extends) : Printout :=
  indentTo depth ++ text "extends " ++ text e.name ++ modification depth path e.modifications
    ++ text ";" ++ newline

/-- Raw lines, indented or not. -/
def rawLines (depth : Nat) (indented : Bool) : List String → Printout
  | [] => ∅
  | content :: rest =>
    (if indented then indentTo depth else ∅) ++ text content ++ newline
      ++ rawLines depth indented rest

/-- The keywords before the type of a declaration. -/
def declarationKeywords (d : Declaration) : List String :=
  (d.flags.among DeclarationFlag.written).map FlagKind.keyword
    ++ (d.flowKind.map FlowKind.keyword).toList
    ++ (d.variability.map Variability.keyword).toList
    ++ (d.causality.map Causality.keyword).toList

/-- The subscripts of the type. -/
def subscriptText (subscripts : List String) : String :=
  if subscripts.isEmpty then "" else "[" ++ String.intercalate "," subscripts ++ "]"

def declaration (depth : Nat) (path : List String) (d : Declaration) : Printout :=
  indentTo depth ++ keywords (declarationKeywords d)
    ++ text (d.typeName ++ subscriptText d.subscripts ++ " " ++ d.ident)
    ++ modification depth path d.modifications
    ++ optional (fun value =>
        located depth (path ++ ["value"]) (bindingText value) fun content =>
          text (equalSign d.modifications) ++ text content) d.value
    ++ optional (fun condition => text (" if " ++ condition)) d.condition
    ++ closing depth path d.description d.annotations

/-- The indices of a loop. -/
def indexText (indices : List ForIndex) : String :=
  String.intercalate ", " (indices.map fun i => i.ident ++ " in " ++ i.range)

/-- The line that opens a construct. -/
def opening (kind : ConstructKind) (test : Option Expression) (indices : List ForIndex) :
    Except Obstacle String :=
  match kind, test with
  | .forLoop, _ => .ok ("for " ++ indexText indices ++ " loop")
  | kind, none => .error (.missingTest kind)
  | .whileLoop, some test => .ok ("while " ++ test ++ " loop")
  | kind, some test => .ok (kind.keyword ++ " " ++ test ++ " then")

mutual

def construct (depth : Nat) (path : List String) : Construct → Printout
  | ⟨kind, bodyKind, test, indices, body, branches, orelse⟩ =>
    if bodyKind = .expression then
      orFail depth (Construct.inline ⟨kind, bodyKind, test, indices, body, branches, orelse⟩)
        fun content => line depth content
    else
      indentTo depth
        ++ located depth path (opening kind test indices) (fun content => text content)
        ++ newline
        ++ clauses (depth + 1) path body
        ++ (match kind.branchKeyword with
            | some word => constructBranches depth path word 0 branches
            | none => ∅)
        ++ (match orelse with
            | some last => line depth "else" ++ clauses (depth + 1) (path ++ ["else"]) last
            | none => ∅)
        ++ line depth ("end " ++ kind.keyword ++ ";")

/-- The further branches, the first of them at the given index. -/
def constructBranches (depth : Nat) (path : List String) (word : String) (index : Nat) :
    List Branch → Printout
  | [] => ∅
  | ⟨test, body⟩ :: rest =>
    line depth (word ++ " " ++ test ++ " then")
      ++ clauses (depth + 1) (path ++ [word ++ itemSegment index]) body
      ++ constructBranches depth path word (index + 1) rest

def clauses (depth : Nat) (path : List String) : List Clause → Printout
  | [] => ∅
  | c :: rest => clause depth path c ++ clauses depth path rest

def clause (depth : Nat) (path : List String) : Clause → Printout
  | .equation e => equation depth path e
  | .connection c => connection depth path c
  | .algorithm step => algorithm depth path step
  | .statement content => line depth (content ++ ";")
  | .expression content => line depth content
  | .construct c => construct depth path c

end

def element (depth : Nat) (path : List String) : Element → Printout
  | .declaration d => declaration depth path d
  | .equation e => equation depth path e
  | .connection c => connection depth path c
  | .algorithm step => algorithm depth path step
  | .importClause i => line depth (importText i)
  | .extendsClause e => extendsClause depth path e
  | .text t => rawLines depth t.indented t.lines
  | .construct c => construct depth path c

end ModelSource.Printer

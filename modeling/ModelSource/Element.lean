import ModelSource.Comment
import ModelSource.Construct.Basic
import ModelSource.Declaration

/-!
# Elements of a section

An element is anything that can stand in a section. Where it may stand follows
from its kind: declarations and header clauses in the declarative sections,
equations and connections in the equation sections, steps in the algorithm
sections, a construct where its clauses could stand, and raw text anywhere.
-/

namespace ModelSource

/-- Anything that can stand in a section. -/
inductive Element where
  | declaration (declaration : Declaration)
  | equation (equation : Equation)
  | connection (connection : Connection)
  | algorithm (step : Equation)
  | importClause (clause : Import)
  | extendsClause (clause : Extends)
  | text (text : RawText)
  | construct (construct : Construct)

namespace Element

def kind : Element → ElementKind
  | .declaration _ => .declaration
  | .equation _ => .equation
  | .connection _ => .connection
  | .algorithm _ => .algorithm
  | .importClause _ => .importClause
  | .extendsClause _ => .extendsClause
  | .text _ => .text
  | .construct _ => .construct

/-- The declaration that the element is. -/
def declaration? : Element → Option Declaration
  | .declaration d => some d
  | _ => none

/-- The connection that the element is. -/
def connection? : Element → Option Connection
  | .connection c => some c
  | _ => none

/-- The import clause that the element is. -/
def importClause? : Element → Option Import
  | .importClause i => some i
  | _ => none

/-- The element may stand in the section. -/
def allowedIn (target : Section) : Element → Bool
  | .declaration _ | .importClause _ | .extendsClause _ => target.isDeclarative
  | .equation _ | .connection _ => target.isEquation
  | .algorithm _ => target.isAlgorithm
  | .construct c =>
    match c.bodyKind with
    | .equation => target.isEquation
    | .statement => target.isAlgorithm
    | .expression => false
  | .text _ => true

def toTree : Element → Tree
  | .declaration d => .object [("declaration", d.toTree)]
  | .equation e => .object [("equation", e.toTree)]
  | .connection c => .object [("connect", c.toTree)]
  | .algorithm step => .object [("algorithm", step.toTree)]
  | .importClause i => .object [("import", i.toTree)]
  | .extendsClause e => .object [("extends", e.toTree)]
  | .text t => .object [("text", t.toTree)]
  | .construct c => .object [("construct", c.toTree)]

end Element

end ModelSource

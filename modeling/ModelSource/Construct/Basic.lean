import ModelSource.Equation
import ModelSource.Kind

/-!
# Conditionals and loops

A construct guards or repeats clauses. All clauses of one construct are of one
kind: equations, algorithm statements or, in an if-expression, expressions. A
nested construct counts as what its own body holds.

An if-expression can be written on one line; `inline` is that line, and since it
is an expression again, it can stand wherever an expression can.
-/

namespace ModelSource

/-- A loop index and its range. -/
structure ForIndex where
  ident : String
  range : Expression
deriving DecidableEq

mutual

/-- One part of a body. -/
inductive Clause where
  | equation (equation : Equation)
  | connection (connection : Connection)
  | statement (text : String)
  | algorithm (step : Equation)
  | expression (text : Expression)
  | construct (construct : Construct)

/-- A test and the clauses behind it. -/
structure Branch where
  test : Expression
  body : List Clause

structure Construct where
  kind : ConstructKind
  bodyKind : BodyKind
  test : Option Expression
  indices : List ForIndex
  body : List Clause
  branches : List Branch
  orelse : Option (List Clause)

end

/-- What the clause counts as in a body. -/
def Clause.kind : Clause → BodyKind
  | .equation _ | .connection _ => .equation
  | .statement _ | .algorithm _ => .statement
  | .expression _ => .expression
  | .construct c => c.bodyKind

namespace Construct

/-- The expression of a body that holds exactly one. -/
def singleExpression : List Clause → Except Error Expression
  | [.expression text] => .ok text
  | body => .error (.invalidArity "if-expression branch" "exactly one expression" body.length)

/-- The further branches of an if-expression on one line. -/
def inlineBranches : List Branch → Except Error String
  | [] => .ok ""
  | branch :: rest =>
    match singleExpression branch.body with
    | .error e => .error e
    | .ok text =>
      (inlineBranches rest).map fun more =>
        " elseif " ++ branch.test ++ " then " ++ text ++ more

/-- An if-expression on one line. -/
def inline (c : Construct) : Except Error Expression :=
  if c.bodyKind ≠ .expression then .error (.violation (.notExpressionConstruct c.bodyKind))
  else
    match c.test, c.orelse with
    | some test, some orelse =>
      match singleExpression c.body with
      | .error e => .error e
      | .ok body =>
        match inlineBranches c.branches with
        | .error e => .error e
        | .ok branches =>
          (singleExpression orelse).map fun last =>
            "if " ++ test ++ " then " ++ body ++ branches ++ " else " ++ last
    | _, _ => .error (.violation .incompleteIfExpression)

mutual

def toTree : Construct → Tree
  | ⟨kind, bodyKind, test, indices, body, branches, orelse⟩ =>
    .object
      [("kind", .text kind.keyword),
       ("body_kind", .text bodyKind.name),
       ("test", .ofText test),
       ("indices", .array (indices.map fun i =>
          .object [("ident", .text i.ident), ("range", .text i.range)])),
       ("body", .array (clauseTrees body)),
       ("branches", .array (branchTrees branches)),
       ("orelse", match orelse with
          | none => .null
          | some clauses => .array (clauseTrees clauses))]

def clauseTree : Clause → Tree
  | .equation e => .object [("equation", e.toTree)]
  | .connection c => .object [("connect", c.toTree)]
  | .statement text => .object [("statement", .text text)]
  | .algorithm step => .object [("algorithm", step.toTree)]
  | .expression text => .object [("expression", .text text)]
  | .construct c => .object [("construct", c.toTree)]

def clauseTrees : List Clause → List Tree
  | [] => []
  | clause :: rest => clauseTree clause :: clauseTrees rest

def branchTrees : List Branch → List Tree
  | [] => []
  | ⟨test, body⟩ :: rest =>
    .object [("test", .text test), ("body", .array (clauseTrees body))] :: branchTrees rest

end

end Construct

def Clause.toTree (clause : Clause) : Tree :=
  Construct.clauseTree clause

end ModelSource

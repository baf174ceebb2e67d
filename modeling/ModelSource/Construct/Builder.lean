import ModelSource.Construct.Basic

/-!
# Building a construct

A construct is opened with its kind and its test or indices and then filled by
calls: clauses for the part that is open, a further branch, the final else. The
first clause fixes what the construct holds and every later clause is checked
against it. A clause that is itself an if-expression is taken in as the
expression it stands for.

The open part is a stage of the builder that carries its own clauses, so there is
no stage that speaks of a branch which is not there.
-/

namespace ModelSource

/-- The part of a construct that is being filled. -/
inductive Stage where
  | body
  | branch (test : Expression) (clauses : List Clause)
  | orelse (clauses : List Clause)

/-- A construct that is not closed yet. -/
structure ConstructBuilder where
  kind : ConstructKind
  test : Option Expression
  indices : List ForIndex
  bodyKind : Option BodyKind := none
  body : List Clause := []
  /-- The branches before the open one. -/
  branches : List Branch := []
  stage : Stage := .body

/-- A call on a builder. -/
inductive BuilderCall where
  /-- Clauses for the open part of a conditional. -/
  | thenDo (clauses : List Clause)
  /-- Clauses for the body of a loop. -/
  | repeatDo (clauses : List Clause)
  /-- A further branch of an `if`. -/
  | elseif (test : Expression)
  /-- A further branch of a `when`. -/
  | elsewhen (test : Expression)
  /-- The final else of a conditional and clauses for it. -/
  | orelse (clauses : List Clause)

namespace ConstructBuilder

def openIf (test : Expression) : ConstructBuilder :=
  { kind := .ifThen, test := some test, indices := [] }

def openWhen (test : Expression) : ConstructBuilder :=
  { kind := .when, test := some test, indices := [] }

def openFor (indices : List ForIndex) : ConstructBuilder :=
  { kind := .forLoop, test := none, indices }

def openWhile (test : Expression) : ConstructBuilder :=
  { kind := .whileLoop, test := some test, indices := [] }

/-- The clauses of the open part. -/
def current (b : ConstructBuilder) : List Clause :=
  match b.stage with
  | .body => b.body
  | .branch _ clauses => clauses
  | .orelse clauses => clauses

/-- Adds a clause to the open part. -/
def push (b : ConstructBuilder) (clause : Clause) : ConstructBuilder :=
  match b.stage with
  | .body => { b with body := b.body ++ [clause] }
  | .branch test clauses => { b with stage := .branch test (clauses ++ [clause]) }
  | .orelse clauses => { b with stage := .orelse (clauses ++ [clause]) }

/-- All branches, the open one last. -/
def allBranches (b : ConstructBuilder) : List Branch :=
  match b.stage with
  | .branch test clauses => b.branches ++ [⟨test, clauses⟩]
  | .body | .orelse _ => b.branches

/-- A clause as a body takes it in: an if-expression becomes its text. -/
def flatten : Clause → Except Error Clause
  | .construct c =>
    if c.bodyKind = .expression then c.inline.map .expression else .ok (.construct c)
  | clause => .ok clause

/-- What the construct holds once it has a clause of this kind. -/
def settleKind (b : ConstructBuilder) (found : BodyKind) : Except Error BodyKind :=
  if found = .expression ∧ b.kind ≠ .ifThen then .error (.violation (.expressionBody b.kind))
  else
    match b.bodyKind with
    | none => .ok found
    | some expected =>
      if expected = found then .ok found
      else .error (.mixedBodyKind b.kind expected found)

/-- Takes one clause into the open part. -/
def addClause (b : ConstructBuilder) (clause : Clause) : Except Error ConstructBuilder :=
  match flatten clause with
  | .error e => .error e
  | .ok clause =>
    match b.settleKind clause.kind with
    | .error e => .error e
    | .ok kind =>
      if kind = .expression ∧ b.current ≠ [] then
        .error (.invalidArity "if-expression branch" "exactly one expression"
          (b.current.length + 1))
      else .ok ({ b with bodyKind := some kind }.push clause)

def addClauses (b : ConstructBuilder) : List Clause → Except Error ConstructBuilder
  | [] => .ok b
  | clause :: rest =>
    match b.addClause clause with
    | .error e => .error e
    | .ok b => b.addClauses rest

/-- Opens a further branch, which there cannot be after an else. -/
def openBranch (b : ConstructBuilder) (test : Expression) : Except Error ConstructBuilder :=
  match b.stage with
  | .orelse _ => .error (.violation (.branchAfterElse b.kind))
  | .body | .branch .. => .ok { b with branches := b.allBranches, stage := .branch test [] }

/-- Turns to the final else; the one that is open stays open. -/
def openElse (b : ConstructBuilder) : ConstructBuilder :=
  match b.stage with
  | .orelse _ => b
  | .body | .branch .. => { b with branches := b.allBranches, stage := .orelse [] }

/-- Lets a call through if the kind of construct has it. -/
def require (b : ConstructBuilder) (available : Bool) (call : String)
    (next : Except Error ConstructBuilder) : Except Error ConstructBuilder :=
  if available then next else .error (.violation (.callUnavailable call b.kind))

/-- Makes a call. A call that fails leaves no builder; the one it was made on is
still there. -/
def apply (b : ConstructBuilder) : BuilderCall → Except Error ConstructBuilder
  | .thenDo clauses => b.require b.kind.isConditional "then" (b.addClauses clauses)
  | .repeatDo clauses => b.require (!b.kind.isConditional) "repeat" (b.addClauses clauses)
  | .elseif test => b.require (b.kind == .ifThen) "elseif" (b.openBranch test)
  | .elsewhen test => b.require (b.kind == .when) "elsewhen" (b.openBranch test)
  | .orelse clauses => b.require b.kind.isConditional "orelse" (b.openElse.addClauses clauses)

/-- Makes calls one after the other. -/
def applyAll (b : ConstructBuilder) : List BuilderCall → Except Error ConstructBuilder
  | [] => .ok b
  | call :: rest =>
    match b.apply call with
    | .error e => .error e
    | .ok b => b.applyAll rest

/-- The construct with the parts filled so far. A construct that was given no
clause holds equations. -/
def assemble (b : ConstructBuilder) : Construct :=
  { kind := b.kind
    bodyKind := b.bodyKind.getD .equation
    test := b.test
    indices := b.indices
    body := b.body
    branches := b.allBranches
    orelse := match b.stage with
      | .orelse clauses => some clauses
      | .body | .branch .. => none }

/-- Closes the construct. An if-expression must be complete. -/
def close (b : ConstructBuilder) : Except Error Construct :=
  let construct := b.assemble
  if construct.bodyKind = .expression then construct.inline.map fun _ => construct
  else .ok construct

end ConstructBuilder

end ModelSource

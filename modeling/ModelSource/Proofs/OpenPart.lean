import Mathlib.Data.List.ModifyLast
import ModelSource.Construct.Builder

/-!
# The part that is open is there

A builder carries the open part in its stage, so it cannot speak of a branch that
does not exist. A plainer design keeps the parts side by side, as the finished
construct has them, and a mark that says which of them is open; with the mark on
the branches the open one is the last. Such a builder has states in which the mark
points at nothing, and in these it can do no more than give up.

This file makes the same calls on both and compares. `MarkedBuilder` answers
`none` where it has to give up. It never does: over any calls at all it goes
through the states of the builder, seen through `ConstructBuilder.marked`, and
fails when the builder fails, with the same error.
-/

namespace ModelSource

/-- Which part of a construct is open. -/
inductive PartMark where
  | body
  | branch
  | orelse

/-- A construct that is not closed yet, its parts side by side. -/
structure MarkedBuilder where
  kind : ConstructKind
  test : Option Expression
  indices : List ForIndex
  bodyKind : Option BodyKind
  body : List Clause
  branches : List Branch
  orelse : Option (List Clause)
  mark : PartMark

namespace MarkedBuilder

/-- What the rules about kinds look at. They are the same for both builders. -/
def header (b : MarkedBuilder) : ConstructBuilder :=
  { kind := b.kind, test := b.test, indices := b.indices, bodyKind := b.bodyKind }

/-- The clauses of the marked part, if the mark points at one. -/
def current? (b : MarkedBuilder) : Option (List Clause) :=
  match b.mark with
  | .body => some b.body
  | .branch => b.branches.getLast?.map Branch.body
  | .orelse => some (b.orelse.getD [])

/-- Adds a clause to the marked part. -/
def push (b : MarkedBuilder) (clause : Clause) : MarkedBuilder :=
  match b.mark with
  | .body => { b with body := b.body ++ [clause] }
  | .branch =>
    { b with
      branches := b.branches.modifyLast fun branch => ⟨branch.test, branch.body ++ [clause]⟩ }
  | .orelse => { b with orelse := some (b.orelse.getD [] ++ [clause]) }

/-- Takes one clause into the marked part, or gives up. -/
def addClause (b : MarkedBuilder) (clause : Clause) : Option (Except Error MarkedBuilder) :=
  match ConstructBuilder.flatten clause with
  | .error e => some (.error e)
  | .ok clause =>
    match b.header.settleKind clause.kind with
    | .error e => some (.error e)
    | .ok kind =>
      match b.current? with
      | none => none
      | some current =>
        if kind = .expression ∧ current ≠ [] then
          some (.error (.invalidArity "if-expression branch" "exactly one expression"
            (current.length + 1)))
        else some (.ok ({ b with bodyKind := some kind }.push clause))

def addClauses (b : MarkedBuilder) : List Clause → Option (Except Error MarkedBuilder)
  | [] => some (.ok b)
  | clause :: rest =>
    match b.addClause clause with
    | none => none
    | some (.error e) => some (.error e)
    | some (.ok b) => b.addClauses rest

/-- Opens a further branch, which there cannot be after an else. -/
def openBranch (b : MarkedBuilder) (test : Expression) : Except Error MarkedBuilder :=
  match b.mark with
  | .orelse => .error (.violation (.branchAfterElse b.kind))
  | .body | .branch => .ok { b with branches := b.branches ++ [⟨test, []⟩], mark := .branch }

/-- Moves the mark to the else, which is made empty if there is none. -/
def openElse (b : MarkedBuilder) : MarkedBuilder :=
  { b with orelse := some (b.orelse.getD []), mark := .orelse }

/-- Lets a call through if the kind of construct has it. -/
def require (b : MarkedBuilder) (available : Bool) (call : String)
    (next : Option (Except Error MarkedBuilder)) : Option (Except Error MarkedBuilder) :=
  if available then next else some (.error (.violation (.callUnavailable call b.kind)))

def apply (b : MarkedBuilder) : BuilderCall → Option (Except Error MarkedBuilder)
  | .thenDo clauses => b.require b.kind.isConditional "then" (b.addClauses clauses)
  | .repeatDo clauses => b.require (!b.kind.isConditional) "repeat" (b.addClauses clauses)
  | .elseif test => b.require (b.kind == .ifThen) "elseif" (some (b.openBranch test))
  | .elsewhen test => b.require (b.kind == .when) "elsewhen" (some (b.openBranch test))
  | .orelse clauses => b.require b.kind.isConditional "orelse" (b.openElse.addClauses clauses)

def applyAll (b : MarkedBuilder) : List BuilderCall → Option (Except Error MarkedBuilder)
  | [] => some (.ok b)
  | call :: rest =>
    match b.apply call with
    | none => none
    | some (.error e) => some (.error e)
    | some (.ok b) => b.applyAll rest

end MarkedBuilder

namespace ConstructBuilder

/-- The same state with its parts side by side. -/
def marked (b : ConstructBuilder) : MarkedBuilder :=
  { kind := b.kind
    test := b.test
    indices := b.indices
    bodyKind := b.bodyKind
    body := b.body
    branches := b.allBranches
    orelse := match b.stage with
      | .orelse clauses => some clauses
      | .body | .branch .. => none
    mark := match b.stage with
      | .body => .body
      | .branch .. => .branch
      | .orelse _ => .orelse }

/-- The mark of a builder points at its open part. -/
theorem marked_current? (b : ConstructBuilder) : b.marked.current? = some b.current := by
  unfold MarkedBuilder.current? marked current allBranches
  cases b.stage with
  | body => rfl
  | branch test clauses => simp
  | orelse clauses => rfl

theorem marked_push (b : ConstructBuilder) (clause : Clause) :
    b.marked.push clause = (b.push clause).marked := by
  unfold MarkedBuilder.push marked push allBranches
  cases b.stage with
  | body => rfl
  | branch test clauses => simp [List.modifyLast_concat]
  | orelse clauses => rfl

theorem marked_settleKind (b : ConstructBuilder) (found : BodyKind) :
    b.marked.header.settleKind found = b.settleKind found :=
  rfl

theorem marked_addClause (b : ConstructBuilder) (clause : Clause) :
    b.marked.addClause clause = some ((b.addClause clause).map marked) := by
  unfold MarkedBuilder.addClause addClause
  cases flatten clause with
  | error e => rfl
  | ok taken =>
      simp only [marked_settleKind, marked_current?]
      cases b.settleKind taken.kind with
      | error e => rfl
      | ok kind =>
          dsimp only
          split
          · rfl
          · have hpush := marked_push { b with bodyKind := some kind } taken
            exact congrArg (some ∘ Except.ok) hpush

theorem marked_addClauses (b : ConstructBuilder) (clauses : List Clause) :
    b.marked.addClauses clauses = some ((b.addClauses clauses).map marked) := by
  induction clauses generalizing b with
  | nil => rfl
  | cons clause rest ih =>
      rw [MarkedBuilder.addClauses, addClauses, marked_addClause]
      cases b.addClause clause with
      | error e => rfl
      | ok next => exact ih next

theorem marked_openBranch (b : ConstructBuilder) (test : Expression) :
    b.marked.openBranch test = (b.openBranch test).map marked := by
  unfold MarkedBuilder.openBranch marked openBranch allBranches
  cases b.stage <;> rfl

theorem marked_openElse (b : ConstructBuilder) : b.marked.openElse = b.openElse.marked := by
  unfold MarkedBuilder.openElse marked openElse allBranches
  cases hstage : b.stage with
  | body => rfl
  | branch test clauses => rfl
  | orelse clauses => simp [hstage]

theorem marked_require (b : ConstructBuilder) (available : Bool) (call : String)
    (next : Except Error ConstructBuilder) :
    b.marked.require available call (some (next.map marked)) =
      some ((b.require available call next).map marked) := by
  unfold MarkedBuilder.require require
  cases available <;> rfl

theorem marked_apply (b : ConstructBuilder) (call : BuilderCall) :
    b.marked.apply call = some ((b.apply call).map marked) := by
  cases call with
  | thenDo clauses =>
      rw [MarkedBuilder.apply, apply, marked_addClauses]
      exact marked_require ..
  | repeatDo clauses =>
      rw [MarkedBuilder.apply, apply, marked_addClauses]
      exact marked_require ..
  | elseif test =>
      rw [MarkedBuilder.apply, apply, marked_openBranch]
      exact marked_require ..
  | elsewhen test =>
      rw [MarkedBuilder.apply, apply, marked_openBranch]
      exact marked_require ..
  | orelse clauses =>
      rw [MarkedBuilder.apply, apply, marked_openElse, marked_addClauses]
      exact marked_require ..

/-- Whatever the calls, the marked builder never gives up, and it does what the
builder does. -/
theorem marked_applyAll (b : ConstructBuilder) (calls : List BuilderCall) :
    b.marked.applyAll calls = some ((b.applyAll calls).map marked) := by
  induction calls generalizing b with
  | nil => rfl
  | cons call rest ih =>
      rw [MarkedBuilder.applyAll, applyAll, marked_apply]
      cases b.apply call with
      | error e => rfl
      | ok next => exact ih next

end ConstructBuilder

end ModelSource

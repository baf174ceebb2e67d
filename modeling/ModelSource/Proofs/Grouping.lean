import ModelSource.Proofs.WellFormed

/-!
# A builder accepts the legal calls and loses no clause

The calls on a builder are read here as a text: clauses, and between them the calls that
turn to another part. What stands before the first turn is the body, a call that opens a
branch has what stands up to the next turn, and from the first else on everything is the
else. `Legal` says which texts there are, without a builder: every call is one that the
kind of construct has, no branch comes after an else, all clauses are alike, and if they are
expressions, no part is missing and none has two.

The builder sees the same text one call at a time. It is compared in two steps. `after`
makes the calls without asking whether they may be made, and a builder that accepts them is
always where `after` is; with that the grouping is an induction on the calls for each of
the three stages. Then the questions themselves: what a builder asks along the way is no
more than `Legal` says, since every part it looks at is the beginning of a part of the
result.
-/

namespace ModelSource

/-- The clause as a body holds it: an if-expression is the expression of its line. -/
def Clause.inlined : Clause → Clause
  | .construct c =>
    match c.inline with
    | .ok text => .expression text
    | .error _ => .construct c
  | clause => clause

namespace BuilderCall

/-- The kind of construct has the call. -/
def Available (kind : ConstructKind) : BuilderCall → Prop
  | .thenDo _ | .orelse _ => kind = .ifThen ∨ kind = .when
  | .repeatDo _ => kind = .forLoop ∨ kind = .whileLoop
  | .elseif _ => kind = .ifThen
  | .elsewhen _ => kind = .when

/-- The test of the branch that the call opens. -/
def test? : BuilderCall → Option Expression
  | .elseif test | .elsewhen test => some test
  | .thenDo _ | .repeatDo _ | .orelse _ => none

def isElse : BuilderCall → Bool
  | .orelse _ => true
  | .thenDo _ | .repeatDo _ | .elseif _ | .elsewhen _ => false

/-- The call adds to the part that is open. -/
def stays (call : BuilderCall) : Bool :=
  call.test?.isNone && !call.isElse

/-- What the calls give, one after the other. -/
def given (calls : List BuilderCall) : List Clause :=
  calls.flatMap fun call => call.clauses.map Clause.inlined

/-- What is given before the first turn. -/
def bodyOf (calls : List BuilderCall) : List Clause :=
  given (calls.takeWhile stays)

/-- Every branch, with what is given between the call that opens it and the next turn. -/
def branchesOf : List BuilderCall → List Branch
  | [] => []
  | call :: rest =>
    match call.test? with
    | some test => ⟨test, bodyOf rest⟩ :: branchesOf rest
    | none => branchesOf rest

/-- What is given from the first else on, if there is one. -/
def elseOf (calls : List BuilderCall) : Option (List Clause) :=
  if calls.any isElse then some (given (calls.dropWhile (!·.isElse))) else none

/-- No branch is opened after an else. -/
def ElseLast (calls : List BuilderCall) : Prop :=
  calls.Pairwise fun earlier later => earlier.isElse = true → later.test? = none

/-- The calls can be made on a construct of that kind, and it can be closed after them. -/
structure Legal (kind : ConstructKind) (calls : List BuilderCall) : Prop where
  available : ∀ call ∈ calls, call.Available kind
  elseLast : ElseLast calls
  alike : ∀ first ∈ given calls, ∀ second ∈ given calls, first.kind = second.kind
  complete : (∃ clause ∈ given calls, clause.kind = .expression) →
    kind = .ifThen ∧ (bodyOf calls).length = 1 ∧
      (∀ branch ∈ branchesOf calls, branch.body.length = 1) ∧
      ∃ last, elseOf calls = some last ∧ last.length = 1

/-! ## The text of the calls -/

variable {call : BuilderCall} {rest : List BuilderCall}

theorem given_cons (call : BuilderCall) (rest : List BuilderCall) :
    given (call :: rest) = call.clauses.map Clause.inlined ++ given rest :=
  List.flatMap_cons

theorem stays_iff : call.stays = true ↔ call.test? = none ∧ call.isElse = false := by
  simp [stays]

theorem bodyOf_cons_of_stays (h : call.stays = true) :
    bodyOf (call :: rest) = call.clauses.map Clause.inlined ++ bodyOf rest := by
  rw [bodyOf, List.takeWhile_cons_of_pos h, given_cons]
  rfl

theorem bodyOf_cons_of_turns (h : call.stays = false) : bodyOf (call :: rest) = [] := by
  rw [bodyOf, List.takeWhile_cons_of_neg (by simp [h])]
  rfl

theorem branchesOf_cons_of_none (h : call.test? = none) :
    branchesOf (call :: rest) = branchesOf rest := by
  rw [branchesOf, h]

theorem branchesOf_cons_of_some {test : Expression} (h : call.test? = some test) :
    branchesOf (call :: rest) = ⟨test, bodyOf rest⟩ :: branchesOf rest := by
  rw [branchesOf, h]

theorem branchesOf_eq_nil {calls : List BuilderCall} (h : ∀ call ∈ calls, call.test? = none) :
    branchesOf calls = [] := by
  induction calls with
  | nil => rfl
  | cons call rest ih =>
      rw [List.forall_mem_cons] at h
      rw [branchesOf_cons_of_none h.1, ih h.2]

theorem elseOf_cons_of_not (h : call.isElse = false) : elseOf (call :: rest) = elseOf rest := by
  rw [elseOf, elseOf, List.any_cons, h, Bool.false_or, List.dropWhile_cons_of_pos (by simp [h])]

theorem elseOf_cons_of_else (h : call.isElse = true) :
    elseOf (call :: rest) = some (given (call :: rest)) := by
  rw [elseOf, List.any_cons, h, Bool.true_or, if_pos rfl, List.dropWhile_cons_of_neg (by simp [h])]

theorem elseLast_cons :
    ElseLast (call :: rest) ↔
      (call.isElse = true → ∀ later ∈ rest, later.test? = none) ∧ ElseLast rest := by
  rw [ElseLast, List.pairwise_cons]
  exact and_congr_left' ⟨fun h helse later hlater => h later hlater helse,
    fun h later hlater helse => h helse later hlater⟩

/-- A call that opens a branch gives no clause and is no else. -/
theorem clauses_of_test? {test : Expression} (h : call.test? = some test) :
    call.clauses = [] ∧ call.isElse = false := by
  cases call <;> simp_all [test?, clauses, isElse]

/-- No clause is lost between the parts, and none changes its place. -/
theorem parts_eq_given {calls : List BuilderCall} (h : ElseLast calls) :
    bodyOf calls ++ (branchesOf calls).flatMap Branch.body ++ (elseOf calls).getD [] =
      given calls := by
  induction calls with
  | nil => rfl
  | cons call rest ih =>
      obtain ⟨hlast, hrest⟩ := elseLast_cons.1 h
      cases htest : call.test? with
      | some test =>
          obtain ⟨hclauses, helse⟩ := clauses_of_test? htest
          rw [bodyOf_cons_of_turns (by simp [stays, htest]), branchesOf_cons_of_some htest,
            elseOf_cons_of_not helse, given_cons, hclauses, ← ih hrest]
          simp
      | none =>
          rw [branchesOf_cons_of_none htest]
          cases helse : call.isElse with
          | false =>
              have hstays : call.stays = true := stays_iff.2 ⟨htest, helse⟩
              rw [bodyOf_cons_of_stays hstays, elseOf_cons_of_not helse, given_cons, ← ih hrest]
              simp [List.append_assoc]
          | true =>
              rw [bodyOf_cons_of_turns (by simp [stays, helse]), branchesOf_eq_nil (hlast helse),
                elseOf_cons_of_else helse]
              simp

end BuilderCall

namespace ConstructBuilder

open BuilderCall

/-- The calls one after the other, and then the end. -/
def build (start : ConstructBuilder) (calls : List BuilderCall) : Except Error Construct :=
  match start.applyAll calls with
  | .error e => .error e
  | .ok last => last.close

/-! ## Calls without questions -/

/-- What is held after clauses were taken in. -/
def settled (held : Option BodyKind) (taken : List Clause) : Option BodyKind :=
  taken.foldl (fun _ clause => some clause.kind) held

/-- The builder with more clauses in its open part. -/
def takeAll (b : ConstructBuilder) (taken : List Clause) : ConstructBuilder :=
  match b.stage with
  | .body => { b with bodyKind := settled b.bodyKind taken, body := b.body ++ taken }
  | .branch test clauses =>
    { b with bodyKind := settled b.bodyKind taken, stage := .branch test (clauses ++ taken) }
  | .orelse clauses =>
    { b with bodyKind := settled b.bodyKind taken, stage := .orelse (clauses ++ taken) }

/-- The builder with the part open that the call is about. -/
def turnFor (b : ConstructBuilder) (call : BuilderCall) : ConstructBuilder :=
  match call.test?, b.stage with
  | some _, .orelse _ => b
  | some test, .body | some test, .branch .. =>
    { b with branches := b.allBranches, stage := .branch test [] }
  | none, _ => if call.isElse then b.openElse else b

def next (b : ConstructBuilder) (call : BuilderCall) : ConstructBuilder :=
  (b.turnFor call).takeAll (call.clauses.map Clause.inlined)

def after (b : ConstructBuilder) (calls : List BuilderCall) : ConstructBuilder :=
  calls.foldl next b

/-- The else of the construct as far as it is filled. -/
def orelse? (b : ConstructBuilder) : Option (List Clause) :=
  match b.stage with
  | .orelse clauses => some clauses
  | .body | .branch .. => none

variable {b : ConstructBuilder} {call : BuilderCall} {calls : List BuilderCall}

theorem takeAll_nil (b : ConstructBuilder) : b.takeAll [] = b := by
  obtain ⟨kind, test, indices, bodyKind, body, branches, stage⟩ := b
  cases stage <;> simp [takeAll, settled]

theorem takeAll_takeAll (b : ConstructBuilder) (first second : List Clause) :
    (b.takeAll first).takeAll second = b.takeAll (first ++ second) := by
  obtain ⟨kind, test, indices, bodyKind, body, branches, stage⟩ := b
  cases stage <;> simp [takeAll, settled]

theorem takeAll_current (b : ConstructBuilder) (taken : List Clause) :
    (b.takeAll taken).current = b.current ++ taken := by
  obtain ⟨kind, test, indices, bodyKind, body, branches, stage⟩ := b
  cases stage <;> rfl

theorem takeAll_rest (b : ConstructBuilder) (taken : List Clause) :
    (b.takeAll taken).kind = b.kind ∧ (b.takeAll taken).test = b.test ∧
      (b.takeAll taken).indices = b.indices ∧
      (b.takeAll taken).bodyKind = settled b.bodyKind taken := by
  rw [takeAll]
  split <;> exact ⟨rfl, rfl, rfl, rfl⟩

theorem turnFor_rest (b : ConstructBuilder) (call : BuilderCall) :
    (b.turnFor call).kind = b.kind ∧ (b.turnFor call).test = b.test ∧
      (b.turnFor call).indices = b.indices ∧ (b.turnFor call).bodyKind = b.bodyKind := by
  rw [turnFor]
  split
  · exact ⟨rfl, rfl, rfl, rfl⟩
  · exact ⟨rfl, rfl, rfl, rfl⟩
  · exact ⟨rfl, rfl, rfl, rfl⟩
  · split
    · rw [openElse]
      split <;> exact ⟨rfl, rfl, rfl, rfl⟩
    · exact ⟨rfl, rfl, rfl, rfl⟩

theorem next_rest (b : ConstructBuilder) (call : BuilderCall) :
    (b.next call).kind = b.kind ∧ (b.next call).test = b.test ∧
      (b.next call).indices = b.indices ∧
      (b.next call).bodyKind = settled b.bodyKind (call.clauses.map Clause.inlined) := by
  obtain ⟨tkind, ttest, tindices, theld⟩ := b.turnFor_rest call
  obtain ⟨kind, test, indices, held⟩ :=
    (b.turnFor call).takeAll_rest (call.clauses.map Clause.inlined)
  rw [theld] at held
  exact ⟨kind.trans tkind, test.trans ttest, indices.trans tindices, held⟩

theorem after_rest (b : ConstructBuilder) (calls : List BuilderCall) :
    (b.after calls).kind = b.kind ∧ (b.after calls).test = b.test ∧
      (b.after calls).indices = b.indices ∧
      (b.after calls).bodyKind = settled b.bodyKind (given calls) := by
  induction calls generalizing b with
  | nil => exact ⟨rfl, rfl, rfl, rfl⟩
  | cons call rest ih =>
      obtain ⟨kind, test, indices, held⟩ := b.next_rest call
      obtain ⟨akind, atest, aindices, aheld⟩ := ih (b.next call)
      refine ⟨akind.trans kind, atest.trans test, aindices.trans indices, ?_⟩
      rw [given_cons, settled, List.foldl_append]
      exact aheld.trans (congrArg (settled · (given rest)) held)

/-! ## Where the clauses go -/

theorem next_of_stays (h : call.stays = true) :
    b.next call = b.takeAll (call.clauses.map Clause.inlined) := by
  obtain ⟨htest, helse⟩ := stays_iff.1 h
  rw [next, turnFor, htest, helse]
  rfl

/-- After an else every clause goes into it. -/
theorem after_of_orelse {clauses : List Clause} (hstage : b.stage = .orelse clauses)
    (h : ∀ call ∈ calls, call.test? = none) :
    (b.after calls).body = b.body ∧ (b.after calls).branches = b.branches ∧
      (b.after calls).stage = .orelse (clauses ++ given calls) := by
  induction calls generalizing b clauses with
  | nil => exact ⟨rfl, rfl, by rw [given, List.flatMap_nil, List.append_nil]; exact hstage⟩
  | cons call rest ih =>
      rw [List.forall_mem_cons] at h
      have hnext : b.next call = b.takeAll (call.clauses.map Clause.inlined) := by
        rw [next, turnFor, h.1]
        simp [openElse, hstage]
      have htaken : (b.next call).body = b.body ∧ (b.next call).branches = b.branches ∧
          (b.next call).stage = .orelse (clauses ++ call.clauses.map Clause.inlined) := by
        rw [hnext, takeAll, hstage]
        exact ⟨rfl, rfl, rfl⟩
      obtain ⟨hbody, hbranches, hrest⟩ := ih htaken.2.2 h.2
      rw [given_cons, ← List.append_assoc]
      exact ⟨hbody.trans htaken.1, hbranches.trans htaken.2.1, hrest⟩

/-- Before an else, clauses go into the open part up to the next turn; then come the
branches, and then the else. -/
theorem after_of_none (hstage : b.orelse? = none) (h : ElseLast calls) :
    (b.after calls).body = (b.takeAll (bodyOf calls)).body ∧
      (b.after calls).allBranches =
        (b.takeAll (bodyOf calls)).allBranches ++ branchesOf calls ∧
      (b.after calls).orelse? = elseOf calls := by
  induction calls generalizing b with
  | nil =>
      have hnone : bodyOf [] = [] := rfl
      rw [hnone, takeAll_nil]
      exact ⟨rfl, (List.append_nil _).symm, hstage⟩
  | cons call rest ih =>
      obtain ⟨hlast, hrest⟩ := elseLast_cons.1 h
      cases htest : call.test? with
      | some test =>
          obtain ⟨hclauses, helse⟩ := clauses_of_test? htest
          have hnext : b.next call =
              { b with branches := b.allBranches, stage := .branch test [] } := by
            rw [next, hclauses, List.map_nil, takeAll_nil, turnFor, htest]
            cases hb : b.stage with
            | body | branch => rfl
            | orelse => simp [orelse?, hb] at hstage
          obtain ⟨hbody, hbranches, horelse⟩ := ih (b := b.next call) (by rw [hnext]; rfl) hrest
          rw [bodyOf_cons_of_turns (by simp [stays, htest]), takeAll_nil,
            branchesOf_cons_of_some htest, elseOf_cons_of_not helse]
          refine ⟨hbody.trans (by rw [hnext]; rfl), hbranches.trans ?_, horelse⟩
          rw [hnext]
          simp [takeAll, allBranches]
      | none =>
          rw [branchesOf_cons_of_none htest]
          cases helse : call.isElse with
          | false =>
              have hstays : call.stays = true := stays_iff.2 ⟨htest, helse⟩
              have hkept : (b.next call).orelse? = none := by
                rw [next_of_stays hstays, takeAll]
                cases hb : b.stage with
                | body => simp [orelse?]
                | branch => rfl
                | orelse => simp [orelse?, hb] at hstage
              obtain ⟨hbody, hbranches, horelse⟩ := ih hkept hrest
              rw [bodyOf_cons_of_stays hstays, elseOf_cons_of_not helse, ← takeAll_takeAll,
                ← next_of_stays hstays]
              exact ⟨hbody, hbranches, horelse⟩
          | true =>
              have hturned : b.openElse =
                  { b with branches := b.allBranches, stage := .orelse [] } := by
                rw [openElse]
                cases hb : b.stage with
                | body | branch => rfl
                | orelse => simp [orelse?, hb] at hstage
              have htaken : (b.next call).body = b.body ∧
                  (b.next call).branches = b.allBranches ∧
                  (b.next call).stage = .orelse (call.clauses.map Clause.inlined) := by
                rw [next, turnFor, htest, helse, if_pos rfl, hturned]
                exact ⟨rfl, rfl, rfl⟩
              obtain ⟨hbody, hbranches, hfinal⟩ := after_of_orelse htaken.2.2 (hlast helse)
              rw [bodyOf_cons_of_turns (by simp [stays, helse]), takeAll_nil,
                branchesOf_eq_nil (hlast helse), List.append_nil, elseOf_cons_of_else helse,
                given_cons]
              refine ⟨hbody.trans htaken.1, ?_, ?_⟩
              · show ((b.next call).after rest).allBranches = _
                rw [allBranches, hfinal, hbranches, htaken.2.1]
              · show ((b.next call).after rest).orelse? = _
                rw [orelse?, hfinal]

theorem Fresh.start {start : ConstructBuilder} (h : start.Fresh) :
    start.bodyKind = none ∧ start.body = [] ∧ start.branches = [] ∧ start.stage = .body := by
  cases h <;> exact ⟨rfl, rfl, rfl, rfl⟩

/-- The parts of the construct are those of the text. -/
theorem Fresh.assemble_after {start : ConstructBuilder} (fresh : start.Fresh)
    (h : ElseLast calls) :
    (start.after calls).assemble =
      { kind := start.kind
        bodyKind := (settled none (given calls)).getD .equation
        test := start.test
        indices := start.indices
        body := bodyOf calls
        branches := branchesOf calls
        orelse := elseOf calls } := by
  obtain ⟨hheld, hbody, hbranches, hstage⟩ := fresh.start
  obtain ⟨kind, test, indices, held⟩ := start.after_rest calls
  obtain ⟨body, branches, orelse⟩ := after_of_none (b := start) (by rw [orelse?, hstage]) h
  rw [takeAll, hstage] at body branches
  simp only [hbody, List.nil_append] at body
  simp only [allBranches, hbranches, List.nil_append] at branches
  rw [hheld] at held
  rw [assemble, Construct.mk.injEq]
  exact ⟨kind, by rw [held], test, indices, body, branches, orelse⟩

/-! ## What the builder asks -/

/-- What a body takes in is the clause as it holds it. -/
theorem inlined_of_flatten {clause taken : Clause} (h : flatten clause = .ok taken) :
    taken = clause.inlined := by
  cases clause with
  | construct c =>
      rw [flatten] at h
      rw [Clause.inlined]
      split at h
      · obtain ⟨text, htext, rfl⟩ := map_eq_ok.1 h
        rw [htext]
      · next hkind =>
          cases h
          rw [Construct.inline, if_pos hkind]
  | equation | connection | statement | algorithm | expression =>
      cases h
      rfl

/-- An if-expression that came out of a builder has its line. -/
theorem flatten_eq_inlined {clause : Clause}
    (h : ∀ inner, clause = .construct inner → inner.Built) :
    flatten clause = .ok clause.inlined := by
  have hsome : ∃ taken, flatten clause = .ok taken := by
    cases clause with
    | construct c =>
        rw [flatten]
        split
        · next hkind =>
            obtain ⟨text, htext⟩ := (h c rfl).wellFormed.inline_eq_ok hkind
            rw [htext]
            exact ⟨_, rfl⟩
        · exact ⟨_, rfl⟩
    | equation | connection | statement | algorithm | expression => exact ⟨_, rfl⟩
  obtain ⟨taken, htaken⟩ := hsome
  rw [htaken, inlined_of_flatten htaken]

theorem push_eq_takeAll (b : ConstructBuilder) (taken : Clause) :
    { b with bodyKind := some taken.kind }.push taken = b.takeAll [taken] := by
  obtain ⟨kind, test, indices, bodyKind, body, branches, stage⟩ := b
  cases stage <;> rfl

/-- A clause is taken in if it is like those before it and, if it is an expression, if it
may be one and is alone. -/
theorem addClause_eq_ok {clause : Clause} {later : ConstructBuilder}
    (h : b.addClause clause = .ok later) : later = b.takeAll [clause.inlined] := by
  unfold addClause at h
  split at h
  · cases h
  · next taken htaken =>
      obtain rfl := inlined_of_flatten htaken
      split at h
      · cases h
      · next kind hkind =>
          obtain ⟨rfl, -, -⟩ := settleKind_eq_ok hkind
          split at h
          · cases h
          · cases h
            exact b.push_eq_takeAll _

theorem addClauses_eq_ok {clauses : List Clause} {later : ConstructBuilder}
    (h : b.addClauses clauses = .ok later) : later = b.takeAll (clauses.map Clause.inlined) := by
  induction clauses generalizing b with
  | nil =>
      cases h
      exact (takeAll_nil _).symm
  | cons clause rest ih =>
      rw [addClauses] at h
      split at h
      · cases h
      · next mid hmid =>
          rw [ih h, addClause_eq_ok hmid, takeAll_takeAll]
          rfl

theorem isConditional_iff {kind : ConstructKind} :
    kind.isConditional = true ↔ kind = .ifThen ∨ kind = .when := by
  cases kind <;> simp [ConstructKind.isConditional]

theorem not_isConditional_iff {kind : ConstructKind} :
    (!kind.isConditional) = true ↔ kind = .forLoop ∨ kind = .whileLoop := by
  cases kind <;> simp [ConstructKind.isConditional]

theorem openBranch_eq_ok {test : Expression} {later : ConstructBuilder}
    (htest : call.test? = some test) :
    b.openBranch test = .ok later ↔
      (call.test? = none ∨ b.orelse? = none) ∧
        .ok (b.turnFor call) = Except.ok (ε := Error) later := by
  rw [openBranch, orelse?, turnFor, htest]
  cases b.stage <;> simp

/-- A call is made exactly if the construct has it, no branch is opened after an else, and
its clauses are taken in. -/
theorem apply_eq_ok_iff {later : ConstructBuilder} :
    b.apply call = .ok later ↔
      call.Available b.kind ∧ (call.test? = none ∨ b.orelse? = none) ∧
        (b.turnFor call).addClauses call.clauses = .ok later := by
  have hfills : ∀ {p : Prop}, p ↔ ((none : Option Expression) = none ∨ b.orelse? = none) ∧ p :=
    ⟨fun h => ⟨.inl rfl, h⟩, fun h => h.2⟩
  cases call with
  | thenDo clauses =>
      rw [apply, require_eq_ok, isConditional_iff]
      exact and_congr_right' hfills
  | repeatDo clauses =>
      rw [apply, require_eq_ok, not_isConditional_iff]
      exact and_congr_right' hfills
  | elseif test =>
      rw [apply, require_eq_ok, beq_iff_eq]
      exact and_congr_right' (openBranch_eq_ok rfl)
  | elsewhen test =>
      rw [apply, require_eq_ok, beq_iff_eq]
      exact and_congr_right' (openBranch_eq_ok rfl)
  | orelse clauses =>
      rw [apply, require_eq_ok, isConditional_iff]
      exact and_congr_right' hfills

/-- An else is open after a call if it is the call's or was open before. -/
theorem orelse?_next :
    (b.next call).orelse? = none ↔ call.isElse = false ∧ b.orelse? = none := by
  have htaken : ∀ (b : ConstructBuilder) (taken : List Clause),
      (b.takeAll taken).orelse? = none ↔ b.orelse? = none := by
    intro b taken
    obtain ⟨kind, test, indices, bodyKind, body, branches, stage⟩ := b
    cases stage <;> simp [takeAll, orelse?]
  rw [next, htaken]
  obtain ⟨kind, test, indices, bodyKind, body, branches, stage⟩ := b
  cases call <;> cases stage <;> simp [turnFor, test?, isElse, openElse, orelse?]

/-- A builder that accepts calls is where they lead without questions, and their text has
the calls of its construct and no branch after an else. -/
theorem applyAll_eq_ok {last : ConstructBuilder} (h : b.applyAll calls = .ok last) :
    last = b.after calls ∧ (∀ call ∈ calls, call.Available b.kind) ∧ ElseLast calls ∧
      (b.orelse? ≠ none → ∀ call ∈ calls, call.test? = none) := by
  induction calls generalizing b with
  | nil =>
      cases h
      exact ⟨rfl, List.forall_mem_nil _, .nil, fun _ => List.forall_mem_nil _⟩
  | cons call rest ih =>
      rw [applyAll] at h
      split at h
      · cases h
      · next mid hmid =>
          obtain ⟨havailable, hstage, hadded⟩ := apply_eq_ok_iff.1 hmid
          obtain rfl : mid = b.next call := addClauses_eq_ok hadded
          obtain ⟨hlast, hall, helseLast, htests⟩ := ih h
          rw [(b.next_rest call).1] at hall
          rw [ne_eq, orelse?_next] at htests
          refine ⟨hlast, List.forall_mem_cons.2 ⟨havailable, hall⟩, ?_, ?_⟩
          · refine elseLast_cons.2 ⟨fun helse => htests ?_, helseLast⟩
            rw [helse]
            rintro ⟨hstays, -⟩
            cases hstays
          · intro hopen
            exact List.forall_mem_cons.2
              ⟨hstage.resolve_right hopen, htests fun hnot => hopen hnot.2⟩

/-! ## Legal calls are accepted -/

/-- All parts so far. -/
def parts (b : ConstructBuilder) : List (List Clause) :=
  b.body :: b.allBranches.map Branch.body ++ b.orelse?.toList

/-- The open part is one of them, and it is the one that grows. -/
theorem parts_takeAll (b : ConstructBuilder) (taken : List Clause) :
    ∃ before behind, b.parts = before ++ b.current :: behind ∧
      (b.takeAll taken).parts = before ++ (b.current ++ taken) :: behind := by
  obtain ⟨kind, test, indices, bodyKind, body, branches, stage⟩ := b
  cases stage with
  | body => exact ⟨[], branches.map Branch.body, by simp [parts, allBranches, orelse?, current],
      by simp [parts, allBranches, orelse?, current, takeAll]⟩
  | branch test clauses =>
      exact ⟨body :: branches.map Branch.body, [], by simp [parts, allBranches, orelse?, current],
        by simp [parts, allBranches, orelse?, current, takeAll]⟩
  | orelse clauses =>
      exact ⟨body :: branches.map Branch.body, [], by simp [parts, allBranches, orelse?, current],
        by simp [parts, allBranches, orelse?, current, takeAll]⟩

theorem mem_parts_turnFor {part : List Clause} (h : part ∈ b.parts) (call : BuilderCall) :
    part ∈ (b.turnFor call).parts := by
  have hmore : ∀ {stage : Stage}, b.orelse? = none →
      part ∈ { b with branches := b.allBranches, stage }.parts := by
    intro stage hnone
    have hold : part ∈ b.body :: b.allBranches.map Branch.body := by
      rw [parts, hnone] at h
      simpa using h
    generalize b.allBranches = filed at hold ⊢
    cases stage with
    | body | orelse => exact List.mem_append_left _ hold
    | branch test clauses =>
        simp only [parts, allBranches, List.map_append, ← List.cons_append]
        exact List.mem_append_left _ (List.mem_append_left _ hold)
  rw [turnFor]
  split
  · exact h
  · next hb => exact hmore (by rw [orelse?, hb])
  · next hb => exact hmore (by rw [orelse?, hb])
  · split
    · rw [openElse]
      split
      · exact h
      · next hb => exact hmore (by rw [orelse?, hb])
      · next hb => exact hmore (by rw [orelse?, hb])
    · exact h

/-- Every part is the beginning of a part of the result. -/
theorem parts_after {part : List Clause} (h : part ∈ b.parts) (calls : List BuilderCall) :
    ∃ whole ∈ (b.after calls).parts, part <+: whole := by
  induction calls generalizing b part with
  | nil => exact ⟨part, h, List.prefix_rfl⟩
  | cons call rest ih =>
      obtain ⟨before, behind, hparts, hgrown⟩ :=
        (b.turnFor call).parts_takeAll (call.clauses.map Clause.inlined)
      have hturned := mem_parts_turnFor h call
      have hnext : ∃ more ∈ (b.next call).parts, part <+: more := by
        rw [hparts] at hturned
        rw [next, hgrown]
        rcases List.mem_append.1 hturned with hbefore | hopen
        · exact ⟨part, List.mem_append_left _ hbefore, List.prefix_rfl⟩
        · rcases List.mem_cons.1 hopen with rfl | hbehind
          · exact ⟨_, List.mem_append_right _ List.mem_cons_self, List.prefix_append _ _⟩
          · exact ⟨part, List.mem_append_right _ (List.mem_cons_of_mem _ hbehind),
              List.prefix_rfl⟩
      obtain ⟨more, hmore, hpart⟩ := hnext
      obtain ⟨whole, hwhole, hmorePrefix⟩ := ih hmore
      exact ⟨whole, hwhole, hpart.trans hmorePrefix⟩

theorem settleKind_eq_ok_of {found : BodyKind} (hif : found = .expression → b.kind = .ifThen)
    (hheld : b.bodyKind = none ∨ b.bodyKind = some found) : b.settleKind found = .ok found := by
  rw [settleKind, if_neg (by rintro ⟨hfound, hkind⟩; exact hkind (hif hfound))]
  rcases hheld with hnone | hsome
  · rw [hnone]
  · rw [hsome]
    exact if_pos rfl

theorem addClause_of {clause : Clause} (hflat : flatten clause = .ok clause.inlined)
    (hheld : b.bodyKind = none ∨ b.bodyKind = some clause.inlined.kind)
    (hsingle : clause.inlined.kind = .expression → b.kind = .ifThen ∧ b.current = []) :
    b.addClause clause = .ok (b.takeAll [clause.inlined]) := by
  have hsettled := settleKind_eq_ok_of (fun hfound => (hsingle hfound).1) hheld
  rw [addClause, hflat]
  simp only [hsettled]
  rw [if_neg (by rintro ⟨hfound, hopen⟩; exact hopen (hsingle hfound).2), push_eq_takeAll]

theorem addClauses_of {clauses : List Clause} {kind : BodyKind}
    (hflat : ∀ clause ∈ clauses, flatten clause = .ok clause.inlined)
    (hkind : ∀ clause ∈ clauses, clause.inlined.kind = kind)
    (hheld : b.bodyKind = none ∨ b.bodyKind = some kind)
    (hsingle : kind = .expression →
      b.kind = .ifThen ∧ (b.current ++ clauses.map Clause.inlined).length ≤ 1) :
    b.addClauses clauses = .ok (b.takeAll (clauses.map Clause.inlined)) := by
  induction clauses generalizing b with
  | nil => rw [addClauses, List.map_nil, takeAll_nil]
  | cons clause rest ih =>
      rw [List.forall_mem_cons] at hflat hkind
      have hadded : b.addClause clause = .ok (b.takeAll [clause.inlined]) := by
        refine addClause_of hflat.1 (by rwa [hkind.1]) fun hexpression => ?_
        obtain ⟨hif, hlength⟩ := hsingle (hkind.1.symm.trans hexpression)
        refine ⟨hif, List.eq_nil_of_length_eq_zero ?_⟩
        simp only [List.map_cons, List.length_append, List.length_cons] at hlength
        omega
      obtain ⟨hsame, -, -, hbodyKind⟩ := b.takeAll_rest [clause.inlined]
      rw [addClauses, hadded]
      dsimp only
      rw [ih hflat.2 hkind.2, takeAll_takeAll]
      · rfl
      · right
        rw [hbodyKind, ← hkind.1]
        rfl
      · intro hexpression
        rw [hsame, takeAll_current, List.append_assoc]
        exact hsingle hexpression

theorem settled_eq {taken : List Clause} {kind : BodyKind}
    (h : ∀ clause ∈ taken, clause.kind = kind) (held : Option BodyKind) :
    settled held taken = if taken = [] then held else some kind := by
  induction taken generalizing held with
  | nil => rfl
  | cons clause rest ih =>
      rw [List.forall_mem_cons] at h
      rw [if_neg (List.cons_ne_nil _ _), ← h.1]
      show settled (some clause.kind) rest = some clause.kind
      rw [ih h.2, h.1]
      exact ite_self _

/-- Legal calls are made, one after the other, from any point of their text. -/
theorem applyAll_of {kind : BodyKind} (havailable : ∀ call ∈ calls, call.Available b.kind)
    (helseLast : ElseLast calls) (hstage : b.orelse? ≠ none → ∀ call ∈ calls, call.test? = none)
    (hflat : ∀ call ∈ calls, ∀ clause ∈ call.clauses, flatten clause = .ok clause.inlined)
    (hkind : ∀ clause ∈ given calls, clause.kind = kind)
    (hheld : b.bodyKind = none ∨ b.bodyKind = some kind)
    (hsingle : kind = .expression →
      b.kind = .ifThen ∧ ∀ part ∈ (b.after calls).parts, part.length ≤ 1) :
    b.applyAll calls = .ok (b.after calls) := by
  induction calls generalizing b with
  | nil => rfl
  | cons call rest ih =>
      rw [List.forall_mem_cons] at havailable hflat
      obtain ⟨hlast, hrest⟩ := elseLast_cons.1 helseLast
      rw [given_cons, List.forall_mem_append] at hkind
      obtain ⟨hsame, -, -, hsettled⟩ := b.next_rest call
      obtain ⟨htkind, -, -, htheld⟩ := b.turnFor_rest call
      have hnow : call.test? = none ∨ b.orelse? = none := by
        by_cases hopen : b.orelse? = none
        · exact .inr hopen
        · exact .inl (hstage hopen call List.mem_cons_self)
      -- the open part is the beginning of a part of the result, so it is not too long
      have hshort : kind = .expression → (b.next call).current.length ≤ 1 := by
        intro hexpression
        obtain ⟨before, behind, hparts, -⟩ := (b.next call).parts_takeAll []
        have hmem : (b.next call).current ∈ (b.next call).parts := by
          rw [hparts]
          exact List.mem_append_right _ List.mem_cons_self
        obtain ⟨whole, hwhole, hprefix⟩ := parts_after hmem rest
        exact Nat.le_trans hprefix.length_le ((hsingle hexpression).2 whole hwhole)
      have hadded : (b.turnFor call).addClauses call.clauses = .ok (b.next call) := by
        refine addClauses_of hflat.1 ?_ (by rwa [htheld]) fun hexpression => ?_
        · intro clause hmem
          exact hkind.1 _ (List.mem_map_of_mem hmem)
        · rw [htkind, ← takeAll_current]
          exact ⟨(hsingle hexpression).1, hshort hexpression⟩
      have hmade : b.apply call = .ok (b.next call) :=
        apply_eq_ok_iff.2 ⟨havailable.1, hnow, hadded⟩
      rw [applyAll, hmade]
      refine ih (by rw [hsame]; exact havailable.2) hrest ?_ hflat.2 hkind.2 ?_ ?_
      · intro hopen later hmem
        rw [ne_eq, orelse?_next, not_and] at hopen
        cases helse : call.isElse with
        | true => exact hlast helse later hmem
        | false => exact hstage (hopen helse) later (List.mem_cons_of_mem _ hmem)
      · rw [hsettled, settled_eq hkind.1]
        split
        · exact hheld
        · exact .inr rfl
      · intro hexpression
        rw [hsame]
        exact hsingle hexpression

/-! ## Closing -/

variable {start : ConstructBuilder} {c : Construct}

theorem build_eq_ok_iff :
    start.build calls = .ok c ↔ ∃ last, start.applyAll calls = .ok last ∧ last.close = .ok c := by
  rw [build]
  cases start.applyAll calls <;> simp

theorem close_of (h : b.assemble.bodyKind = .expression → ∃ text, b.assemble.inline = .ok text) :
    b.close = .ok b.assemble := by
  rw [close]
  split
  · next hexpression =>
      obtain ⟨text, htext⟩ := h hexpression
      rw [htext]
      rfl
  · rfl

theorem Fresh.clauses_after (fresh : start.Fresh) (h : ElseLast calls) :
    (start.after calls).assemble.clauses = given calls := by
  rw [fresh.assemble_after h]
  exact parts_eq_given h

/-- What can be built is legal. -/
theorem Fresh.legal (fresh : start.Fresh)
    (nested : ∀ call ∈ calls, ∀ inner, .construct inner ∈ call.clauses → inner.Built)
    (h : start.build calls = .ok c) :
    Legal start.kind calls ∧ c = (start.after calls).assemble := by
  obtain ⟨last, hfilled, hclosed⟩ := build_eq_ok_iff.1 h
  have hsound : last.Sound := by
    refine fresh.sound.applyAll ?_ hfilled
    intro call hcall inner hinner
    exact (nested call hcall inner hinner).wellFormed
  obtain ⟨rfl, havailable, helseLast, -⟩ := applyAll_eq_ok hfilled
  obtain ⟨rfl, hinline⟩ := close_eq_ok hclosed
  have hkind : (start.after calls).kind = start.kind := (start.after_rest calls).1
  have hheld : ∀ clause ∈ given calls, (start.after calls).bodyKind = some clause.kind := by
    intro clause hmem
    refine hsound.held clause ?_
    rwa [← clauses_assemble, fresh.clauses_after helseLast]
  refine ⟨⟨havailable, helseLast, ?_, ?_⟩, rfl⟩
  · intro first hfirst second hsecond
    exact Option.some.inj ((hheld first hfirst).symm.trans (hheld second hsecond))
  · rintro ⟨clause, hmem, hexpression⟩
    have hsome : (start.after calls).bodyKind = some .expression := by
      rw [hheld clause hmem, hexpression]
    have hbodyKind : (start.after calls).assemble.bodyKind = .expression := by
      rw [assemble, hsome, Option.getD_some]
    have hparts := Construct.inline_eq_ok.1 (hinline hbodyKind)
    rw [fresh.assemble_after helseLast] at hparts
    obtain ⟨-, -, ⟨text, hbody⟩, hbranches, last, hlast, other, hother⟩ := hparts
    refine ⟨hkind.symm.trans (hsound.expression hsome), congrArg List.length hbody, ?_, last, hlast,
      congrArg List.length hother⟩
    intro branch hbranch
    obtain ⟨text, htext⟩ := hbranches branch hbranch
    exact congrArg List.length htext

/-- A clause that counts as an expression is one, as the body holds it. -/
theorem expression_of_given
    (hflat : ∀ call ∈ calls, ∀ clause ∈ call.clauses, flatten clause = .ok clause.inlined)
    {clause : Clause} (hmem : clause ∈ given calls) (hkind : clause.kind = .expression) :
    ∃ text, clause = .expression text := by
  obtain ⟨call, hcall, hclause⟩ := List.mem_flatMap.1 hmem
  obtain ⟨source, hsource, rfl⟩ := List.mem_map.1 hclause
  rcases flatten_eq_ok (hflat call hcall source hsource) with htext | ⟨hsame, hplain⟩
  · exact htext
  · rw [hsame] at hkind ⊢
    cases source with
    | expression text => exact ⟨text, rfl⟩
    | construct inner => exact (hplain inner rfl hkind).elim
    | equation | connection | statement | algorithm => cases hkind

theorem single_of_length {part : List Clause} (hlength : part.length = 1)
    (hpart : ∀ clause ∈ part, ∃ text, clause = .expression text) : Construct.Single part := by
  obtain ⟨clause, rfl⟩ := List.length_eq_one_iff.1 hlength
  obtain ⟨text, rfl⟩ := hpart clause List.mem_cons_self
  exact ⟨text, rfl⟩

/-- What is legal can be built. -/
theorem Fresh.build_of_legal (fresh : start.Fresh)
    (hflat : ∀ call ∈ calls, ∀ clause ∈ call.clauses, flatten clause = .ok clause.inlined)
    (h : Legal start.kind calls) : start.build calls = .ok (start.after calls).assemble := by
  obtain ⟨hheld, -, -, hstage⟩ := fresh.start
  have hassemble := fresh.assemble_after h.elseLast
  obtain ⟨kind, hkind, hsome⟩ : ∃ kind, (∀ clause ∈ given calls, clause.kind = kind) ∧
      (kind = .expression → ∃ clause ∈ given calls, clause.kind = .expression) := by
    cases hgiven : given calls with
    | nil =>
        refine ⟨.equation, List.forall_mem_nil _, ?_⟩
        intro hexpression
        cases hexpression
    | cons first rest =>
        have hfirst : first ∈ given calls := by rw [hgiven]; exact List.mem_cons_self
        rw [← hgiven]
        exact ⟨first.kind, fun clause hmem => h.alike clause hmem first hfirst,
          fun hexpression => ⟨first, hfirst, hexpression⟩⟩
  have hfilled : start.applyAll calls = .ok (start.after calls) := by
    refine applyAll_of h.available h.elseLast ?_ hflat hkind (.inl hheld) fun hexpression => ?_
    · intro hopen
      exact (hopen (by rw [orelse?, hstage])).elim
    · obtain ⟨hif, hbody, hbranches, last, hlast, hlength⟩ := h.complete (hsome hexpression)
      refine ⟨hif, ?_⟩
      have hparts : (start.after calls).parts =
          bodyOf calls :: (branchesOf calls).map Branch.body ++ (elseOf calls).toList := by
        show (start.after calls).assemble.body ::
          (start.after calls).assemble.branches.map Branch.body ++
            (start.after calls).assemble.orelse.toList = _
        rw [hassemble]
      intro part hpart
      rw [hparts, hlast] at hpart
      simp only [List.cons_append, List.mem_cons, List.mem_append, List.mem_map,
        Option.toList_some, List.not_mem_nil, or_false] at hpart
      rcases hpart with rfl | ⟨branch, hbranch, rfl⟩ | rfl
      · exact Nat.le_of_eq hbody
      · exact Nat.le_of_eq (hbranches branch hbranch)
      · exact Nat.le_of_eq hlength
  refine build_eq_ok_iff.2 ⟨_, hfilled, close_of fun hexpression => ?_⟩
  have hexpressions : kind = .expression := by
    rw [hassemble] at hexpression
    simp only [settled_eq hkind] at hexpression
    split at hexpression
    · cases hexpression
    · exact hexpression
  have htexts : ∀ clause ∈ (start.after calls).assemble.clauses,
      ∃ text, clause = .expression text := by
    intro clause hmem
    rw [fresh.clauses_after h.elseLast] at hmem
    exact expression_of_given hflat hmem ((hkind clause hmem).trans hexpressions)
  obtain ⟨hif, hbody, hbranches, last, hlast, hlength⟩ := h.complete (hsome hexpressions)
  rw [Construct.inline_eq_ok, hassemble]
  rw [hassemble] at hexpression htexts
  simp only [Construct.clauses, List.forall_mem_append, hlast, Option.getD_some] at htexts
  obtain ⟨⟨hbodyTexts, hbranchTexts⟩, hlastTexts⟩ := htexts
  refine ⟨hexpression, ?_, single_of_length hbody hbodyTexts, ?_, last, hlast,
    single_of_length hlength hlastTexts⟩
  · refine (fresh.sound.tested ?_).1
    rw [hif]
    decide
  · intro branch hbranch
    refine single_of_length (hbranches branch hbranch) fun clause hmem => hbranchTexts clause ?_
    exact List.mem_flatMap.2 ⟨branch, hbranch, hmem⟩

/-- A builder accepts exactly the legal calls, and then no clause is lost: the body, the
branches and the else of the construct are those of the text of the calls, in its order,
and all that was given is in them. What the construct holds is what its clauses are;
equations, if it has none. -/
theorem builds_exactly_legal {start : ConstructBuilder} {calls : List BuilderCall}
    (fresh : start.Fresh)
    (nested : ∀ call ∈ calls, ∀ inner, .construct inner ∈ call.clauses → inner.Built) :
    ((∃ c, start.build calls = .ok c) ↔ Legal start.kind calls) ∧
    ∀ c, start.build calls = .ok c →
      c.kind = start.kind ∧ c.test = start.test ∧ c.indices = start.indices ∧
      (∀ clause ∈ given calls, c.bodyKind = clause.kind) ∧
      (given calls = [] → c.bodyKind = .equation) ∧
      c.body = bodyOf calls ∧ c.branches = branchesOf calls ∧ c.orelse = elseOf calls ∧
      c.clauses = given calls := by
  have hflat : ∀ call ∈ calls, ∀ clause ∈ call.clauses, flatten clause = .ok clause.inlined := by
    intro call hcall clause hclause
    exact flatten_eq_inlined fun inner heq => nested call hcall inner (heq ▸ hclause)
  refine ⟨⟨fun ⟨c, h⟩ => (fresh.legal nested h).1, fun h => ⟨_, fresh.build_of_legal hflat h⟩⟩, ?_⟩
  intro c h
  obtain ⟨hlegal, rfl⟩ := fresh.legal nested h
  have hclauses := fresh.clauses_after hlegal.elseLast
  have hassemble := fresh.assemble_after hlegal.elseLast
  rw [hassemble] at hclauses ⊢
  refine ⟨rfl, rfl, rfl, ?_, ?_, rfl, rfl, rfl, hclauses⟩
  · intro clause hmem
    have hkind : ∀ other ∈ given calls, other.kind = clause.kind :=
      fun other hother => hlegal.alike other hother clause hmem
    simp only [settled_eq hkind, if_neg (List.ne_nil_of_mem hmem), Option.getD_some]
  · intro hnone
    rw [hnone]
    rfl

/-- An if-expression inside another one, with calls that give nothing and clauses that come
after the else was opened. -/
theorem builds_exactly_legal_expression :
    let inner : Construct :=
      ⟨.ifThen, .expression, some "p", [], [.expression "1"], [], some [.expression "2"]⟩
    let calls : List BuilderCall :=
      [.thenDo [], .thenDo [.construct inner], .elseif "b", .thenDo [.expression "3"], .orelse [],
        .thenDo [.expression "4"], .orelse []]
    (openIf "a").Fresh ∧ inner.Built ∧ Legal .ifThen calls ∧
      ∃ c, (openIf "a").build calls = .ok c ∧ c.bodyKind = .expression ∧
        c.branches = [⟨"b", [.expression "3"]⟩] ∧ c.orelse = some [.expression "4"] := by
  intro inner calls
  have hinner : inner.Built := by
    have hfilled : (openIf "p").applyAll [.thenDo inner.body, .orelse [.expression "2"]] = .ok _ :=
      rfl
    exact .close (.openIf "p") (by simp [BuilderCall.clauses, inner]) hfilled rfl
  have hnested : ∀ call ∈ calls, ∀ other, .construct other ∈ call.clauses → other.Built := by
    intro call hcall other hother
    simp only [calls, List.mem_cons, List.not_mem_nil, or_false] at hcall
    rcases hcall with rfl | rfl | rfl | rfl | rfl | rfl | rfl <;>
      simp [BuilderCall.clauses] at hother
    rw [hother]
    exact hinner
  obtain ⟨hlegal, hparts⟩ := builds_exactly_legal (.openIf "a") hnested
  obtain ⟨c, hbuild⟩ : ∃ c, (openIf "a").build calls = .ok c := ⟨_, rfl⟩
  obtain ⟨-, -, -, hkind, -, -, hbranches, horelse, -⟩ := hparts c hbuild
  refine ⟨.openIf "a", hinner, hlegal.1 ⟨c, hbuild⟩, c, hbuild, ?_, hbranches, horelse⟩
  exact hkind (.expression "3") (by simp [calls, given, BuilderCall.clauses, Clause.inlined])

end ConstructBuilder

end ModelSource

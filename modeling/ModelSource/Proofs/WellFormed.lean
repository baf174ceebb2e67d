import ModelSource.Proofs.Reachable

/-!
# What comes out of a builder is well formed

A builder checks a little at every call and the rest at the end, and no single
check says what a finished construct looks like. This file says it: the parts
agree in what they hold, tests and indices are where the kind of construct has
them, loops have neither branches nor an else, an if-expression is complete, and
no clause is an if-expression in disguise. The same holds of every construct
inside.

The invariant of a builder, `ConstructBuilder.Sound`, is kept by every call. What
only holds at the end, that an if-expression has one expression in each part, is
what `inline` finds out when the construct is closed.
-/

namespace ModelSource

namespace Construct

/-- The clauses of the body, of the branches and of the else. -/
def clauses (c : Construct) : List Clause :=
  c.body ++ c.branches.flatMap Branch.body ++ c.orelse.getD []

/-- The part holds one expression and nothing else. -/
def Single (part : List Clause) : Prop :=
  ∃ text, part = [.expression text]

/-- The rules for a construct, those for the constructs inside left out. -/
structure Shaped (c : Construct) : Prop where
  held : ∀ clause ∈ c.clauses, clause.kind = c.bodyKind
  tested : c.kind ≠ .forLoop → c.test.isSome ∧ c.indices = []
  untested : c.kind = .forLoop → c.test = none
  unbranched : c.kind.isConditional = false → c.branches = [] ∧ c.orelse = none
  single : c.bodyKind = .expression →
    c.kind = .ifThen ∧ Single c.body ∧ (∀ branch ∈ c.branches, Single branch.body) ∧
      ∃ last, c.orelse = some last ∧ Single last

/-- The rules hold at every depth, and what is inside holds no expressions. -/
inductive WellFormed : Construct → Prop
  | intro {c : Construct} (shaped : c.Shaped)
      (plain : ∀ inner, .construct inner ∈ c.clauses → inner.bodyKind ≠ .expression)
      (nested : ∀ inner, .construct inner ∈ c.clauses → WellFormed inner) : WellFormed c

theorem WellFormed.shaped {c : Construct} : c.WellFormed → c.Shaped
  | .intro shaped _ _ => shaped

/-! ## If-expressions -/

theorem singleExpression_eq_ok {part : List Clause} {text : Expression} :
    singleExpression part = .ok text ↔ part = [.expression text] := by
  unfold singleExpression
  split
  · simp
  · next hother => simpa using hother text

theorem inlineBranches_eq_ok {branches : List Branch} :
    (∃ text, inlineBranches branches = .ok text) ↔ ∀ branch ∈ branches, Single branch.body := by
  induction branches with
  | nil => simp [inlineBranches]
  | cons branch rest ih =>
      rw [List.forall_mem_cons, ← ih, inlineBranches, Single]
      cases hbody : singleExpression branch.body with
      | error e => simp [← singleExpression_eq_ok, hbody]
      | ok text => simp [← singleExpression_eq_ok, hbody, map_eq_ok]

/-- A construct has a line exactly if it is a complete if-expression. -/
theorem inline_eq_ok {c : Construct} :
    (∃ text, c.inline = .ok text) ↔
      c.bodyKind = .expression ∧ c.test.isSome ∧ Single c.body ∧
        (∀ branch ∈ c.branches, Single branch.body) ∧
        ∃ last, c.orelse = some last ∧ Single last := by
  rw [← inlineBranches_eq_ok, inline]
  split
  · next hkind => simp [hkind]
  · next hkind =>
      split
      · next test last htest hlast =>
          have hexpression : c.bodyKind = .expression := not_not.1 hkind
          simp only [Single, ← singleExpression_eq_ok, htest, hlast, hexpression]
          cases singleExpression c.body with
          | error e => simp
          | ok body =>
              cases inlineBranches c.branches with
              | error e => simp
              | ok branches => simp [map_eq_ok]
      · next hmissing =>
          refine ⟨fun ⟨_, h⟩ => (nomatch h), fun ⟨_, htest, _, _, last, hlast, _⟩ => ?_⟩
          obtain ⟨test, htest⟩ := Option.isSome_iff_exists.1 htest
          exact (hmissing test last htest hlast).elim

end Construct

theorem Construct.WellFormed.inline_eq_ok {c : Construct} (h : c.WellFormed)
    (hkind : c.bodyKind = .expression) : ∃ text, c.inline = .ok text := by
  obtain ⟨hif, hbody, hbranches, hlast⟩ := h.shaped.single hkind
  have htest : c.test.isSome = true := by
    refine (h.shaped.tested ?_).1
    rw [hif]
    exact nofun
  exact Construct.inline_eq_ok.2 ⟨hkind, htest, hbody, hbranches, hlast⟩

/-! ## The invariant of a builder -/

namespace ConstructBuilder

/-- The clauses of the open part, unless that is the body. -/
def openClauses (b : ConstructBuilder) : List Clause :=
  match b.stage with
  | .body => []
  | .branch _ clauses => clauses
  | .orelse clauses => clauses

/-- Every clause taken in so far. -/
def clauses (b : ConstructBuilder) : List Clause :=
  b.body ++ b.branches.flatMap Branch.body ++ b.openClauses

/-- What holds of a builder after every call. -/
structure Sound (b : ConstructBuilder) : Prop where
  held : ∀ clause ∈ b.clauses, b.bodyKind = some clause.kind
  tested : b.kind ≠ .forLoop → b.test.isSome ∧ b.indices = []
  untested : b.kind = .forLoop → b.test = none
  unbranched : b.kind.isConditional = false → b.branches = [] ∧ b.stage = .body
  expression : b.bodyKind = some .expression → b.kind = .ifThen
  plain : ∀ inner, .construct inner ∈ b.clauses → inner.bodyKind ≠ .expression
  nested : ∀ inner, .construct inner ∈ b.clauses → inner.WellFormed

theorem Fresh.sound {b : ConstructBuilder} (h : b.Fresh) : b.Sound := by
  have hnone : b.clauses = [] := by cases h <;> rfl
  have hopen : b.bodyKind = none ∧ b.branches = [] ∧ b.stage = .body := by
    cases h <;> exact ⟨rfl, rfl, rfl⟩
  constructor
  case unbranched => exact fun _ => hopen.2
  case tested | untested =>
      cases h <;> simp [ConstructBuilder.openIf, ConstructBuilder.openWhen,
        ConstructBuilder.openFor, ConstructBuilder.openWhile]
  all_goals simp [hnone, hopen.1]

theorem mem_clauses_push {b : ConstructBuilder} {clause other : Clause} :
    other ∈ (b.push clause).clauses ↔ other ∈ b.clauses ∨ other = clause := by
  unfold push
  split
  · next hstage =>
      simp only [clauses, openClauses, hstage, List.mem_append, List.mem_singleton,
        List.not_mem_nil, or_false]
      tauto
  · next hstage => simp [clauses, openClauses, hstage, or_assoc]
  · next hstage => simp [clauses, openClauses, hstage, or_assoc]

theorem push_rest (b : ConstructBuilder) (clause : Clause) :
    (b.push clause).kind = b.kind ∧ (b.push clause).test = b.test ∧
      (b.push clause).indices = b.indices ∧ (b.push clause).bodyKind = b.bodyKind ∧
      (b.push clause).branches = b.branches ∧
      (b.stage = .body → (b.push clause).stage = .body) := by
  unfold push
  split <;> simp_all

/-- What a body takes in is what it is given, or the text of an if-expression. -/
theorem flatten_eq_ok {given taken : Clause} (h : flatten given = .ok taken) :
    (∃ text, taken = .expression text) ∨
      taken = given ∧ ∀ inner, given = .construct inner → inner.bodyKind ≠ .expression := by
  unfold flatten at h
  split at h
  · next c =>
      split at h
      · obtain ⟨text, _, rfl⟩ := map_eq_ok.1 h
        exact .inl ⟨text, rfl⟩
      · next hkind =>
          cases h
          exact .inr ⟨rfl, fun inner heq => by cases heq; exact hkind⟩
  · next hother =>
      cases h
      exact .inr ⟨rfl, fun inner heq => (hother inner heq).elim⟩

theorem settleKind_eq_ok {b : ConstructBuilder} {found kind : BodyKind}
    (h : b.settleKind found = .ok kind) :
    kind = found ∧ (found = .expression → b.kind = .ifThen) ∧
      (b.bodyKind = none ∨ b.bodyKind = some found) := by
  unfold settleKind at h
  split at h
  · cases h
  · next hallowed =>
      have hif : found = .expression → b.kind = .ifThen := fun hfound =>
        not_not.1 fun hother => hallowed ⟨hfound, hother⟩
      split at h
      · next hnone =>
          cases h
          exact ⟨rfl, hif, .inl hnone⟩
      · next expected hsome =>
          split at h
          · next heq =>
              cases h
              exact ⟨rfl, hif, .inr (heq ▸ hsome)⟩
          · cases h

/-- A clause may go in if it is of the kind that is held and nothing in disguise. -/
theorem Sound.push {b : ConstructBuilder} {taken : Clause} (hb : b.Sound)
    (hkind : b.bodyKind = none ∨ b.bodyKind = some taken.kind)
    (hif : taken.kind = .expression → b.kind = .ifThen)
    (hplain : ∀ inner, taken = .construct inner → inner.bodyKind ≠ .expression)
    (hnested : ∀ inner, taken = .construct inner → inner.WellFormed) :
    ({ b with bodyKind := some taken.kind }.push taken).Sound := by
  obtain ⟨kind, test, indices, bodyKind, branches, stage⟩ :=
    push_rest { b with bodyKind := some taken.kind } taken
  constructor
  case held =>
      intro clause hmem
      rw [bodyKind]
      rcases mem_clauses_push.1 hmem with hold | rfl
      · -- an empty builder holds no clause that could disagree
        rcases hkind with hnone | hsome
        · rw [hb.held clause hold] at hnone
          cases hnone
        · exact hsome.symm.trans (hb.held clause hold)
      · rfl
  case tested => rw [kind, test, indices]; exact hb.tested
  case untested => rw [kind, test]; exact hb.untested
  case unbranched =>
      intro hloop
      rw [kind] at hloop
      obtain ⟨hbranches, hstage⟩ := hb.unbranched hloop
      exact ⟨branches.trans hbranches, stage hstage⟩
  case expression =>
      intro hexpression
      rw [bodyKind] at hexpression
      exact kind.trans (hif (Option.some.inj hexpression))
  case plain =>
      intro inner hmem
      exact (mem_clauses_push.1 hmem).elim (hb.plain inner) fun heq => hplain inner heq.symm
  case nested =>
      intro inner hmem
      exact (mem_clauses_push.1 hmem).elim (hb.nested inner) fun heq => hnested inner heq.symm

theorem Sound.addClause {b after : ConstructBuilder} {given : Clause} (hb : b.Sound)
    (hgiven : ∀ inner, given = .construct inner → inner.WellFormed)
    (h : b.addClause given = .ok after) : after.Sound := by
  unfold ConstructBuilder.addClause at h
  split at h
  · cases h
  · next taken htaken =>
      split at h
      · cases h
      · next kind hkind =>
          obtain ⟨rfl, hif, hheld⟩ := settleKind_eq_ok hkind
          split at h
          · cases h
          · cases h
            rcases flatten_eq_ok htaken with ⟨text, rfl⟩ | ⟨rfl, hplain⟩
            · exact hb.push hheld hif (fun _ heq => nomatch heq) (fun _ heq => nomatch heq)
            · exact hb.push hheld hif hplain hgiven

theorem Sound.addClauses {b after : ConstructBuilder} {given : List Clause} (hb : b.Sound)
    (hgiven : ∀ inner, .construct inner ∈ given → inner.WellFormed)
    (h : b.addClauses given = .ok after) : after.Sound := by
  induction given generalizing b with
  | nil =>
      cases h
      exact hb
  | cons clause rest ih =>
      rw [ConstructBuilder.addClauses] at h
      split at h
      · cases h
      · next mid hmid =>
          have hclause : ∀ inner, clause = .construct inner → inner.WellFormed :=
            fun inner heq => hgiven inner (heq ▸ List.mem_cons_self)
          exact ih (hb.addClause hclause hmid)
            (fun inner hmem => hgiven inner (List.mem_cons_of_mem _ hmem)) h

/-- Turning to a new part files the open one among the branches. -/
theorem clauses_turn {b : ConstructBuilder} {stage : Stage}
    (hopen : ∀ last, b.stage ≠ .orelse last)
    (hempty : { b with branches := b.allBranches, stage }.openClauses = []) :
    { b with branches := b.allBranches, stage }.clauses = b.clauses := by
  rw [clauses, hempty, clauses, openClauses, allBranches]
  split
  · next hstage => simp [hstage]
  · next hstage => simp [hstage]
  · next last hstage => exact (hopen last hstage).elim

theorem Sound.turn {b : ConstructBuilder} {stage : Stage} (hb : b.Sound)
    (hconditional : b.kind.isConditional = true) (hopen : ∀ last, b.stage ≠ .orelse last)
    (hempty : { b with branches := b.allBranches, stage }.openClauses = []) :
    { b with branches := b.allBranches, stage }.Sound := by
  have hclauses := clauses_turn hopen hempty
  constructor
  case held => rw [hclauses]; exact hb.held
  case plain => rw [hclauses]; exact hb.plain
  case nested => rw [hclauses]; exact hb.nested
  case tested => exact hb.tested
  case untested => exact hb.untested
  case expression => exact hb.expression
  case unbranched => exact fun hloop => nomatch hconditional.symm.trans hloop

theorem Sound.openBranch {b after : ConstructBuilder} {test : Expression} (hb : b.Sound)
    (hconditional : b.kind.isConditional = true) (h : b.openBranch test = .ok after) :
    after.Sound := by
  unfold ConstructBuilder.openBranch at h
  split at h
  · cases h
  · next hstage =>
      cases h
      exact hb.turn hconditional (by simp [hstage]) rfl
  · next hstage =>
      cases h
      exact hb.turn hconditional (by simp [hstage]) rfl

theorem Sound.openElse {b : ConstructBuilder} (hb : b.Sound)
    (hconditional : b.kind.isConditional = true) : b.openElse.Sound := by
  unfold ConstructBuilder.openElse
  split
  · exact hb
  · next hstage => exact hb.turn hconditional (by simp [hstage]) rfl
  · next hstage => exact hb.turn hconditional (by simp [hstage]) rfl

theorem require_eq_ok {b after : ConstructBuilder} {available : Bool} {call : String}
    {next : Except Error ConstructBuilder} :
    b.require available call next = .ok after ↔ available = true ∧ next = .ok after := by
  rw [require]
  split <;> simp_all

/-- Every call keeps the invariant. -/
theorem Sound.apply {b after : ConstructBuilder} {call : BuilderCall} (hb : b.Sound)
    (hgiven : ∀ inner, .construct inner ∈ call.clauses → inner.WellFormed)
    (h : b.apply call = .ok after) : after.Sound := by
  cases call with
  | thenDo given => exact hb.addClauses hgiven (require_eq_ok.1 h).2
  | repeatDo given => exact hb.addClauses hgiven (require_eq_ok.1 h).2
  | elseif test =>
      obtain ⟨hkind, h⟩ := require_eq_ok.1 h
      exact hb.openBranch (by simp_all [ConstructKind.isConditional]) h
  | elsewhen test =>
      obtain ⟨hkind, h⟩ := require_eq_ok.1 h
      exact hb.openBranch (by simp_all [ConstructKind.isConditional]) h
  | orelse given =>
      obtain ⟨hconditional, h⟩ := require_eq_ok.1 h
      exact (hb.openElse hconditional).addClauses hgiven h

theorem Sound.applyAll {b last : ConstructBuilder} {calls : List BuilderCall} (hb : b.Sound)
    (hgiven : ∀ call ∈ calls, ∀ inner, .construct inner ∈ call.clauses → inner.WellFormed)
    (h : b.applyAll calls = .ok last) : last.Sound := by
  induction calls generalizing b with
  | nil =>
      cases h
      exact hb
  | cons call rest ih =>
      rw [ConstructBuilder.applyAll] at h
      rw [List.forall_mem_cons] at hgiven
      split at h
      · cases h
      · next mid hmid => exact ih (hb.apply hgiven.1 hmid) hgiven.2 h

end ConstructBuilder

/-! ## Closing -/

theorem ConstructBuilder.close_eq_ok {b : ConstructBuilder} {c : Construct}
    (h : b.close = .ok c) :
    c = b.assemble ∧ (c.bodyKind = .expression → ∃ text, c.inline = .ok text) := by
  unfold close at h
  simp only at h
  split at h
  · obtain ⟨text, htext, rfl⟩ := map_eq_ok.1 h
    exact ⟨rfl, fun _ => ⟨text, htext⟩⟩
  · next hkind =>
      cases h
      exact ⟨rfl, fun hexpression => (hkind hexpression).elim⟩

theorem ConstructBuilder.clauses_assemble (b : ConstructBuilder) :
    b.assemble.clauses = b.clauses := by
  rw [Construct.clauses, assemble, clauses, openClauses]
  cases hstage : b.stage <;> simp [allBranches, hstage]

theorem ConstructBuilder.Sound.close {b : ConstructBuilder} {c : Construct} (hb : b.Sound)
    (h : b.close = .ok c) : c.WellFormed := by
  obtain ⟨rfl, hinline⟩ := close_eq_ok h
  refine .intro ⟨?_, hb.tested, hb.untested, ?_, ?_⟩ ?_ ?_
  · intro clause hmem
    rw [clauses_assemble] at hmem
    rw [assemble, hb.held clause hmem, Option.getD_some]
  · intro hloop
    obtain ⟨hbranches, hstage⟩ := hb.unbranched hloop
    simp [assemble, allBranches, hstage, hbranches]
  · intro hexpression
    obtain ⟨_, _, hbody, hbranches, hlast⟩ := Construct.inline_eq_ok.1 (hinline hexpression)
    refine ⟨hb.expression ?_, hbody, hbranches, hlast⟩
    -- a builder without clauses counts as one of equations
    change b.bodyKind.getD .equation = .expression at hexpression
    cases hkind : b.bodyKind with
    | none => rw [hkind] at hexpression; cases hexpression
    | some kind => rw [hkind, Option.getD_some] at hexpression; rw [hexpression]
  · rw [clauses_assemble]
    exact hb.plain
  · rw [clauses_assemble]
    exact hb.nested

/-- Every construct that a builder makes is well formed, and so is everything
inside it. -/
theorem Construct.Built.wellFormed {c : Construct} (h : c.Built) : c.WellFormed := by
  induction h with
  | close fresh _ filled closed ih => exact (fresh.sound.applyAll ih filled).close closed

end ModelSource

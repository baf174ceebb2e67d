import ModelSource.Proofs.Composition
import ModelSource.Proofs.Culprit
import ModelSource.Proofs.OpenPart

/-!
# What a built construct can be relied on for

A construct that came out of a builder is well formed at every depth
(`WellFormed.lean`) and the builder was never at a loss for its open part
(`OpenPart.lean`). This file draws the conclusions. An if-expression has its line.
Printing finds every test it asks for and every part of an if-expression, so the
only thing in a built construct that can lack a text is a value in an annotation:
that of an equation, of an algorithm step or of a connection somewhere inside.

Such a failure is followed inwards along the visits of a construct, which are the
visits of these annotations and no others, to the annotation that fails when it
is rendered alone.
-/

namespace ModelSource

/-- The annotations of a clause of the kinds that have them. -/
def Clause.annotations? : Clause → Option Modification
  | .equation e | .algorithm e => some e.annotations
  | .connection c => some c.annotations
  | .statement _ | .expression _ | .construct _ => none

/-- The clause is one of the construct's, or of a construct inside it. -/
inductive Construct.Holds : Construct → Clause → Prop
  | direct {c : Construct} {clause : Clause} (h : clause ∈ c.clauses) : Holds c clause
  | inside {c inner : Construct} {clause : Clause} (h : .construct inner ∈ c.clauses)
      (held : Holds inner clause) : Holds c clause

/-- The error is about the make-up of a construct: a test that is missing, or an
if-expression that lacks a part. -/
def Error.ofMakeUp : Error → Bool
  | .unsupported (.missingTest _) _ | .invalidArity .. => true
  | .violation (.notExpressionConstruct _) | .violation .incompleteIfExpression => true
  | _ => false

/-! ## Whose fault it is -/

/-- The error is the first among the visits of the clause's annotations. -/
def Clause.Blamed (clause : Clause) (e : Error) : Prop :=
  ∃ annotations path, clause.annotations? = some annotations ∧
    firstError (annotations.visits path) = some e

/-- A clause is to blame that the construct holds. -/
def Construct.Blamed (c : Construct) (e : Error) : Prop :=
  ∃ clause, c.Holds clause ∧ clause.Blamed e

/-- The clause is to blame, or a construct that it is. -/
def Clause.Leads (clause : Clause) (e : Error) : Prop :=
  clause.Blamed e ∨ ∃ inner, clause = .construct inner ∧ inner.Blamed e

theorem Construct.blamed_of_leads {c : Construct} {clause : Clause} {e : Error}
    (hmem : clause ∈ c.clauses) (h : clause.Leads e) : c.Blamed e := by
  rcases h with hblamed | ⟨inner, rfl, held, hheld, hblamed⟩
  · exact ⟨clause, .direct hmem, hblamed⟩
  · exact ⟨held, .inside hmem hheld, hblamed⟩

mutual

theorem Construct.blamed_of_visits (path : List String) (c : Construct) {e : Error}
    (h : firstError (c.visits path) = some e) : c.Blamed e := by
  match c with
  | ⟨kind, bodyKind, test, indices, body, branches, orelse⟩ =>
      rw [Construct.visits, firstError_append, firstError_append, Option.or_eq_some_iff,
        Option.or_eq_some_iff] at h
      have hparts : ∃ clause ∈ body ++ branches.flatMap Branch.body ++ orelse.getD [],
          clause.Leads e := by
        rcases h with (hbody | ⟨-, hbranches⟩) | ⟨-, hlast⟩
        · obtain ⟨clause, hmem, hleads⟩ := leads_of_clauseVisits path body hbody
          exact ⟨clause, by simp [hmem], hleads⟩
        · cases hword : kind.branchKeyword with
          | none => simp [hword] at hbranches
          | some word =>
              have hvisits : firstError (branchVisits path word 0 branches) = some e := by
                simpa [hword] using hbranches
              obtain ⟨clause, hmem, hleads⟩ := leads_of_branchVisits path word 0 branches hvisits
              exact ⟨clause, by simp only [List.mem_append, hmem, true_or, or_true], hleads⟩
        · obtain ⟨clause, hmem, hleads⟩ := leads_of_elseVisits path orelse hlast
          exact ⟨clause, by simp [hmem], hleads⟩
      obtain ⟨clause, hmem, hleads⟩ := hparts
      exact Construct.blamed_of_leads hmem hleads

theorem leads_of_elseVisits (path : List String) (orelse : Option (List Clause)) {e : Error}
    (h : firstError (elseVisits path orelse) = some e) :
    ∃ clause ∈ orelse.getD [], clause.Leads e := by
  match orelse with
  | none => cases h
  | some last => exact leads_of_clauseVisits (path ++ ["else"]) last h

theorem leads_of_branchVisits (path : List String) (word : String) (index : Nat)
    (branches : List Branch) {e : Error}
    (h : firstError (branchVisits path word index branches) = some e) :
    ∃ clause ∈ branches.flatMap Branch.body, clause.Leads e := by
  match branches with
  | [] => cases h
  | ⟨test, body⟩ :: rest =>
      rw [branchVisits, firstError_append, Option.or_eq_some_iff] at h
      rw [List.flatMap_cons]
      rcases h with hbody | ⟨-, hrest⟩
      · obtain ⟨clause, hmem, hleads⟩ := leads_of_clauseVisits _ body hbody
        exact ⟨clause, List.mem_append_left _ hmem, hleads⟩
      · obtain ⟨clause, hmem, hleads⟩ := leads_of_branchVisits path word (index + 1) rest hrest
        exact ⟨clause, List.mem_append_right _ hmem, hleads⟩

theorem leads_of_clauseVisits (path : List String) (body : List Clause) {e : Error}
    (h : firstError (clauseVisits path body) = some e) : ∃ clause ∈ body, clause.Leads e := by
  match body with
  | [] => cases h
  | clause :: rest =>
      rw [clauseVisits, firstError_append, Option.or_eq_some_iff] at h
      rcases h with hclause | ⟨-, hrest⟩
      · exact ⟨clause, List.mem_cons_self, Clause.leads_of_visits path clause hclause⟩
      · obtain ⟨other, hmem, hleads⟩ := leads_of_clauseVisits path rest hrest
        exact ⟨other, List.mem_cons_of_mem _ hmem, hleads⟩

theorem Clause.leads_of_visits (path : List String) (clause : Clause) {e : Error}
    (h : firstError (clause.visits path) = some e) : clause.Leads e := by
  match clause with
  | .equation equation => exact .inl ⟨equation.annotations, _, rfl, h⟩
  | .algorithm step => exact .inl ⟨step.annotations, _, rfl, h⟩
  | .connection connection => exact .inl ⟨connection.annotations, _, rfl, h⟩
  | .statement _ | .expression _ => cases h
  | .construct inner =>
      rw [Clause.visits] at h
      exact .inr ⟨inner, rfl, Construct.blamed_of_visits path inner h⟩

end

/-! ## What can go wrong -/

theorem Printout.error?_below (levels : Nat) (above : List String) (p : Printout) :
    (p.below levels above).error? = p.error?.map (Error.below above) := by
  obtain ⟨pieces, fault⟩ := p
  cases fault <;> rfl

theorem firstError_ofMakeUp {visits : List Visit} {e : Error} (h : firstError visits = some e) :
    e.ofMakeUp = false := by
  obtain ⟨v, -, hv⟩ := List.exists_of_findSome?_eq_some h
  cases Visit.error?_eq_some.1 hv <;> rfl

/-- Annotations that are to blame inside something are so when they stand alone. -/
theorem Clause.Blamed.alone {clause : Clause} {e : Error} (h : clause.Blamed e)
    (options : RenderOptions) :
    ∃ annotations above cause, clause.annotations? = some annotations ∧
      render options (.modification annotations) = .error cause ∧ e = cause.below above := by
  obtain ⟨annotations, path, hannotations, hfirst⟩ := h
  rw [← Printer.error?_modification 0] at hfirst
  have hbelow := Printer.modification_below 0 path 0 [] annotations
  rw [List.append_nil] at hbelow
  rw [hbelow, Printout.error?_below, Option.map_eq_some_iff] at hfirst
  obtain ⟨cause, hcause, rfl⟩ := hfirst
  exact ⟨annotations, path, cause, hannotations, render_eq_error.2 hcause, rfl⟩

theorem Construct.WellFormed.error?_eq {c : Construct} (h : c.WellFormed) {depth : Nat}
    {path : List String} {e : Error} (he : (Printer.construct depth path c).error? = some e) :
    firstError (c.visits path) = some e := by
  by_cases hkind : c.bodyKind = .expression
  · -- an if-expression is one line, and that is there
    obtain ⟨text, htext⟩ := h.inline_eq_ok hkind
    rw [Printer.construct_eq, if_pos hkind, htext] at he
    cases he
  · rw [← Printer.error?_construct depth path c hkind h]
    exact he

/-- Whatever the calls on a fresh builder, the marked builder never gives up on
them; and if the construct is closed in the end, it is well formed at every depth,
it has its line if it is an if-expression, and where it fails to render, the error
is that of annotations inside it, rendered alone, and is not about its make-up. -/
theorem ConstructBuilder.closed_construct_sound {start : ConstructBuilder}
    {calls : List BuilderCall} (fresh : start.Fresh)
    (nested : ∀ call ∈ calls, ∀ inner, .construct inner ∈ call.clauses → inner.Built) :
    start.marked.applyAll calls = some ((start.applyAll calls).map ConstructBuilder.marked) ∧
    ∀ last c, start.applyAll calls = .ok last → last.close = .ok c →
      c.WellFormed ∧
      (c.bodyKind = .expression → ∃ text, c.inline = .ok text) ∧
      ∀ (options : RenderOptions) (node : Node) (e : Error),
        node = .element (.construct c) ∨ node = .clause (.construct c) →
        render options node = .error e →
          e.ofMakeUp = false ∧
          ∃ clause annotations above cause, c.Holds clause ∧
            clause.annotations? = some annotations ∧
            render options (.modification annotations) = .error cause ∧
            e = cause.below above := by
  refine ⟨marked_applyAll start calls, fun last c hfilled hclosed => ?_⟩
  have hbuilt : c.Built := .close fresh nested hfilled hclosed
  have hwell := hbuilt.wellFormed
  refine ⟨hwell, hwell.inline_eq_ok, fun options node e hnode hrender => ?_⟩
  have hprinted : (Printer.construct 0 [] c).error? = some e := by
    rw [render_eq_error] at hrender
    rcases hnode with rfl | rfl
    · exact hrender
    · exact hrender
  have hfirst := hwell.error?_eq hprinted
  obtain ⟨clause, hholds, hblamed⟩ := Construct.blamed_of_visits [] c hfirst
  obtain ⟨annotations, above, cause, hannotations, hcause, hbelow⟩ := hblamed.alone options
  exact ⟨firstError_ofMakeUp hfirst, clause, annotations, above, cause, hholds, hannotations,
    hcause, hbelow⟩

/-- A loop inside a conditional, with an annotation in it that has no text. -/
theorem ConstructBuilder.closed_construct_sound_loop :
    let nan : Binary64 := ⟨0x7ff8000000000000⟩
    let loop : Construct :=
      ⟨.forLoop, .equation, none, [⟨"i", "1:n"⟩],
        [.equation { left := "y[i]", right := "0", annotations := ⟨[("a", .real nan)]⟩ }], [], none⟩
    let calls : List BuilderCall :=
      [.thenDo [.construct loop], .elseif "c", .thenDo [.connection { a := "p", b := "q" }],
        .orelse []]
    let c : Construct :=
      ⟨.ifThen, .equation, some "b", [], [.construct loop],
        [⟨"c", [.connection { a := "p", b := "q" }]⟩], some []⟩
    let e : Error := .unsupported (.nonFinite nan) ["annotation", "a"]
    (openIf "b").Fresh ∧ loop.Built ∧
      (∃ last, (openIf "b").applyAll calls = .ok last ∧ last.close = .ok c) ∧
      render {} (.element (.construct c)) = .error e ∧ c.WellFormed ∧ e.ofMakeUp = false := by
  intro nan loop calls c e
  have hloop : loop.Built := by
    have hfilled : (openFor [⟨"i", "1:n"⟩]).applyAll [.repeatDo loop.body] = .ok _ := rfl
    exact .close (.openFor _) (by simp [BuilderCall.clauses, loop]) hfilled rfl
  have hnested : ∀ call ∈ calls, ∀ inner, .construct inner ∈ call.clauses → inner.Built := by
    intro call hcall inner hinner
    simp only [calls, List.mem_cons, List.not_mem_nil, or_false] at hcall
    rcases hcall with rfl | rfl | rfl | rfl <;> simp [BuilderCall.clauses] at hinner
    rw [hinner]
    exact hloop
  have hrender : render {} (.element (.construct c)) = .error e := by
    rw [render_eq_error]
    decide +kernel
  obtain ⟨hwell, -, hfails⟩ := (closed_construct_sound (.openIf "b") hnested).2 _ c rfl rfl
  exact ⟨.openIf "b", hloop, ⟨_, rfl, rfl⟩, hrender, hwell, (hfails {} _ e (.inl rfl) hrender).1⟩

end ModelSource

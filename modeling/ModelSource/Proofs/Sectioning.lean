import ModelSource.Proofs.Built
import ModelSource.Proofs.Registry

/-!
# Everything stands in the section it belongs to

Of all operations only `add` asks whether an element may stand in a section, and
of a construct it asks no more than what its body holds. The other operations ask
nothing and put elements where they always fit. What follows is more than any of
them checks: the clauses of a construct belong to its section too, however deep
they stand and in whichever branch, and no expression stands in a section at all.

That the outermost kind is enough is the builder's doing. In a well-formed
construct every clause is of the kind that the construct holds, nested constructs
included, and so on inwards (`WellFormed.kind_of_holds`).
-/

namespace ModelSource

namespace Clause

/-- An equation, a connection or a construct of such. -/
def IsEquational : Clause → Prop
  | .equation _ | .connection _ => True
  | .construct c => c.bodyKind = .equation
  | .statement _ | .algorithm _ | .expression _ => False

/-- A statement, an algorithm step or a construct of such. -/
def IsAlgorithmic : Clause → Prop
  | .statement _ | .algorithm _ => True
  | .construct c => c.bodyKind = .statement
  | .equation _ | .connection _ | .expression _ => False

theorem isEquational_iff {clause : Clause} : clause.IsEquational ↔ clause.kind = .equation := by
  cases clause <;> simp [IsEquational, kind]

theorem isAlgorithmic_iff {clause : Clause} :
    clause.IsAlgorithmic ↔ clause.kind = .statement := by
  cases clause <;> simp [IsAlgorithmic, kind]

end Clause

namespace Element

/-- What the public and the protected section hold. -/
def IsDeclarative : Element → Prop
  | .declaration _ | .importClause _ | .extendsClause _ | .text _ => True
  | .equation _ | .connection _ | .algorithm _ | .construct _ => False

/-- What the equation sections hold. -/
def IsEquational : Element → Prop
  | .equation _ | .connection _ | .text _ => True
  | .construct c => c.bodyKind = .equation ∧ ∀ clause, c.Holds clause → clause.IsEquational
  | .declaration _ | .importClause _ | .extendsClause _ | .algorithm _ => False

/-- What the algorithm sections hold. -/
def IsAlgorithmic : Element → Prop
  | .algorithm _ | .text _ => True
  | .construct c => c.bodyKind = .statement ∧ ∀ clause, c.Holds clause → clause.IsAlgorithmic
  | .declaration _ | .importClause _ | .extendsClause _ | .equation _ | .connection _ => False

theorem Revised.allowedIn_eq {e e' : Element} (h : Revised e e') (target : Section) :
    e'.allowedIn target = e.allowedIn target := by
  cases h <;> rfl

end Element

/-- A well-formed construct is of one kind at every depth. -/
theorem Construct.WellFormed.kind_of_holds {c : Construct} (h : c.WellFormed) {clause : Clause}
    (hholds : c.Holds clause) : clause.kind = c.bodyKind := by
  induction hholds with
  | direct hmem => exact h.shaped.held _ hmem
  | inside hmem _ ih =>
      cases h with
      | intro shaped _ nested => exact (ih (nested _ hmem)).trans (shaped.held _ hmem)

/-! ## What an admitted element holds -/

theorem Section.isEquation_iff {target : Section} :
    target.isEquation = true ↔ target = .equation ∨ target = .initialEquation := by
  cases target <;> simp [Section.isEquation]

theorem Section.isAlgorithm_iff {target : Section} :
    target.isAlgorithm = true ↔ target = .algorithm ∨ target = .initialAlgorithm := by
  cases target <;> simp [Section.isAlgorithm]

namespace Element

/-- The element is of the kind that the section holds, down to its last clause. -/
def Fits (target : Section) (e : Element) : Prop :=
  match target with
  | .publicPart | .protectedPart => e.IsDeclarative
  | .equation | .initialEquation => e.IsEquational
  | .algorithm | .initialAlgorithm => e.IsAlgorithmic

theorem Made.fits {e : Element} {target : Section} (h : e.Made)
    (hallowed : e.allowedIn target = true) : e.Fits target := by
  cases e with
  | text => cases target <;> trivial
  | declaration | importClause | extendsClause =>
      rcases Section.isDeclarative_iff.1 hallowed with rfl | rfl <;> trivial
  | equation | connection =>
      rcases Section.isEquation_iff.1 hallowed with rfl | rfl <;> trivial
  | algorithm =>
      rcases Section.isAlgorithm_iff.1 hallowed with rfl | rfl <;> trivial
  | construct c =>
      have hkind : ∀ {clause}, c.Holds clause → clause.kind = c.bodyKind :=
        h.wellFormed.kind_of_holds
      rw [allowedIn] at hallowed
      split at hallowed
      · next hheld =>
          have hfits : (Element.construct c).IsEquational :=
            ⟨hheld, fun _ hholds => Clause.isEquational_iff.2 ((hkind hholds).trans hheld)⟩
          rcases Section.isEquation_iff.1 hallowed with rfl | rfl <;> exact hfits
      · next hheld =>
          have hfits : (Element.construct c).IsAlgorithmic :=
            ⟨hheld, fun _ hholds => Clause.isAlgorithmic_iff.2 ((hkind hholds).trans hheld)⟩
          rcases Section.isAlgorithm_iff.1 hallowed with rfl | rfl <;> exact hfits
      · cases hallowed

end Element

namespace Document

/-- Every element of a run was made, and it stands where it may stand. -/
theorem run_allowed (ident : String) (ops : List Operation) :
    ∀ target, ∀ e ∈ (run { ident } ops).elements target,
      e.Made ∧ e.allowedIn target = true :=
  run_elements (P := fun target e => e.Made ∧ e.allowedIn target = true)
    (fun hrev h => ⟨hrev.made h.1, (hrev.allowedIn_eq _).trans h.2⟩)
    (fun hmade hallowed => ⟨hmade, hallowed⟩) ident ops

/-- After any run of operations the declarative sections hold declarations, header
clauses and text, the equation sections equations, connections, text and constructs
of equations through and through, the algorithm sections steps, text and constructs
of statements through and through; and there is no expression in any section, as a
clause or as what a construct holds. -/
theorem run_sectioned (ident : String) (ops : List Operation) :
    let d := run { ident } ops
    (∀ target, target = .publicPart ∨ target = .protectedPart →
      ∀ e ∈ d.elements target, e.IsDeclarative) ∧
    (∀ target, target = .equation ∨ target = .initialEquation →
      ∀ e ∈ d.elements target, e.IsEquational) ∧
    (∀ target, target = .algorithm ∨ target = .initialAlgorithm →
      ∀ e ∈ d.elements target, e.IsAlgorithmic) ∧
    ∀ target c, .construct c ∈ d.elements target →
      c.bodyKind ≠ .expression ∧ (∀ text, ¬ c.Holds (.expression text)) ∧
        ∀ inner, c.Holds (.construct inner) → inner.bodyKind ≠ .expression := by
  intro d
  have hallowed := run_allowed ident ops
  have hfits : ∀ target, ∀ e ∈ d.elements target, e.Fits target := fun target e he =>
    (hallowed target e he).1.fits (hallowed target e he).2
  refine ⟨?_, ?_, ?_, ?_⟩
  · rintro target (rfl | rfl) <;> exact hfits _
  · rintro target (rfl | rfl) <;> exact hfits _
  · rintro target (rfl | rfl) <;> exact hfits _
  · intro target c hc
    obtain ⟨hmade, hstands⟩ := hallowed target _ hc
    obtain ⟨hkind, hwell⟩ := hmade.writable hstands
    refine ⟨hkind, fun text hholds => ?_, fun inner hholds hinner => ?_⟩
    · exact hkind (hwell.kind_of_holds hholds).symm
    · exact hkind ((hwell.kind_of_holds hholds).symm.trans hinner)

end Document

end ModelSource

import ModelSource.Proofs.Relocation
import ModelSource.Proofs.Visits
import ModelSource.Proofs.WellFormed

/-!
# Rendering fails at the first value that has no text

Printing stops at the first thing it cannot print. This file shows that it stops
where `Visits.lean` says: the error of a printout is that of the first visit that
is refused, part by part, since both put the error of a first part before that of
a second.

No refusal is about constructs, though a construct can lack what its lines need,
and none is about a declaration that is bound to a map, though there is no text
for that. Neither can be in a document. A construct comes out of a builder, a
declaration out of options, and both see to it. So the statement is one about
documents that a run of operations has made.
-/

namespace ModelSource

namespace Printout

/-- What went wrong. -/
def error? (p : Printout) : Option Error :=
  p.fault.map Fault.error

@[simp] theorem error?_append (p q : Printout) : (p ++ q).error? = p.error?.or q.error? := by
  rw [error?, fault_append, error?, error?]
  cases p.fault <;> rfl

@[simp] theorem error?_empty : (∅ : Printout).error? = none :=
  rfl

@[simp] theorem error?_text (content : String) : (text content).error? = none :=
  rfl

@[simp] theorem error?_indentTo (depth : Nat) : (indentTo depth).error? = none :=
  rfl

@[simp] theorem error?_newline : newline.error? = none :=
  rfl

@[simp] theorem error?_line (depth : Nat) (content : String) : (line depth content).error? = none :=
  rfl

@[simp] theorem error?_fail (depth : Nat) (e : Error) : (fail depth e).error? = some e :=
  rfl

/-- The error for a text that is missing. -/
def missing (path : List String) (content : Except Obstacle α) : Option Error :=
  match content with
  | .ok _ => none
  | .error obstacle => some (.unsupported obstacle path)

@[simp] theorem missing_map (path : List String) (content : Except Obstacle α) (f : α → β) :
    missing path (content.map f) = missing path content := by
  cases content <;> rfl

/-- Where all goes well once there is a text, the text is what may be missing. -/
theorem error?_located {next : String → Printout} (h : ∀ content, (next content).error? = none)
    (depth : Nat) (path : List String) (content : Except Obstacle String) :
    (located depth path content next).error? = missing path content := by
  cases content with
  | ok content => exact h content
  | error obstacle => rfl

end Printout

namespace Printer

open Printout

@[simp] theorem error?_keywords (words : List String) : (keywords words).error? = none := by
  induction words with
  | nil => rfl
  | cons word rest ih => simp [keywords, ih]

@[simp] theorem error?_description (about : Option String) : (description about).error? = none := by
  cases about <;> rfl

theorem error?_separator (rest : List α) (mark : Printout) :
    (separator rest mark).error? = if rest.isEmpty then none else mark.error? := by
  rw [separator]
  split <;> rfl

/-! ## Texts of values -/

theorem missing_scalar (path : List String) (precision : Option Nat) (scalar : Scalar) :
    missing path (scalar.text? precision) = firstError (literalVisits path [scalar]) := by
  cases scalar with
  | bool _ | integer _ | text _ => rfl
  | real x => cases h : x.isFinite <;> simp [Scalar.text?, literalVisits, firstError_cons,
      Visit.error?, missing, h]

theorem literalVisits_cons (path : List String) (scalar : Scalar) (rest : List Scalar) :
    literalVisits path (scalar :: rest) = literalVisits path [scalar] ++ literalVisits path rest :=
  rfl

theorem missing_scalarTexts (path : List String) (scalars : List Scalar) :
    missing path (scalarTexts scalars) = firstError (literalVisits path scalars) := by
  induction scalars with
  | nil => rfl
  | cons scalar rest ih =>
      rw [literalVisits_cons, firstError_append, ← missing_scalar path none, scalarTexts]
      cases scalar.text? none with
      | error obstacle => rfl
      | ok text => exact (missing_map ..).trans ih

theorem missing_itemTexts (path : List String) (items : List Value) :
    missing path (itemTexts items) = firstError (items.flatMap (memberVisits path)) := by
  induction items with
  | nil => rfl
  | cons item rest ih =>
      rw [List.flatMap_cons, firstError_append]
      cases item with
      | tuple _ | map _ | assign _ | list _ => rfl
      | scalar scalar =>
          have hmember : firstError (memberVisits path (.scalar scalar)) =
              missing path (scalar.text? none) := (missing_scalar path none scalar).symm
          rw [hmember, itemTexts]
          cases scalar.text? none with
          | error obstacle => rfl
          | ok text => exact (missing_map ..).trans ih

theorem missing_rowText (path : List String) (item : Value) :
    missing path (rowText item) = firstError (rowVisits path item) := by
  cases item with
  | scalar _ | map _ | assign _ => rfl
  | list items => exact (missing_map ..).trans (missing_itemTexts path items)
  | tuple scalars => exact (missing_map ..).trans (missing_scalarTexts path scalars)

theorem missing_rowTexts (path : List String) (items : List Value) :
    missing path (rowTexts items) = firstError (items.flatMap (rowVisits path)) := by
  induction items with
  | nil => rfl
  | cons item rest ih =>
      rw [List.flatMap_cons, firstError_append, ← missing_rowText, rowTexts]
      cases rowText item with
      | error obstacle => rfl
      | ok text => exact (missing_map ..).trans ih

/-- A declaration bound to a map could not be written either, but there is none. -/
theorem missing_bindingText (path : List String) (value : Value)
    (h : ∀ entries, value ≠ .map entries) :
    missing path (bindingText value) = firstError (bindingVisits path value) := by
  cases value with
  | scalar scalar => exact missing_scalar path none scalar
  | tuple scalars => exact (missing_map ..).trans (missing_scalarTexts path scalars)
  | map entries => exact (h entries rfl).elim
  | list items => rfl
  | assign a =>
      cases hliteral : a.literal with
      | none => simp [bindingText, bindingVisits, hliteral, firstError_cons, Visit.error?, missing]
      | some scalar =>
          simp [bindingText, bindingVisits, hliteral, firstError_cons, Visit.error?,
            missing_scalar]

/-! ## Modifications -/

/-- An assignment is checked before anything of it is printed. -/
theorem error?_validate (depth : Nat) (path : List String) (a : Assign)
    (next : String → Printout) :
    (orFail depth (a.validate.map fun _ => "") next).error? =
      (Visit.error? ⟨path, .assignment a⟩).or (next "").error? := by
  simp only [Assign.validate, Visit.error?]
  cases a.typeName with
  | none => rfl
  | some typeName => cases h : a.flags.contains .redeclare <;> simp [orFail, Except.map]

/-- A list that does not start with a map is written on one line. -/
theorem missing_flat (path : List String) {items : List Value}
    {content : Except Obstacle String} (h : listLayout items = .flat content) :
    missing path content = firstError (Value.visits path (.list items)) := by
  match items with
  | [] | .assign a :: rest =>
      cases h
      rfl
  | .map entries :: rest => cases h
  | .scalar scalar :: rest =>
      cases h
      exact (missing_map ..).trans (missing_itemTexts path (.scalar scalar :: rest))
  | .tuple scalars :: rest =>
      cases h
      exact (missing_map ..).trans (missing_rowTexts path (.tuple scalars :: rest))
  | .list row :: rest =>
      cases h
      exact (missing_map ..).trans (missing_rowTexts path (.list row :: rest))

/-- In a list that starts with a map, all items are visited as records. -/
theorem visits_records (path : List String) {items : List Value}
    (h : listLayout items = .records) :
    firstError (Value.visits path (.list items)) = firstError (recordVisits path 0 items) := by
  match items with
  | [] | .assign _ :: _ | .scalar _ :: _ | .tuple _ :: _ | .list _ :: _ => cases h
  | .map entries :: rest => rfl

/-- Annotations that are left out have no entries to visit. -/
theorem error?_annotated {depth : Nat} {path : List String} {annotations : Modification}
    (h : (modification depth (path ++ ["annotation"]) annotations).error? =
      firstError (annotations.visits (path ++ ["annotation"]))) :
    (annotationPart depth path annotations).error? =
      firstError (annotationVisits path annotations) := by
  rw [annotationPart, annotationVisits]
  split
  · next hempty => rw [Modification.visits_of_isEmpty hempty]; rfl
  · rw [error?_append, error?_text, Option.none_or, h]

mutual

theorem error?_modification (depth : Nat) (path : List String) (m : Modification) :
    (modification depth path m).error? = firstError (m.visits path) := by
  match m with
  | ⟨entries⟩ =>
      rw [modification, Modification.visits]
      split
      · next hlength =>
          obtain rfl := List.length_eq_zero_iff.1 hlength
          rw [entryVisits]
          rfl
      · simp only [error?_append, error?_text, error?_inlineEntries, Option.none_or, Option.or_none]
      · simp only [error?_append, error?_text, error?_inlineEntries, Option.none_or, Option.or_none]
      · simp only [error?_append, error?_text, error?_newline, error?_lineEntries, Option.none_or,
          Option.or_none]

theorem error?_inlineEntries (depth : Nat) (path : List String)
    (entries : List (String × Value)) :
    (inlineEntries depth path entries).error? = firstError (entryVisits path entries) := by
  match entries with
  | [] => rfl
  | (key, value) :: rest =>
      rw [inlineEntries, entryVisits]
      simp only [error?_append, error?_separator, error?_text, ite_self, firstError_append,
        Option.or_none, error?_entry, error?_inlineEntries]

theorem error?_lineEntries (depth : Nat) (path : List String)
    (entries : List (String × Value)) :
    (lineEntries depth path entries).error? = firstError (entryVisits path entries) := by
  match entries with
  | [] => rfl
  | (key, value) :: rest =>
      rw [lineEntries, entryVisits]
      simp only [error?_append, error?_indentTo, error?_separator, error?_text, error?_newline,
        ite_self, firstError_append, Option.none_or, Option.or_none, error?_entry,
        error?_lineEntries]

theorem error?_entry (depth : Nat) (path : List String) (key : String) (value : Value) :
    (entry depth path key value).error? = firstError (value.visits path) := by
  match value with
  | .scalar scalar =>
      rw [entry, error?_located (fun _ => rfl), missing_scalar, Value.visits]
  | .tuple scalars =>
      rw [entry, error?_located (fun _ => rfl), missing_map, missing_scalarTexts, Value.visits]
  | .map entries =>
      rw [entry, error?_append, error?_text, Option.none_or, Value.visits]
      exact error?_modification depth path entries
  | .assign assignment =>
      rw [entry, Value.visits]
      exact error?_assign depth path key assignment
  | .list items =>
      rw [entry, error?_append, error?_text, Option.none_or]
      cases hlayout : listLayout items with
      | records =>
          rw [visits_records path hlayout]
          simp only [error?_append, error?_text, error?_newline, error?_indentTo, Option.none_or,
            Option.or_none, error?_records]
      | flat content =>
          rw [← missing_flat path hlayout]
          exact error?_located (fun _ => rfl) depth path content

theorem error?_assign (depth : Nat) (path : List String) (key : String) (a : Assign) :
    (assign depth path key a).error? = firstError (a.visits path) := by
  match a with
  | ⟨literal, modifications, flags, about, annotations, typeName, precision⟩ =>
      have hliteral : (Printout.optional (fun scalar =>
          located depth path (scalar.text? precision) fun content =>
            text (equalSign modifications) ++ text content) literal).error? =
          firstError (literalVisits path literal.toList) := by
        cases literal with
        | none => rfl
        | some scalar => exact (error?_located (fun _ => rfl) _ _ _).trans (missing_scalar ..)
      have hannotations := error?_annotated (error?_modification depth (path ++ ["annotation"])
        annotations)
      rw [annotationPart, annotationVisits] at hannotations
      rw [assign, error?_validate depth path, Assign.visits]
      simp only [error?_append, error?_keywords, error?_text, error?_description, hliteral,
        hannotations, Option.none_or, Option.or_none, List.cons_append, firstError_cons,
        firstError_append, error?_modification]

theorem error?_records (depth : Nat) (path : List String) (index : Nat) (items : List Value) :
    (records depth path index items).error? = firstError (recordVisits path index items) := by
  match items with
  | [] => rfl
  | .map ⟨[(name, value)]⟩ :: rest =>
      have hmap : Modification.visits (path ++ [itemSegment index]) ⟨[(name, value)]⟩ =
          value.visits (path ++ [itemSegment index, name]) := by
        simp [Modification.visits, entryVisits]
      have hsize : Visit.error? ⟨path, .record (.map ⟨[(name, value)]⟩)⟩ = none := rfl
      rw [records, recordVisits, firstError_append, firstError_cons, hmap, hsize]
      simp only [error?_append, error?_indentTo, error?_separator, error?_text, error?_newline,
        ite_self, Option.none_or, Option.or_none, error?_entry, error?_records]
  | .map ⟨[]⟩ :: rest => rfl
  | .map ⟨first :: second :: more⟩ :: rest => rfl
  | .scalar _ :: _ | .tuple _ :: _ | .assign _ :: _ | .list _ :: _ => rfl

end

/-! ## Elements -/

theorem error?_annotationPart (depth : Nat) (path : List String) (annotations : Modification) :
    (annotationPart depth path annotations).error? =
      firstError (annotationVisits path annotations) :=
  error?_annotated (error?_modification depth (path ++ ["annotation"]) annotations)

@[simp] theorem error?_closing (depth : Nat) (path : List String) (about : Option String)
    (annotations : Modification) :
    (closing depth path about annotations).error? =
      firstError (annotationVisits path annotations) := by
  simp [closing, error?_annotationPart]

theorem error?_rawLines (depth : Nat) (indented : Bool) (lines : List String) :
    (rawLines depth indented lines).error? = none := by
  induction lines with
  | nil => rfl
  | cons content rest ih => cases indented <;> simp [rawLines, ih]

theorem error?_declaration (depth : Nat) (path : List String) (d : Declaration)
    (h : ∀ entries, d.value ≠ some (.map entries)) :
    (declaration depth path d).error? = firstError (d.visits path) := by
  have hvalue : (Printout.optional (fun value =>
      located depth (path ++ ["value"]) (bindingText value) fun content =>
        text (equalSign d.modifications) ++ text content) d.value).error? =
      firstError (d.value.toList.flatMap (bindingVisits (path ++ ["value"]))) := by
    cases hvalue : d.value with
    | none => rfl
    | some value =>
        have hmap : ∀ entries, value ≠ .map entries := fun entries heq =>
          h entries (hvalue.trans (congrArg some heq))
        rw [optional_some, error?_located (fun _ => rfl), missing_bindingText _ value hmap]
        simp
  have hcondition : (Printout.optional (fun condition => text (" if " ++ condition))
      d.condition).error? = none := by
    cases d.condition <;> rfl
  simp only [declaration, Declaration.visits, error?_append, error?_indentTo, error?_keywords,
    error?_text, error?_modification, error?_closing, hvalue, hcondition, firstError_append,
    Option.none_or, Option.or_none]

/-- The line that opens a construct is there if the construct is well formed. -/
theorem error?_opening (depth : Nat) (path : List String) {c : Construct} (h : c.Shaped) :
    (located depth path (opening c.kind c.test c.indices) text).error? = none := by
  by_cases hfor : c.kind = .forLoop
  · rw [hfor]
    rfl
  · obtain ⟨test, htest⟩ := Option.isSome_iff_exists.1 (h.tested hfor).1
    rw [htest]
    cases hkind : c.kind with
    | forLoop => exact (hfor hkind).elim
    | ifThen | when | whileLoop => rfl

/-- The constructs among the clauses stand on lines of their own and are well
formed. -/
def Settled (body : List Clause) : Prop :=
  ∀ inner, .construct inner ∈ body → inner.bodyKind ≠ .expression ∧ inner.WellFormed

theorem settled_append {first second : List Clause} :
    Settled (first ++ second) ↔ Settled first ∧ Settled second := by
  refine ⟨fun h => ⟨fun inner hmem => ?_, fun inner hmem => ?_⟩, fun h inner hmem => ?_⟩
  · exact h inner (List.mem_append_left _ hmem)
  · exact h inner (List.mem_append_right _ hmem)
  · exact (List.mem_append.1 hmem).elim (h.1 inner) (h.2 inner)

theorem settled_cons {c : Clause} {rest : List Clause} :
    Settled (c :: rest) ↔ Settled [c] ∧ Settled rest :=
  @settled_append [c] rest

theorem settled_clauses {c : Construct} (h : c.WellFormed) : Settled c.clauses := by
  cases h with
  | intro _ plain nested => exact fun inner hmem => ⟨plain inner hmem, nested inner hmem⟩

mutual

theorem error?_construct (depth : Nat) (path : List String) (c : Construct)
    (hkind : c.bodyKind ≠ .expression) (h : c.WellFormed) :
    (construct depth path c).error? = firstError (c.visits path) := by
  match c with
  | ⟨kind, bodyKind, test, indices, body, branches, orelse⟩ =>
      have hclauses := settled_clauses h
      rw [Construct.clauses, settled_append, settled_append] at hclauses
      obtain ⟨⟨hbody, hbranches⟩, hlast⟩ := hclauses
      have hfurther : (branchPart depth path kind branches).error? =
          firstError (kind.branchKeyword.toList.flatMap fun word =>
            branchVisits path word 0 branches) := by
        rw [branchPart]
        cases kind.branchKeyword with
        | none => rfl
        | some word =>
            rw [optional_some, error?_constructBranches depth path word 0 branches hbranches]
            simp
      rw [construct_eq, if_neg hkind, Construct.visits]
      simp only [error?_append, error?_indentTo, error?_opening depth path h.shaped,
        error?_newline, error?_line, error?_clauses _ _ body hbody, hfurther,
        error?_elsePart _ _ orelse hlast, firstError_append, Option.none_or, Option.or_none]

theorem error?_elsePart (depth : Nat) (path : List String) (orelse : Option (List Clause))
    (h : Settled (orelse.getD [])) :
    (elsePart depth path orelse).error? = firstError (elseVisits path orelse) := by
  match orelse with
  | none => rfl
  | some last =>
      rw [elsePart, optional_some, error?_append, error?_line, Option.none_or]
      exact error?_clauses (depth + 1) (path ++ ["else"]) last h

theorem error?_constructBranches (depth : Nat) (path : List String) (word : String) (index : Nat)
    (branches : List Branch) (h : Settled (branches.flatMap Branch.body)) :
    (constructBranches depth path word index branches).error? =
      firstError (branchVisits path word index branches) := by
  match branches with
  | [] => rfl
  | ⟨test, body⟩ :: rest =>
      rw [List.flatMap_cons, settled_append] at h
      rw [constructBranches, branchVisits, error?_append, error?_append, error?_line,
        Option.none_or, firstError_append, error?_clauses _ _ body h.1,
        error?_constructBranches _ _ _ _ rest h.2]

theorem error?_clauses (depth : Nat) (path : List String) (body : List Clause)
    (h : Settled body) :
    (clauses depth path body).error? = firstError (clauseVisits path body) := by
  match body with
  | [] => rfl
  | c :: rest =>
      rw [settled_cons] at h
      rw [clauses, clauseVisits, error?_append, firstError_append, error?_clause _ _ c h.1,
        error?_clauses _ _ rest h.2]

theorem error?_clause (depth : Nat) (path : List String) (c : Clause) (h : Settled [c]) :
    (clause depth path c).error? = firstError (c.visits path) := by
  match c with
  | .equation e => simp [clause, equation, Clause.visits]
  | .algorithm step => simp [clause, algorithm, Clause.visits]
  | .connection c => simp [clause, connection, Clause.visits]
  | .statement _ | .expression _ => rfl
  | .construct c =>
      obtain ⟨hkind, hc⟩ := h c (List.mem_singleton.2 rfl)
      exact error?_construct depth path c hkind hc

end

end Printer

/-! ## Documents -/

/-- Nothing but a refused visit can keep the element from being written: it is no
declaration bound to a map and no construct that lacks a part. -/
def Element.Writable : Element → Prop
  | .declaration d => ∀ entries, d.value ≠ some (.map entries)
  | .construct c => c.bodyKind ≠ .expression ∧ c.WellFormed
  | _ => True

theorem Declaration.Made.value_ne_map {d : Declaration} (h : d.Made) (entries : Modification) :
    d.value ≠ some (.map entries) := by
  obtain ⟨typeName, ident, options, made, hmade, hd⟩ := h
  have hvalue : d.value = made.value := by rw [hd]
  rw [hvalue]
  unfold ofOptions at hmade
  split at hmade
  · cases hmade
  · next value modifications hsplit =>
      obtain ⟨annotations, _, rfl⟩ := map_eq_ok.1 hmade
      unfold DeclarationOptions.split at hsplit
      split at hsplit
      · -- a map given as the value has become the modifications
        split at hsplit <;> cases hsplit
        exact nofun
      · next hother =>
          cases hsplit
          exact hother entries

theorem Element.Made.writable {e : Element} {target : Section} (h : e.Made)
    (hallowed : e.allowedIn target = true) : e.Writable := by
  cases e with
  | declaration d => exact h.value_ne_map
  | construct c =>
      refine ⟨fun hkind => ?_, h.wellFormed⟩
      simp [allowedIn, hkind] at hallowed
  | equation | connection | algorithm | importClause | extendsClause | text => trivial

theorem Element.Revised.writable {e e' : Element} (h : Revised e e') (he : e.Writable) :
    e'.Writable := by
  cases h with
  | same => exact he
  | attributes => exact he
  | connection => trivial

theorem Document.run_writable (ident : String) (ops : List Operation) :
    ∀ target, ∀ e ∈ (run { ident } ops).elements target, e.Writable :=
  run_elements (P := fun _ e => e.Writable) Element.Revised.writable Element.Made.writable ident ops

namespace Printer

open Printout

theorem error?_element (depth : Nat) (path : List String) {e : Element} (h : e.Writable) :
    (element depth path e).error? = firstError (e.visits path) := by
  cases e with
  | declaration d => exact error?_declaration depth path d h
  | equation e => simp [element, equation, Element.visits]
  | connection c => simp [element, connection, Element.visits]
  | algorithm step => simp [element, algorithm, Element.visits]
  | importClause i => rfl
  | extendsClause e => simp [element, extendsClause, Element.visits, error?_modification]
  | text t => exact error?_rawLines depth t.indented t.lines
  | construct c => exact error?_construct depth path c h.1 h.2

theorem error?_elements (depth : Nat) (path : List String) (index : Nat) (es : List Element)
    (h : ∀ e ∈ es, e.Writable) :
    (elements depth path index es).error? =
      firstError ((es.zipIdx index).flatMap fun (e, index) =>
        e.visits (path ++ [elementSegment index e])) := by
  induction es generalizing index with
  | nil => rfl
  | cons e rest ih =>
      rw [List.forall_mem_cons] at h
      rw [elements, error?_append, error?_element depth _ h.1, ih (index + 1) h.2,
        List.zipIdx_cons, List.flatMap_cons, firstError_append]

theorem error?_sectionPart (d : Document) (target : Section)
    (h : ∀ e ∈ d.elements target, e.Writable) :
    (sectionPart 0 [d.ident] d.sections target).error? = firstError (d.sectionVisits target) := by
  have helements := error?_elements 1 [d.ident, target.keyword] 0 (d.elements target) h
  rw [sectionPart]
  split
  · exact helements
  · split
    · next hempty =>
        have hnone : d.elements target = [] := List.isEmpty_iff.1 hempty
        simp [Document.sectionVisits, hnone]
    · rw [error?_append, error?_line, Option.none_or]
      exact helements

theorem error?_sectionParts (d : Document) (targets : List Section)
    (h : ∀ target, ∀ e ∈ d.elements target, e.Writable) :
    (sectionParts 0 [d.ident] d.sections targets).error? =
      firstError (targets.flatMap d.sectionVisits) := by
  induction targets with
  | nil => rfl
  | cons target rest ih =>
      rw [sectionParts, error?_append, error?_sectionPart d target (h target), ih,
        List.flatMap_cons, firstError_append]

/-- Printing a document fails with the error of its first refused visit. -/
theorem error?_document (d : Document) (h : ∀ target, ∀ e ∈ d.elements target, e.Writable) :
    (document 0 [] d).error? = firstError d.visits := by
  have hwithin : (Printout.optional (withinLine 0) d.within).error? = none := by
    cases d.within <;> rfl
  have hannotations : (if d.annotations.isEmpty then ∅ else
      text "annotation " ++ modification (0 + 1) ([d.ident] ++ ["annotation"]) d.annotations
        ++ text ";" ++ newline).error? =
      firstError (d.annotations.visits [d.ident, "annotation"]) := by
    split
    · next hempty => rw [Modification.visits_of_isEmpty hempty]; rfl
    · simp [error?_modification]
  simp only [document, List.nil_append, error?_append, hwithin, error?_indentTo, error?_keywords,
    error?_text, error?_description, error?_newline, error?_sectionParts d Section.all h,
    hannotations, error?_line, Option.none_or, Option.or_none, Document.visits, firstError_append]

end Printer

theorem render_eq_error {options : RenderOptions} {node : Node} {e : Error} :
    render options node = .error e ↔ node.printout.error? = some e := by
  rw [render_eq, Printout.error?]
  cases node.printout.fault <;> simp

/-- Of the documents that a run makes, those and only those fail to render that
have a visit which is refused, and they fail with the error of the first one. -/
theorem render_error_iff_first_refused (ident : String) (ops : List Operation)
    (options : RenderOptions) :
    let d := Document.run { ident } ops
    ((∃ e, render options (.document d) = .error e) ↔ ∃ v ∈ d.visits, ∃ e, v.Refused e) ∧
      ∀ e, render options (.document d) = .error e ↔
        ∃ before v after, d.visits = before ++ v :: after ∧ v.Refused e ∧
          ∀ w ∈ before, ∀ e', ¬ w.Refused e' := by
  intro d
  have hrender : ∀ e, render options (.document d) = .error e ↔ firstError d.visits = some e := by
    intro e
    rw [render_eq_error, ← Printer.error?_document d (Document.run_writable ident ops)]
    rfl
  have hnone : ∀ w : Visit, w.error? = none ↔ ∀ e', ¬ w.Refused e' := by
    intro w
    simp only [← Visit.error?_eq_some, Option.eq_none_iff_forall_ne_some]
  refine ⟨?_, fun e => ?_⟩
  · simp only [hrender, ← Option.isSome_iff_exists, firstError, List.findSome?_isSome_iff]
    simp only [Option.isSome_iff_exists, Visit.error?_eq_some]
  · rw [hrender, firstError, List.findSome?_eq_some_iff]
    simp only [hnone, Visit.error?_eq_some]

end ModelSource

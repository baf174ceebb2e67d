import ModelSource.Proofs.FlagSets
import ModelSource.Proofs.Relocation

/-!
# The order of flags does not show

Sets of flags stand in documents, in declarations and in assignments, and each of the three is
printed by a line of its own that walks some list of flags and leaves out those that are not in
the set. This file shows that a node may be replaced by its canonical form before it is printed.
Every printing function, and everything it asks of a node on the way, is the same for both, so
two nodes that differ in the order of flags only, at any depth, have one text or fail with one
error.

Together with what is known of the sets alone (`Unordered`), nothing is left by which the order
of insertions, or their repetition, could be observed.
-/

namespace ModelSource

/-! ## What is asked of a node -/

namespace FlagSet

variable {F : Type} [DecidableEq F] [FlagKind F] [FlagKind.Complete F]

@[simp] theorem contains_canonical (set : FlagSet F) : set.canonical.contains = set.contains := by
  funext f
  rw [Bool.eq_iff_iff, ← mem_toList set]
  exact decide_eq_true_iff

@[simp] theorem among_canonical (set : FlagSet F) (order : List F) :
    set.canonical.among order = set.among order := by
  rw [among, among, contains_canonical]

@[simp] theorem keywords_canonical (set : FlagSet F) : set.canonical.keywords = set.keywords := by
  rw [keywords, keywords, toList, toList, among_canonical]

end FlagSet

@[simp] theorem length_canonicalEntries (entries : List (String × Value)) :
    (canonicalEntries entries).length = entries.length := by
  induction entries with
  | nil => rw [canonicalEntries]
  | cons head rest ih => rw [canonicalEntries, List.length_cons, List.length_cons, ih]

@[simp] theorem isEmpty_canonicalEntries (entries : List (String × Value)) :
    (canonicalEntries entries).isEmpty = entries.isEmpty := by
  cases entries with
  | nil => rw [canonicalEntries]
  | cons head rest => rw [canonicalEntries, List.isEmpty_cons, List.isEmpty_cons]

@[simp] theorem isEmpty_canonicalItems (items : List Value) :
    (canonicalItems items).isEmpty = items.isEmpty := by
  cases items with
  | nil => rw [canonicalItems]
  | cons item rest => rw [canonicalItems, List.isEmpty_cons, List.isEmpty_cons]

@[simp] theorem Modification.isEmpty_canonical (m : Modification) :
    m.canonical.isEmpty = m.isEmpty := by
  obtain ⟨entries⟩ := m
  rw [canonical]
  exact isEmpty_canonicalEntries entries

@[simp] theorem Assign.validate_canonical (a : Assign) : a.canonical.validate = a.validate := by
  obtain ⟨literal, modifications, flags, description, annotations, typeName, precision⟩ := a
  simp only [Assign.canonical, Assign.validate, FlagSet.contains_canonical]

namespace Printer

open Printout

theorem itemTexts_canonical (items : List Value) :
    itemTexts (canonicalItems items) = itemTexts items := by
  induction items with
  | nil => rw [canonicalItems]
  | cons item rest ih =>
      rw [canonicalItems]
      cases item with
      | scalar => simp only [Value.canonical, itemTexts, ih]
      | tuple | map | assign | list => simp only [Value.canonical, itemTexts, Value.shape]

theorem rowText_canonical (item : Value) : rowText item.canonical = rowText item := by
  cases item with
  | list items => simp only [Value.canonical, rowText, itemTexts_canonical]
  | scalar | tuple | map | assign => simp only [Value.canonical, rowText, Value.shape]

theorem rowTexts_canonical (items : List Value) :
    rowTexts (canonicalItems items) = rowTexts items := by
  induction items with
  | nil => rw [canonicalItems]
  | cons item rest ih => rw [canonicalItems, rowTexts, rowTexts, rowText_canonical, ih]

theorem listLayout_canonical (items : List Value) :
    listLayout (canonicalItems items) = listLayout items := by
  have hrows := rowTexts_canonical items
  have hitems := itemTexts_canonical items
  rw [listLayout, listLayout, hrows, hitems]
  cases items with
  | nil => rw [canonicalItems]
  | cons item rest =>
      rw [canonicalItems]
      cases item <;> simp only [Value.canonical, List.head?_cons]

theorem bindingText_canonical (v : Value) : bindingText v.canonical = bindingText v := by
  cases v with
  | assign a =>
      obtain ⟨literal, modifications, flags, description, annotations, typeName, precision⟩ := a
      simp only [Value.canonical, Assign.canonical, bindingText]
  | scalar | tuple | map | list => simp only [Value.canonical, bindingText, Value.shape]

theorem equalSign_canonical (m : Modification) : equalSign m.canonical = equalSign m := by
  rw [equalSign, equalSign, Modification.isEmpty_canonical]

/-! ## Values -/

mutual

theorem modification_canonical (depth : Nat) (path : List String) (m : Modification) :
    modification depth path m.canonical = modification depth path m := by
  match m with
  | ⟨entries⟩ =>
      rw [Modification.canonical, modification, modification, length_canonicalEntries,
        inlineEntries_canonical, lineEntries_canonical]

theorem inlineEntries_canonical (depth : Nat) (path : List String)
    (entries : List (String × Value)) :
    inlineEntries depth path (canonicalEntries entries) = inlineEntries depth path entries := by
  match entries with
  | [] => rw [canonicalEntries]
  | (key, value) :: rest =>
      rw [canonicalEntries, inlineEntries, inlineEntries, entry_canonical,
        inlineEntries_canonical, separator, separator, isEmpty_canonicalEntries]

theorem lineEntries_canonical (depth : Nat) (path : List String)
    (entries : List (String × Value)) :
    lineEntries depth path (canonicalEntries entries) = lineEntries depth path entries := by
  match entries with
  | [] => rw [canonicalEntries]
  | (key, value) :: rest =>
      rw [canonicalEntries, lineEntries, lineEntries, entry_canonical, lineEntries_canonical,
        separator, separator, isEmpty_canonicalEntries]

theorem entry_canonical (depth : Nat) (path : List String) (key : String) (value : Value) :
    entry depth path key value.canonical = entry depth path key value := by
  match value with
  | .scalar _ | .tuple _ => rw [Value.canonical]
  | .map entries => rw [Value.canonical, entry, entry, modification_canonical]
  | .assign assignment => rw [Value.canonical, entry, entry, assign_canonical]
  | .list items =>
      rw [Value.canonical, entry, entry, listLayout_canonical]
      cases listLayout items with
      | records => simp only [records_canonical]
      | flat content => rfl

theorem assign_canonical (depth : Nat) (path : List String) (key : String) (a : Assign) :
    assign depth path key a.canonical = assign depth path key a := by
  match a with
  | ⟨literal, modifications, flags, about, annotations, typeName, precision⟩ =>
      have hvalid := Assign.validate_canonical
        ⟨literal, modifications, flags, about, annotations, typeName, precision⟩
      rw [Assign.canonical] at hvalid ⊢
      rw [assign, assign, hvalid]
      simp only [FlagSet.keywords_canonical, modification_canonical, equalSign_canonical,
        Modification.isEmpty_canonical]

theorem records_canonical (depth : Nat) (path : List String) (index : Nat) (items : List Value) :
    records depth path index (canonicalItems items) = records depth path index items := by
  match items with
  | [] => rw [canonicalItems]
  | .map ⟨[(name, value)]⟩ :: rest =>
      simp only [canonicalItems, Value.canonical, Modification.canonical, canonicalEntries,
        records, entry_canonical, records_canonical, separator, isEmpty_canonicalItems]
  | .map ⟨[]⟩ :: _ =>
      simp only [canonicalItems, Value.canonical, Modification.canonical, canonicalEntries, records]
  | .map ⟨_ :: _ :: _⟩ :: _ =>
      -- The error tells how many entries there are.
      simp only [canonicalItems, Value.canonical, Modification.canonical, canonicalEntries, records,
        Modification.size, List.length_cons, length_canonicalEntries]
  | .scalar _ :: _ | .tuple _ :: _ | .assign _ :: _ | .list _ :: _ =>
      simp only [canonicalItems, Value.canonical, records, Value.shape]

end

/-! ## Elements and clauses -/

theorem closing_canonical (depth : Nat) (path : List String) (about : Option String)
    (annotations : Modification) :
    closing depth path about annotations.canonical = closing depth path about annotations := by
  simp only [closing, annotationPart, Modification.isEmpty_canonical, modification_canonical]

theorem equation_canonical (depth : Nat) (path : List String) (e : Equation) :
    equation depth path e.canonical = equation depth path e := by
  simp only [equation, Equation.canonical, closing_canonical]

theorem algorithm_canonical (depth : Nat) (path : List String) (step : Equation) :
    algorithm depth path step.canonical = algorithm depth path step := by
  simp only [algorithm, Equation.canonical, closing_canonical]

theorem connection_canonical (depth : Nat) (path : List String) (c : Connection) :
    connection depth path c.canonical = connection depth path c := by
  simp only [connection, Connection.canonical, closing_canonical]

theorem extendsClause_canonical (depth : Nat) (path : List String) (e : Extends) :
    extendsClause depth path e.canonical = extendsClause depth path e := by
  simp only [extendsClause, Extends.canonical, modification_canonical]

/-- The flags of a declaration go by a list of their own, which leaves one of them out. -/
theorem declarationKeywords_canonical (d : Declaration) :
    declarationKeywords d.canonical = declarationKeywords d := by
  simp only [declarationKeywords, Declaration.canonical, FlagSet.among_canonical]

theorem declaration_canonical (depth : Nat) (path : List String) (d : Declaration) :
    declaration depth path d.canonical = declaration depth path d := by
  rw [declaration, declaration, declarationKeywords_canonical]
  cases hvalue : d.value with
  | none =>
      simp only [Declaration.canonical, hvalue, Option.map_none, modification_canonical,
        closing_canonical, optional_none]
  | some value =>
      simp only [Declaration.canonical, hvalue, Option.map_some, modification_canonical,
        closing_canonical, optional_some, bindingText_canonical, equalSign_canonical]

theorem length_canonicalClauses (body : List Clause) :
    (canonicalClauses body).length = body.length := by
  induction body with
  | nil => rw [canonicalClauses]
  | cons c rest ih => rw [canonicalClauses, List.length_cons, List.length_cons, ih]

theorem singleExpression_canonical (body : List Clause) :
    Construct.singleExpression (canonicalClauses body) = Construct.singleExpression body := by
  match body with
  | [] => rw [canonicalClauses]
  | [c] => cases c <;> simp only [canonicalClauses, Clause.canonical, Construct.singleExpression,
      List.length_singleton]
  | c :: next :: rest =>
      have hmany : ∀ (first second : Clause) (others : List Clause),
          Construct.singleExpression (first :: second :: others) =
            .error (.invalidArity "if-expression branch" "exactly one expression"
              (others.length + 2)) := fun first _ _ => by cases first <;> rfl
      rw [canonicalClauses, canonicalClauses, hmany, hmany, length_canonicalClauses]

theorem inlineBranches_canonical (branches : List Branch) :
    Construct.inlineBranches (canonicalBranches branches) = Construct.inlineBranches branches := by
  induction branches with
  | nil => rw [canonicalBranches]
  | cons branch rest ih =>
      obtain ⟨test, body⟩ := branch
      rw [canonicalBranches, Construct.inlineBranches, Construct.inlineBranches,
        singleExpression_canonical, ih]

theorem inline_canonical (c : Construct) : c.canonical.inline = c.inline := by
  obtain ⟨kind, bodyKind, test, indices, body, branches, orelse⟩ := c
  rw [Construct.canonical, Construct.inline, Construct.inline]
  cases test <;> cases orelse <;>
    simp only [canonicalElse, singleExpression_canonical, inlineBranches_canonical]

mutual

theorem construct_canonical (depth : Nat) (path : List String) (c : Construct) :
    construct depth path c.canonical = construct depth path c := by
  match c with
  | ⟨kind, bodyKind, test, indices, body, branches, orelse⟩ =>
      rw [construct_eq, construct_eq, inline_canonical]
      simp only [Construct.canonical, branchPart, clauses_canonical, constructBranches_canonical,
        elsePart_canonical]

theorem elsePart_canonical (depth : Nat) (path : List String) (orelse : Option (List Clause)) :
    elsePart depth path (canonicalElse orelse) = elsePart depth path orelse := by
  match orelse with
  | none => rw [canonicalElse]
  | some last =>
      rw [canonicalElse, elsePart, elsePart, optional_some, optional_some, clauses_canonical]

theorem constructBranches_canonical (depth : Nat) (path : List String) (word : String)
    (index : Nat) (branches : List Branch) :
    constructBranches depth path word index (canonicalBranches branches) =
      constructBranches depth path word index branches := by
  match branches with
  | [] => rw [canonicalBranches]
  | ⟨test, body⟩ :: rest =>
      rw [canonicalBranches, constructBranches, constructBranches, clauses_canonical,
        constructBranches_canonical]

theorem clauses_canonical (depth : Nat) (path : List String) (body : List Clause) :
    clauses depth path (canonicalClauses body) = clauses depth path body := by
  match body with
  | [] => rw [canonicalClauses]
  | c :: rest => rw [canonicalClauses, clauses, clauses, clause_canonical, clauses_canonical]

theorem clause_canonical (depth : Nat) (path : List String) (c : Clause) :
    clause depth path c.canonical = clause depth path c := by
  match c with
  | .equation e => rw [Clause.canonical, clause, clause, equation_canonical]
  | .connection c => rw [Clause.canonical, clause, clause, connection_canonical]
  | .algorithm step => rw [Clause.canonical, clause, clause, algorithm_canonical]
  | .statement _ | .expression _ => rw [Clause.canonical]
  | .construct c => rw [Clause.canonical, clause, clause, construct_canonical]

end

theorem element_canonical (depth : Nat) (path : List String) (e : Element) :
    element depth path e.canonical = element depth path e := by
  cases e with
  | declaration d => exact declaration_canonical depth path d
  | equation e => exact equation_canonical depth path e
  | connection c => exact connection_canonical depth path c
  | algorithm step => exact algorithm_canonical depth path step
  | importClause | text => rfl
  | extendsClause e => exact extendsClause_canonical depth path e
  | construct c => exact construct_canonical depth path c

end Printer

/-! ## Documents -/

/-- The sections with all flags inside them in canonical order. -/
def Sections.canonical (s : Sections) : Sections :=
  { publicPart := s.publicPart.map Element.canonical
    protectedPart := s.protectedPart.map Element.canonical
    initialEquation := s.initialEquation.map Element.canonical
    initialAlgorithm := s.initialAlgorithm.map Element.canonical
    equation := s.equation.map Element.canonical
    algorithm := s.algorithm.map Element.canonical }

@[simp] theorem Sections.get_canonical (s : Sections) (target : Section) :
    s.canonical.get target = (s.get target).map Element.canonical := by
  cases target <;> rfl

def Document.canonical (d : Document) : Document :=
  { d with
    flags := d.flags.canonical
    annotations := d.annotations.canonical
    sections := d.sections.canonical }

/-- The node with all flags inside it in canonical order. -/
def Node.canonical : Node → Node
  | .document d => .document d.canonical
  | .element e => .element e.canonical
  | .clause c => .clause c.canonical
  | .modification m => .modification m.canonical

namespace Printer

theorem elements_canonical (depth : Nat) (path : List String) (index : Nat)
    (list : List Element) :
    elements depth path index (list.map Element.canonical) = elements depth path index list := by
  induction list generalizing index with
  | nil => rfl
  | cons e rest ih =>
      have hsegment : elementSegment index e.canonical = elementSegment index e := by
        cases e <;> rfl
      rw [List.map_cons, elements, elements, hsegment, element_canonical, ih]

theorem sectionParts_canonical (depth : Nat) (path : List String) (s : Sections)
    (targets : List Section) :
    sectionParts depth path s.canonical targets = sectionParts depth path s targets := by
  induction targets with
  | nil => rfl
  | cons target rest ih =>
      simp only [sectionParts, sectionPart, Sections.get_canonical, elements_canonical,
        List.isEmpty_map, ih]

theorem document_canonical (depth : Nat) (path : List String) (d : Document) :
    document depth path d.canonical = document depth path d := by
  simp only [document, Document.canonical, FlagSet.keywords_canonical, sectionParts_canonical,
    Modification.isEmpty_canonical, modification_canonical]

end Printer

theorem Node.printout_canonical (node : Node) : node.canonical.printout = node.printout := by
  cases node with
  | document d => exact Printer.document_canonical 0 [] d
  | element e => exact Printer.element_canonical 0 [] e
  | clause c => exact Printer.clause_canonical 0 [] c
  | modification m => exact Printer.modification_canonical 0 [] m

theorem render_eq_of_canonical_eq {node other : Node} (h : node.canonical = other.canonical)
    (options : RenderOptions) : render options node = render options other := by
  have hprintout : node.printout = other.printout := by
    rw [← node.printout_canonical, ← other.printout_canonical, h]
  rw [render_eq, render_eq, hprintout]

example :
    render {} (.element (.declaration
        { typeName := "Real", ident := "x",
          flags := .ofList [.outer, .replaceable, .final, .outer] })) =
      .ok "final outer Real x;\n" := by decide +kernel

/-! ## Insertions do not show -/

namespace FlagSet

/-- Of the insertions into sets of one kind nothing can be told but which flags were in them. -/
structure Unordered (F : Type) [DecidableEq F] [FlagKind F] : Prop where
  parse_ok : ∀ text, (∃ set : FlagSet F, parse text = .ok set) ↔
    ∀ word ∈ Text.words text, FlagKind.IsKeyword F word
  /-- The error is about the first word that is no keyword. -/
  parse_error : ∀ text e, (parse text : Except Error (FlagSet F)) = .error e ↔
    ∃ before word after, Text.words text = before ++ word :: after ∧
      (∀ other ∈ before, FlagKind.IsKeyword F other) ∧ ¬ FlagKind.IsKeyword F word ∧
      e = .unknownFlag word (FlagKind.context F) ((FlagKind.all : List F).map FlagKind.keyword)
  contains_given : ∀ (given : List F) set, Gathers given set →
    ∀ f, set.contains f = true ↔ f ∈ given
  equal_iff : ∀ first second : FlagSet F,
    (first == second) = true ↔ ∀ f, first.contains f = second.contains f
  shown_equal : ∀ first second : FlagSet F, (first == second) = true →
    first.toList = second.toList ∧ first.isEmpty = second.isEmpty ∧ first.toTree = second.toTree
  canonical_order : ∀ set : FlagSet F, set.toList.Nodup ∧
    set.toList.Pairwise fun f g =>
      (FlagKind.all : List F).idxOf f < (FlagKind.all : List F).idxOf g
  parse_keywords : ∀ set : FlagSet F, ∃ result,
    parse (String.intercalate " " set.keywords) = .ok result ∧ (result == set) = true

theorem unordered (F : Type) [DecidableEq F] [FlagKind F] [FlagKind.Lawful F] : Unordered F where
  parse_ok := parse_eq_ok_iff
  parse_error := parse_eq_error_iff
  contains_given _ _ h := h.contains_iff
  equal_iff _ _ := beq_iff_contains_eq
  shown_equal first second h := by
    have hlist := beq_iff_toList_eq.1 h
    refine ⟨hlist, isEmpty_eq_of_beq h, ?_⟩
    rw [toTree, toTree, keywords, keywords, hlist]
  canonical_order set :=
    ⟨FlagKind.Lawful.nodup_all.sublist List.filter_sublist, pairwise_toList set⟩
  parse_keywords := FlagSet.parse_keywords

variable {F : Type} [DecidableEq F] [FlagKind F]

theorem canonical_eq_of_beq {first second : FlagSet F} (h : (first == second) = true) :
    first.canonical = second.canonical := by
  rw [canonical, canonical, beq_iff_toList_eq.1 h]

end FlagSet

theorem Document.gathers_addFlags {d : Document} {given : List DocumentFlag}
    (h : FlagSet.Gathers given d.flags) {text : String}
    (hwords : ∀ word ∈ Text.words text, FlagKind.IsKeyword DocumentFlag word) :
    ∃ d', Document.addFlags text d = (.ok (), d') ∧
      FlagSet.Gathers (given ++ FlagKind.flagsIn DocumentFlag text) d'.flags := by
  obtain ⟨more, hmore⟩ := (FlagSet.parse_eq_ok_iff text).2 hwords
  refine ⟨{ d with flags := d.flags.union more }, ?_, h.addWords hmore⟩
  rw [Document.addFlags, hmore]

theorem DeclarationOptions.gathers_addFlags {o : DeclarationOptions}
    {given : List DeclarationFlag} (h : FlagSet.Gathers given o.flags) {text : String}
    (hwords : ∀ word ∈ Text.words text, FlagKind.IsKeyword DeclarationFlag word) :
    ∃ o', o.addFlags text = .ok o' ∧
      FlagSet.Gathers (given ++ FlagKind.flagsIn DeclarationFlag text) o'.flags := by
  obtain ⟨more, hmore⟩ := (FlagSet.parse_eq_ok_iff text).2 hwords
  refine ⟨{ o with flags := o.flags.union more }, ?_, h.addWords hmore⟩
  rw [DeclarationOptions.addFlags, hmore]

theorem canonicalEntries_append (before after : List (String × Value)) :
    canonicalEntries (before ++ after) = canonicalEntries before ++ canonicalEntries after := by
  induction before with
  | nil => rw [canonicalEntries, List.nil_append, List.nil_append]
  | cons head rest ih =>
      rw [List.cons_append, canonicalEntries, canonicalEntries, ih, List.cons_append]

/-- The order in which flags were put into a set, and how often, does not show. This is so for
the sets of each kind by themselves, where documents and options take their flags from texts in
the same way as sets do; and nodes that carry equal sets have one text, be it that the node
itself carries them, or an assignment among its entries, or anything inside it. -/
theorem flag_order_unobservable (options : RenderOptions) :
    FlagSet.Unordered DocumentFlag ∧ FlagSet.Unordered DeclarationFlag ∧
      FlagSet.Unordered AssignFlag ∧
      (∀ (d : Document) given text, FlagSet.Gathers given d.flags →
        (∀ word ∈ Text.words text, FlagKind.IsKeyword DocumentFlag word) →
        ∃ d', Document.addFlags text d = (.ok (), d') ∧
          FlagSet.Gathers (given ++ FlagKind.flagsIn DocumentFlag text) d'.flags) ∧
      (∀ (o : DeclarationOptions) given text, FlagSet.Gathers given o.flags →
        (∀ word ∈ Text.words text, FlagKind.IsKeyword DeclarationFlag word) →
        ∃ o', o.addFlags text = .ok o' ∧
          FlagSet.Gathers (given ++ FlagKind.flagsIn DeclarationFlag text) o'.flags) ∧
      (∀ (d : Document) first second, (first == second) = true →
        render options (.document { d with flags := first }) =
          render options (.document { d with flags := second })) ∧
      (∀ (d : Declaration) first second, (first == second) = true →
        render options (.element (.declaration { d with flags := first })) =
          render options (.element (.declaration { d with flags := second }))) ∧
      (∀ (a : Assign) first second name before after, (first == second) = true →
        render options (.modification
            ⟨before ++ (name, .assign { a with flags := first }) :: after⟩) =
          render options (.modification
            ⟨before ++ (name, .assign { a with flags := second }) :: after⟩)) ∧
      ∀ node other : Node, node.canonical = other.canonical →
        render options node = render options other := by
  refine ⟨FlagSet.unordered _, FlagSet.unordered _, FlagSet.unordered _, ?_, ?_, ?_, ?_, ?_, ?_⟩
  · intro d given text h hwords
    exact Document.gathers_addFlags h hwords
  · intro o given text h hwords
    exact DeclarationOptions.gathers_addFlags h hwords
  · intro d first second h
    refine render_eq_of_canonical_eq ?_ options
    simp only [Node.canonical, Document.canonical, FlagSet.canonical_eq_of_beq h]
  · intro d first second h
    refine render_eq_of_canonical_eq ?_ options
    simp only [Node.canonical, Element.canonical, Declaration.canonical,
      FlagSet.canonical_eq_of_beq h]
  · intro a first second name before after h
    refine render_eq_of_canonical_eq ?_ options
    simp only [Node.canonical, Modification.canonical, canonicalEntries_append, canonicalEntries,
      Value.canonical, Assign.canonical, FlagSet.canonical_eq_of_beq h]
  · intro node other h
    exact render_eq_of_canonical_eq h options

end ModelSource

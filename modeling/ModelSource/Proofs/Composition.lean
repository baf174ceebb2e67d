import ModelSource.Proofs.Relocation

/-!
# The text of a whole is made of the texts of its parts

A document adds nothing to its elements but lines of its own between them: the
header, the words that open its sections, the end. What stands inside is what
each element renders to on its own, one level deeper, and a document has a text
exactly when all its elements have one. The same goes for a construct and its
clauses.

The texts on the right hand side are written out with `render` itself, for the
part alone. The work was done in `Relocation.lean`; here the parts are counted
off in the order in which they are printed.
-/

namespace ModelSource

/-- The same options for what stands one level deeper. -/
def RenderOptions.deeper (options : RenderOptions) : RenderOptions :=
  { options with startIndent := options.startIndent + 1 }

/-- A line at the outermost depth. -/
def RenderOptions.line (options : RenderOptions) (content : String) : String :=
  indentation options.indent.unit options.startIndent ++ content ++ "\n"

/-- The node has a text. -/
def Node.Renders (options : RenderOptions) (node : Node) : Prop :=
  ∃ text, render options node = .ok text

/-- The text of the node alone; nothing for one that has none. -/
def Node.alone (options : RenderOptions) (node : Node) : String :=
  match render options node with
  | .ok text => text
  | .error _ => ""

namespace Document

/-- The line that names the package. -/
def withinText (options : RenderOptions) (d : Document) : String :=
  match d.within with
  | none => ""
  | some ⟨none⟩ => options.line "within;"
  | some ⟨some name⟩ => options.line ("within " ++ name ++ ";")

/-- The flags in canonical order, the name and the description. -/
def header (d : Document) : String :=
  String.join (d.flags.toList.map fun flag => FlagKind.keyword flag ++ " ")
    ++ "model " ++ d.ident
    ++ match d.description with
      | none => ""
      | some about => " " ++ Text.quote about

/-- The words that open a section and the texts of its elements. The public
section opens without words, and of the others one without elements is left out. -/
def sectionText (options : RenderOptions) (d : Document) (target : Section) : String :=
  if target ≠ .publicPart ∧ d.elements target = [] then ""
  else
    (if target = .publicPart then "" else options.line target.keyword)
      ++ String.join ((d.elements target).map fun e => (Node.element e).alone options.deeper)

/-- The annotations, which start in the first column. -/
def annotationText (options : RenderOptions) (d : Document) : String :=
  if d.annotations.isEmpty then ""
  else "annotation " ++ (Node.modification d.annotations).alone options.deeper ++ ";\n"

/-- The text of a document, made of the texts of its parts. -/
def composed (options : RenderOptions) (d : Document) : String :=
  d.withinText options ++ options.line d.header
    ++ String.join (Section.all.map (d.sectionText options))
    ++ d.annotationText options ++ options.line ("end " ++ d.ident ++ ";")

end Document

namespace Construct

/-- The line that opens a construct. -/
def header (c : Construct) : String :=
  match c.kind with
  | .forLoop =>
    "for " ++ String.intercalate ", " (c.indices.map fun i => i.ident ++ " in " ++ i.range)
      ++ " loop"
  | .whileLoop => "while " ++ c.test.getD "" ++ " loop"
  | .ifThen => "if " ++ c.test.getD "" ++ " then"
  | .when => "when " ++ c.test.getD "" ++ " then"

/-- Every construct but a loop over indices has a test. -/
def Tested (c : Construct) : Prop :=
  c.kind = .forLoop ∨ c.test.isSome = true

/-- The branches that are printed; loops have none. -/
def printedBranches (c : Construct) : List Branch :=
  if c.kind.isConditional then c.branches else []

/-- The clauses of the body, of the branches and of the else. -/
def parts (c : Construct) : List Clause :=
  c.body ++ c.printedBranches.flatMap Branch.body ++ c.orelse.getD []

/-- The texts of clauses, one level deeper. -/
def clauseTexts (options : RenderOptions) (clauses : List Clause) : String :=
  String.join (clauses.map fun clause => (Node.clause clause).alone options.deeper)

/-- The word that opens a further branch. -/
def branchWord (c : Construct) : String :=
  match c.kind with
  | .when => "elsewhen"
  | _ => "elseif"

/-- A branch with the line that opens it. -/
def branchText (options : RenderOptions) (c : Construct) (branch : Branch) : String :=
  options.line (c.branchWord ++ " " ++ branch.test ++ " then") ++ clauseTexts options branch.body

/-- The else with its line. -/
def elseText (options : RenderOptions) (c : Construct) : String :=
  match c.orelse with
  | none => ""
  | some last => options.line "else" ++ clauseTexts options last

/-- The text of a construct, made of the texts of its clauses. -/
def composed (options : RenderOptions) (c : Construct) : String :=
  options.line c.header ++ clauseTexts options c.body
    ++ String.join (c.printedBranches.map (c.branchText options))
    ++ c.elseText options ++ options.line ("end " ++ c.kind.keyword ++ ";")

end Construct

/-! ## A part where it stands -/

namespace Node

theorem renders_iff {options : RenderOptions} {node : Node} :
    node.Renders options ↔ node.printout.Ok := by
  simp only [Renders, render_eq_ok, exists_and_left, exists_eq', and_true]

theorem alone_eq {options : RenderOptions} {node : Node} (h : node.Renders options) :
    node.alone options = node.printout.content options.indent.unit options.startIndent := by
  obtain ⟨text, htext⟩ := h
  rw [alone, htext, (render_eq_ok.1 htext).2]

/-- A node inside another one has a text if it has one alone. -/
theorem ok_inside {options : RenderOptions} {node : Node} {path : List String} :
    (node.printout.below 1 path).Ok ↔ node.Renders options.deeper := by
  rw [Printout.ok_below, renders_iff]

/-- And the text is the same. -/
theorem content_inside {options : RenderOptions} {node : Node} {path : List String}
    (h : node.Renders options.deeper) :
    (node.printout.below 1 path).content options.indent.unit options.startIndent =
      node.alone options.deeper := by
  rw [Printout.content_below, alone_eq h]
  rfl

end Node

namespace Printer

open Printout

variable (options : RenderOptions)

theorem element_inside (path : List String) (e : Element) :
    element 1 path e = (Node.element e).printout.below 1 path := by
  have h := element_below 1 path 0 [] e
  rwa [List.append_nil] at h

theorem clause_inside (path : List String) (c : Clause) :
    clause 1 path c = (Node.clause c).printout.below 1 path := by
  have h := clause_below 1 path 0 [] c
  rwa [List.append_nil] at h

theorem modification_inside (path : List String) (m : Modification) :
    modification 1 path m = (Node.modification m).printout.below 1 path := by
  have h := modification_below 1 path 0 [] m
  rwa [List.append_nil] at h

theorem ok_elements (path : List String) (index : Nat) (es : List Element) :
    (elements 1 path index es).Ok ↔ ∀ e ∈ es, (Node.element e).Renders options.deeper := by
  induction es generalizing index with
  | nil => simp [elements]
  | cons e rest ih =>
      rw [elements, ok_append, element_inside, Node.ok_inside, ih, List.forall_mem_cons]

theorem content_elements (path : List String) (index : Nat) (es : List Element)
    (h : ∀ e ∈ es, (Node.element e).Renders options.deeper) :
    (elements 1 path index es).content options.indent.unit options.startIndent =
      String.join (es.map fun e => (Node.element e).alone options.deeper) := by
  induction es generalizing index with
  | nil => simp [elements]
  | cons e rest ih =>
      rw [List.forall_mem_cons] at h
      rw [elements, element_inside, content_append _ _ (Node.ok_inside.2 h.1),
        Node.content_inside h.1, ih (index + 1) h.2, List.map_cons, String.join_cons]

theorem ok_clauses (path : List String) (body : List Clause) :
    (clauses 1 path body).Ok ↔ ∀ c ∈ body, (Node.clause c).Renders options.deeper := by
  induction body with
  | nil => simp [clauses]
  | cons c rest ih =>
      rw [clauses, ok_append, clause_inside, Node.ok_inside, ih, List.forall_mem_cons]

theorem content_clauses (path : List String) (body : List Clause)
    (h : ∀ c ∈ body, (Node.clause c).Renders options.deeper) :
    (clauses 1 path body).content options.indent.unit options.startIndent =
      Construct.clauseTexts options body := by
  induction body with
  | nil => simp [clauses, Construct.clauseTexts]
  | cons c rest ih =>
      rw [List.forall_mem_cons] at h
      rw [clauses, clause_inside, content_append _ _ (Node.ok_inside.2 h.1),
        Node.content_inside h.1, ih h.2, Construct.clauseTexts, Construct.clauseTexts,
        List.map_cons, String.join_cons]

@[simp] theorem ok_keywords (words : List String) : (keywords words).Ok := by
  induction words with
  | nil => rfl
  | cons word rest ih => simp [keywords, ih]

@[simp] theorem content_keywords (unit : String) (start : Nat) (words : List String) :
    (keywords words).content unit start = String.join (words.map (· ++ " ")) := by
  induction words with
  | nil => simp [keywords]
  | cons word rest ih => simp [keywords, content_append, ih]

@[simp] theorem ok_description (about : Option String) : (description about).Ok := by
  cases about <;> rfl

/-! ## Documents -/

theorem ok_sectionPart (path : List String) (d : Document) (target : Section) :
    (sectionPart 0 path d.sections target).Ok ↔
      ∀ e ∈ d.elements target, (Node.element e).Renders options.deeper := by
  rw [sectionPart]
  simp only [Nat.zero_add]
  split
  · exact ok_elements options _ _ _
  · split
    · next hempty =>
        have hnone : d.elements target = [] := List.isEmpty_iff.1 hempty
        simp [hnone]
    · rw [ok_append, ok_elements options]
      simp [Document.elements]

theorem content_sectionPart (path : List String) (d : Document) (target : Section)
    (h : ∀ e ∈ d.elements target, (Node.element e).Renders options.deeper) :
    (sectionPart 0 path d.sections target).content options.indent.unit options.startIndent =
      d.sectionText options target := by
  rw [sectionPart, Document.sectionText]
  simp only [Nat.zero_add]
  split
  · next hpublic =>
      rw [if_neg (by simp [hpublic])]
      exact (content_elements options _ _ _ h).trans String.empty_append.symm
  · next hother =>
      split
      · next hempty => rw [if_pos ⟨hother, List.isEmpty_iff.1 hempty⟩, content_empty]
      · next hsome =>
          have hne : d.elements target ≠ [] := fun hnone => hsome (List.isEmpty_iff.2 hnone)
          rw [if_neg (fun hboth => hne hboth.2), content_append _ _ (ok_line _ _), content_line]
          exact congrArg _ (content_elements options _ _ _ h)

theorem ok_sectionParts (path : List String) (d : Document) (targets : List Section) :
    (sectionParts 0 path d.sections targets).Ok ↔
      ∀ target ∈ targets, ∀ e ∈ d.elements target, (Node.element e).Renders options.deeper := by
  induction targets with
  | nil => simp [sectionParts]
  | cons target rest ih =>
      rw [sectionParts, ok_append, ok_sectionPart options, ih, List.forall_mem_cons]

theorem content_sectionParts (path : List String) (d : Document) (targets : List Section)
    (h : ∀ target ∈ targets, ∀ e ∈ d.elements target,
      (Node.element e).Renders options.deeper) :
    (sectionParts 0 path d.sections targets).content options.indent.unit options.startIndent =
      String.join (targets.map (d.sectionText options)) := by
  induction targets with
  | nil => simp [sectionParts]
  | cons target rest ih =>
      rw [List.forall_mem_cons] at h
      rw [sectionParts, content_append _ _ ((ok_sectionPart options path d target).2 h.1),
        content_sectionPart options path d target h.1, ih h.2, List.map_cons, String.join_cons]

theorem ok_within (within : Option Within) :
    (Printout.optional (withinLine 0) within).Ok := by
  cases within <;> rfl

theorem content_within (d : Document) :
    (Printout.optional (withinLine 0) d.within).content options.indent.unit options.startIndent =
      d.withinText options := by
  rw [Document.withinText]
  split
  · next h => rw [h, optional_none, content_empty]
  · next h => rw [h, optional_some, withinLine, content_line]; rfl
  · next h => rw [h, optional_some, withinLine, content_line]; rfl

/-- The line with the name of the model. -/
def headerLine (d : Document) : Printout :=
  indentTo 0 ++ keywords d.flags.keywords ++ text "model " ++ text d.ident
    ++ description d.description ++ newline

theorem ok_headerLine (d : Document) : (headerLine d).Ok := by
  simp [headerLine]

theorem content_headerLine (d : Document) :
    (headerLine d).content options.indent.unit options.startIndent = options.line d.header := by
  have hflags : d.flags.keywords.map (· ++ " ") =
      d.flags.toList.map fun flag => FlagKind.keyword flag ++ " " :=
    List.map_map
  rw [headerLine, RenderOptions.line, Document.header]
  cases d.description <;> simp [description, content_append, hflags, String.append_assoc]

/-- The annotations with their word and semicolon. -/
def annotationLine (d : Document) : Printout :=
  if d.annotations.isEmpty then ∅
  else text "annotation " ++ modification 1 [d.ident, "annotation"] d.annotations
    ++ text ";" ++ newline

theorem ok_annotationLine (d : Document) :
    (annotationLine d).Ok ↔
      (d.annotations.isEmpty = false →
        (Node.modification d.annotations).Renders options.deeper) := by
  rw [annotationLine]
  split
  · next hempty => simp [hempty]
  · next hsome => simp [hsome, modification_inside, Node.renders_iff]

theorem content_annotationLine (d : Document)
    (h : d.annotations.isEmpty = false →
      (Node.modification d.annotations).Renders options.deeper) :
    (annotationLine d).content options.indent.unit options.startIndent =
      d.annotationText options := by
  rw [annotationLine, Document.annotationText]
  split
  · rw [content_empty]
  · next hsome =>
      have hrenders := h (Bool.eq_false_iff.2 hsome)
      simp [content_append, modification_inside, Node.ok_inside.2 hrenders,
        Node.content_inside hrenders, String.append_assoc]

theorem document_eq (d : Document) :
    document 0 [] d =
      Printout.optional (withinLine 0) d.within ++ headerLine d
        ++ sectionParts 0 [d.ident] d.sections Section.all ++ annotationLine d
        ++ line 0 ("end " ++ d.ident ++ ";") := by
  simp only [document, headerLine, annotationLine, Printout.append_assoc, List.nil_append,
    List.cons_append, Nat.zero_add]

theorem ok_document (d : Document) :
    (document 0 [] d).Ok ↔
      (∀ target, ∀ e ∈ d.elements target, (Node.element e).Renders options.deeper) ∧
        (d.annotations.isEmpty = false →
          (Node.modification d.annotations).Renders options.deeper) := by
  simp only [document_eq, ok_append, ok_within, ok_headerLine, ok_line, ok_sectionParts options,
    ok_annotationLine options, true_and, and_true, Section.mem_all,
    true_implies]

theorem content_document (d : Document) (h : (document 0 [] d).Ok) :
    (document 0 [] d).content options.indent.unit options.startIndent = d.composed options := by
  obtain ⟨hsections, hannotations⟩ := (ok_document options d).1 h
  have hparts := (ok_sectionParts options [d.ident] d Section.all).2 fun target _ =>
    hsections target
  have hlast := (ok_annotationLine options d).2 hannotations
  rw [document_eq, content_append _ _ (by simp [ok_within, ok_headerLine, hparts, hlast]),
    content_append _ _ (by simp [ok_within, ok_headerLine, hparts]),
    content_append _ _ (by simp [ok_within, ok_headerLine]),
    content_append _ _ (ok_within d.within), content_within, content_headerLine,
    content_sectionParts options _ d _ fun target _ => hsections target,
    content_annotationLine options d hannotations, content_line]
  rfl

/-! ## Constructs -/

/-- A construct has a line that opens it if it has what stands in that line. -/
theorem opening_eq (c : Construct) :
    opening c.kind c.test c.indices =
      if c.kind = .forLoop ∨ c.test.isSome then .ok c.header
      else .error (.missingTest c.kind) := by
  rw [Construct.header]
  cases c.kind <;> cases c.test <;> rfl

theorem ok_opening (path : List String) (c : Construct) :
    (located 0 path (opening c.kind c.test c.indices) text).Ok ↔ c.Tested := by
  rw [opening_eq, Construct.Tested]
  split
  · next h => simp [located, h]
  · next h => simp [located, h, fail, Ok]

theorem content_opening (path : List String) (c : Construct) (h : c.Tested) :
    (located 0 path (opening c.kind c.test c.indices) text).content options.indent.unit
      options.startIndent = c.header := by
  have hopens : c.kind = .forLoop ∨ c.test.isSome := h
  rw [opening_eq, if_pos hopens, located, content_text]

theorem ok_constructBranches (path : List String) (word : String) (index : Nat)
    (branches : List Branch) :
    (constructBranches 0 path word index branches).Ok ↔
      ∀ clause ∈ branches.flatMap Branch.body, (Node.clause clause).Renders options.deeper := by
  induction branches generalizing index with
  | nil => simp [constructBranches]
  | cons branch rest ih =>
      obtain ⟨test, body⟩ := branch
      simp only [constructBranches, ok_append, ok_line, true_and, Nat.zero_add,
        ok_clauses options, ih, List.flatMap_cons, List.forall_mem_append]

theorem content_constructBranches (path : List String) (c : Construct) (index : Nat)
    (branches : List Branch)
    (h : ∀ clause ∈ branches.flatMap Branch.body, (Node.clause clause).Renders options.deeper) :
    (constructBranches 0 path c.branchWord index branches).content options.indent.unit
      options.startIndent = String.join (branches.map (c.branchText options)) := by
  induction branches generalizing index with
  | nil => simp [constructBranches]
  | cons branch rest ih =>
      obtain ⟨test, body⟩ := branch
      rw [List.flatMap_cons, List.forall_mem_append] at h
      have hbody := (ok_clauses options (path ++ [c.branchWord ++ itemSegment index]) body).2 h.1
      rw [constructBranches, Nat.zero_add, content_append _ _ (by simp [hbody]),
        content_append _ _ (ok_line _ _), content_line, content_clauses options _ _ h.1,
        ih (index + 1) h.2, List.map_cons, String.join_cons]
      rfl

theorem branchPart_eq (path : List String) (c : Construct) :
    branchPart 0 path c.kind c.branches =
      constructBranches 0 path c.branchWord 0 c.printedBranches := by
  rw [branchPart, Construct.branchWord, Construct.printedBranches]
  cases c.kind <;> rfl

theorem ok_elsePart (path : List String) (orelse : Option (List Clause)) :
    (elsePart 0 path orelse).Ok ↔
      ∀ clause ∈ orelse.getD [], (Node.clause clause).Renders options.deeper := by
  cases orelse with
  | none => simp [elsePart]
  | some last =>
      rw [elsePart, optional_some, ok_append, Nat.zero_add, ok_clauses options]
      simp

theorem content_elsePart (path : List String) (c : Construct)
    (h : ∀ clause ∈ c.orelse.getD [], (Node.clause clause).Renders options.deeper) :
    (elsePart 0 path c.orelse).content options.indent.unit options.startIndent =
      c.elseText options := by
  rw [elsePart, Construct.elseText]
  cases hlast : c.orelse with
  | none => simp
  | some last =>
      rw [hlast, Option.getD_some] at h
      rw [optional_some, content_append _ _ (ok_line _ _), content_line, Nat.zero_add,
        content_clauses options _ _ h]
      rfl

theorem ok_construct (c : Construct) (hkind : c.bodyKind ≠ .expression) :
    (construct 0 [] c).Ok ↔
      c.Tested ∧ ∀ clause ∈ c.parts, (Node.clause clause).Renders options.deeper := by
  simp only [construct_eq, if_neg hkind, branchPart_eq, ok_append, ok_indentTo, ok_newline,
    ok_line, ok_opening, Nat.zero_add, ok_clauses options, ok_constructBranches options,
    ok_elsePart options, Construct.parts, List.forall_mem_append, true_and, and_true, and_assoc]

theorem content_construct (c : Construct) (hkind : c.bodyKind ≠ .expression)
    (h : (construct 0 [] c).Ok) :
    (construct 0 [] c).content options.indent.unit options.startIndent = c.composed options := by
  obtain ⟨htested, hparts⟩ := (ok_construct options c hkind).1 h
  simp only [Construct.parts, List.forall_mem_append] at hparts
  obtain ⟨⟨hbody, hbranches⟩, hlast⟩ := hparts
  have hopening := (ok_opening [] c).2 htested
  have hclauses := (ok_clauses options [] c.body).2 hbody
  have hfurther := (ok_constructBranches options [] c.branchWord 0 c.printedBranches).2 hbranches
  have helse := (ok_elsePart options [] c.orelse).2 hlast
  rw [construct_eq, if_neg hkind, branchPart_eq, Nat.zero_add,
    content_append _ _ (by simp [hopening, hclauses, hfurther, helse]),
    content_append _ _ (by simp [hopening, hclauses, hfurther]),
    content_append _ _ (by simp [hopening, hclauses]), content_append _ _ (by simp [hopening]),
    content_append _ _ (by simp [hopening]), content_append _ _ (ok_indentTo 0),
    content_indentTo, content_opening options _ c htested, content_newline,
    content_clauses options _ _ hbody, content_constructBranches options _ c _ _ hbranches,
    content_elsePart options _ c hlast, content_line]
  rfl

end Printer

/-! ## Rendering -/

/-- A document has a text if and only if its elements and its annotations have
one, each of them alone and one level deeper, and its text is then made of
theirs. The same holds for a construct and its clauses, be it a clause or an
element. -/
theorem render_compositional (options : RenderOptions) :
    (∀ (d : Document) (text : String),
      render options (.document d) = .ok text ↔
        (∀ target, ∀ e ∈ d.elements target, (Node.element e).Renders options.deeper) ∧
          (d.annotations.isEmpty = false →
            (Node.modification d.annotations).Renders options.deeper) ∧
          text = d.composed options) ∧
    (∀ (c : Construct) (text : String), c.bodyKind ≠ .expression →
      (render options (.clause (.construct c)) = .ok text ↔
        c.Tested ∧ (∀ clause ∈ c.parts, (Node.clause clause).Renders options.deeper) ∧
          text = c.composed options)) ∧
    ∀ c : Construct,
      render options (.element (.construct c)) = render options (.clause (.construct c)) := by
  refine ⟨fun d text => ?_, fun c text hkind => ?_, fun c => ?_⟩
  · rw [render_eq_ok, ← and_assoc, ← Printer.ok_document options]
    refine and_congr_right fun hok => ?_
    rw [Node.printout, Printer.content_document options d hok, eq_comm]
  · rw [render_eq_ok, ← and_assoc, ← Printer.ok_construct options c hkind]
    refine and_congr_right fun hok => ?_
    rw [Node.printout, Printer.clause, Printer.content_construct options c hkind hok, eq_comm]
  · rw [render_eq, render_eq, Node.printout, Node.printout, Printer.element, Printer.clause]

/-- A loop with one statement, two levels down and with tabs. -/
theorem render_compositional_loop :
    BodyKind.statement ≠ .expression ∧
      render { indent := .tab, startIndent := 2 } (.clause (.construct
          ⟨.whileLoop, .statement, some "x > 0", [], [.statement "x := f(x)"], [], none⟩)) =
        .ok "\t\twhile x > 0 loop\n\t\t\tx := f(x);\n\t\tend while;\n" := by
  refine ⟨by decide, ((render_compositional _).2.1 _ _ (by decide)).2 ⟨Or.inr rfl, ?_, ?_⟩⟩
  · intro clause hmem
    obtain rfl : clause = .statement "x := f(x)" := List.mem_singleton.1 hmem
    exact ⟨_, rfl⟩
  · rfl

end ModelSource

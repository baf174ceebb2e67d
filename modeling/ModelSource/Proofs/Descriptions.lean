import ModelSource.Proofs.Layout
import ModelSource.Proofs.Literals
import ModelSource.Proofs.Reachable

/-!
# No description breaks out of its quotes

A description may be any text at all, and it stands in the middle of source code.
That the code around it is read as it was meant rests on one thing: whoever reads
the literal finds its end where the printer put it, whatever the description holds
and whatever follows. For a literal alone that is `readQuoted_quote`. This file
carries it to everything that is printed.

The list `descriptions` says of a node which descriptions are written and in which
order, at every depth: those of assignments inside modifications and annotations
come with their surroundings. A printout keeps them apart from the rest if it falls
into segments, each of them a single piece or a description behind its blank
(`Quotes`). Every printout does so for no descriptions, hence only the functions
that lead to a description have a lemma here.
-/

namespace ModelSource

open Printout

/-! ## The descriptions of a node -/

mutual

/-- The descriptions in a value, in the order in which they are written. -/
def Value.descriptions : Value → List String
  | .scalar _ | .tuple _ => []
  | .map entries => entries.descriptions
  | .assign assignment => assignment.descriptions
  | .list items => itemDescriptions items

def itemDescriptions : List Value → List String
  | [] => []
  | item :: rest => item.descriptions ++ itemDescriptions rest

def Modification.descriptions : Modification → List String
  | ⟨entries⟩ => entryDescriptions entries

def entryDescriptions : List (String × Value) → List String
  | [] => []
  | (_, value) :: rest => value.descriptions ++ entryDescriptions rest

def Assign.descriptions : Assign → List String
  | ⟨_, modifications, _, description, annotations, _, _⟩ =>
    modifications.descriptions ++ description.toList ++ annotations.descriptions

end

def Equation.descriptions (e : Equation) : List String :=
  e.description.toList ++ e.annotations.descriptions

def Connection.descriptions (c : Connection) : List String :=
  c.description.toList ++ c.annotations.descriptions

/-- Of a binding only the literal is written. -/
def Declaration.descriptions (d : Declaration) : List String :=
  d.modifications.descriptions ++ d.description.toList ++ d.annotations.descriptions

mutual

/-- An expression is written without descriptions, and a loop without branches. -/
def Construct.descriptions : Construct → List String
  | ⟨kind, bodyKind, _, _, body, branches, orelse⟩ =>
    if bodyKind = .expression then []
    else
      clauseDescriptions body
        ++ (if kind.isConditional then branchDescriptions branches else [])
        ++ elseDescriptions orelse

def elseDescriptions : Option (List Clause) → List String
  | none => []
  | some clauses => clauseDescriptions clauses

def branchDescriptions : List Branch → List String
  | [] => []
  | ⟨_, body⟩ :: rest => clauseDescriptions body ++ branchDescriptions rest

def clauseDescriptions : List Clause → List String
  | [] => []
  | clause :: rest => clause.descriptions ++ clauseDescriptions rest

def Clause.descriptions : Clause → List String
  | .equation e | .algorithm e => e.descriptions
  | .connection c => c.descriptions
  | .statement _ | .expression _ => []
  | .construct c => c.descriptions

end

def Element.descriptions : Element → List String
  | .declaration d => d.descriptions
  | .equation e | .algorithm e => e.descriptions
  | .connection c => c.descriptions
  | .importClause _ | .text _ => []
  | .extendsClause e => e.modifications.descriptions
  | .construct c => c.descriptions

/-- The description of the document, of what its sections hold, and in its annotations. -/
def Document.descriptions (d : Document) : List String :=
  d.description.toList
    ++ Section.all.flatMap (fun target => (d.elements target).flatMap Element.descriptions)
    ++ d.annotations.descriptions

def Node.descriptions : Node → List String
  | .document d => d.descriptions
  | .element e => e.descriptions
  | .clause c => c.descriptions
  | .modification m => m.descriptions

/-! ## Segments -/

/-- A part of a printout. -/
inductive Segment where
  | plain (piece : Piece)
  | description (about : String)

namespace Segment

/-- A description is quoted, behind a blank. -/
def pieces : Segment → List Piece
  | .plain piece => [piece]
  | .description about => [.text " ", .text (Text.quote about)]

def about? : Segment → Option String
  | .plain _ => none
  | .description about => some about

end Segment

/-- The text of segments. -/
def RenderOptions.written (options : RenderOptions) (segments : List Segment) : String :=
  options.layout (segments.flatMap Segment.pieces)

/-- Unless it fails, the printout falls into segments that hold these descriptions. -/
structure Quotes (p : Printout) (descriptions : List String) : Prop where
  segments : p.Ok → ∃ segments : List Segment, p.pieces = segments.flatMap Segment.pieces ∧
    segments.filterMap Segment.about? = descriptions

namespace Quotes

variable {p q : Printout} {first second : List String}

theorem plain (p : Printout) : Quotes p [] := by
  refine ⟨fun _ => ⟨p.pieces.map .plain, ?_, ?_⟩⟩
  · rw [List.flatMap_map]
    exact (List.flatMap_singleton' p.pieces).symm
  · rw [List.filterMap_map]
    exact List.filterMap_eq_nil_iff.2 fun _ _ => rfl

theorem append (hp : Quotes p first) (hq : Quotes q second) :
    Quotes (p ++ q) (first ++ second) := by
  refine ⟨fun hok => ?_⟩
  obtain ⟨hpok, hqok⟩ := (ok_append p q).1 hok
  obtain ⟨before, hbefore, rfl⟩ := hp.segments hpok
  obtain ⟨after, hafter, rfl⟩ := hq.segments hqok
  refine ⟨before ++ after, ?_, List.filterMap_append⟩
  rw [pieces_append hpok, hbefore, hafter, List.flatMap_append]

theorem before (p : Printout) (hq : Quotes q second) : Quotes (p ++ q) second :=
  (plain p).append hq

theorem after (hp : Quotes p first) (q : Printout) : Quotes (p ++ q) first := by
  have h := hp.append (plain q)
  rwa [List.append_nil] at h

theorem fail (depth : Nat) (e : Error) : Quotes (fail depth e) first :=
  ⟨fun hok => nomatch hok⟩

theorem orFail {next : String → Printout} (h : ∀ content, Quotes (next content) first)
    (depth : Nat) (content : Except Error String) :
    Quotes (orFail depth content next) first := by
  cases content with
  | ok content => exact h content
  | error e => exact fail depth e

/-- What is only written if there is any of it. -/
theorem unless_empty {cond : Bool} (h : cond = true → first = []) (hp : Quotes p first) :
    Quotes (if cond then ∅ else p) first := by
  split
  · next hempty =>
      rw [h hempty]
      exact plain ∅
  · exact hp

end Quotes

namespace Printer

theorem quotes_description (about : Option String) : Quotes (description about) about.toList := by
  cases about with
  | none => exact .plain _
  | some content => exact ⟨fun _ => ⟨[.description content], rfl, rfl⟩⟩

/-! ## Values -/

theorem descriptions_of_itemTexts {items : List Value} {texts : List String}
    (h : itemTexts items = .ok texts) : itemDescriptions items = [] := by
  induction items generalizing texts with
  | nil => rfl
  | cons item rest ih =>
      cases item with
      | scalar value =>
          rw [itemTexts] at h
          split at h
          · cases h
          · obtain ⟨more, hmore, -⟩ := map_eq_ok.1 h
            rw [itemDescriptions, Value.descriptions, ih hmore, List.append_nil]
      | tuple | map | assign | list => cases h

theorem descriptions_of_rowText {item : Value} {text : String} (h : rowText item = .ok text) :
    item.descriptions = [] := by
  cases item with
  | list items =>
      obtain ⟨texts, htexts, -⟩ := map_eq_ok.1 h
      rw [Value.descriptions, descriptions_of_itemTexts htexts]
  | tuple => rfl
  | scalar | map | assign => cases h

theorem descriptions_of_rowTexts {items : List Value} {texts : List String}
    (h : rowTexts items = .ok texts) : itemDescriptions items = [] := by
  induction items generalizing texts with
  | nil => rfl
  | cons item rest ih =>
      rw [rowTexts] at h
      split at h
      · cases h
      · next text htext =>
          obtain ⟨more, hmore, -⟩ := map_eq_ok.1 h
          rw [itemDescriptions, descriptions_of_rowText htext, ih hmore, List.append_nil]

/-- A list in braces holds literals, and literals have no descriptions. -/
theorem descriptions_of_flat {items : List Value} {content : String}
    (h : listLayout items = .flat (.ok content)) : itemDescriptions items = [] := by
  unfold listLayout at h
  split at h
  · next hnone =>
      rw [List.head?_eq_none_iff.1 hnone]
      rfl
  · cases h
  · obtain ⟨texts, htexts, -⟩ := map_eq_ok.1 (ListLayout.flat.inj h)
    exact descriptions_of_rowTexts htexts
  · obtain ⟨texts, htexts, -⟩ := map_eq_ok.1 (ListLayout.flat.inj h)
    exact descriptions_of_rowTexts htexts
  · obtain ⟨texts, htexts, -⟩ := map_eq_ok.1 (ListLayout.flat.inj h)
    exact descriptions_of_itemTexts htexts
  · cases h

theorem descriptions_of_isEmpty {m : Modification} (h : m.isEmpty = true) :
    m.descriptions = [] := by
  obtain ⟨entries⟩ := m
  obtain rfl : entries = [] := List.isEmpty_iff.1 h
  rfl

mutual

theorem quotes_modification (depth : Nat) (path : List String) (m : Modification) :
    Quotes (modification depth path m) m.descriptions := by
  match m with
  | ⟨entries⟩ =>
      rw [modification, Modification.descriptions]
      split
      · next hnone =>
          rw [List.length_eq_zero_iff.1 hnone]
          exact .plain ∅
      · exact ((quotes_inlineEntries depth path entries).before (text "(")).after (text ")")
      · exact ((quotes_inlineEntries depth path entries).before (text "(")).after (text ")")
      · exact ((quotes_lineEntries (depth + 1) path entries).before (text "(" ++ newline)).after
          (text ")")

theorem quotes_inlineEntries (depth : Nat) (path : List String)
    (entries : List (String × Value)) :
    Quotes (inlineEntries depth path entries) (entryDescriptions entries) := by
  match entries with
  | [] => exact .plain ∅
  | (key, value) :: rest =>
      rw [inlineEntries, entryDescriptions]
      exact ((quotes_entry depth (path ++ [key]) key value).after _).append
        (quotes_inlineEntries depth path rest)

theorem quotes_lineEntries (depth : Nat) (path : List String)
    (entries : List (String × Value)) :
    Quotes (lineEntries depth path entries) (entryDescriptions entries) := by
  match entries with
  | [] => exact .plain ∅
  | (key, value) :: rest =>
      rw [lineEntries, entryDescriptions]
      exact (((quotes_entry depth (path ++ [key]) key value).before (indentTo depth)).after
        _).append (quotes_lineEntries depth path rest)

theorem quotes_entry (depth : Nat) (path : List String) (key : String) (value : Value) :
    Quotes (entry depth path key value) value.descriptions := by
  match value with
  | .scalar _ | .tuple _ => exact .plain _
  | .map entries =>
      rw [entry, Value.descriptions]
      exact (quotes_modification depth path entries).before (text key)
  | .assign assignment =>
      rw [entry, Value.descriptions]
      exact quotes_assign depth path key assignment
  | .list items =>
      rw [entry, Value.descriptions]
      refine .before (text key) ?_
      cases hlayout : listLayout items with
      | records =>
          have hrecords := quotes_records (depth + 1) path 0 items
          exact (((hrecords.before (text "=\x7b" ++ newline)).after newline).after
            (indentTo depth)).after (text "\x7d")
      | flat content =>
          cases content with
          | error obstacle => exact .fail depth _
          | ok content =>
              -- An item with a description would have made the list fail.
              rw [descriptions_of_flat hlayout]
              exact .plain _

theorem quotes_assign (depth : Nat) (path : List String) (key : String) (a : Assign) :
    Quotes (assign depth path key a) a.descriptions := by
  match a with
  | ⟨literal, modifications, flags, about, annotations, typeName, precision⟩ =>
      have hmodifications := quotes_modification depth path modifications
      have hannotations := quotes_modification depth (path ++ ["annotation"]) annotations
      rw [assign, Assign.descriptions]
      refine .orFail (fun _ => ?_) ..
      refine (((hmodifications.before _).after _).append (quotes_description about)).append ?_
      exact .unless_empty descriptions_of_isEmpty (hannotations.before (text " annotation "))

theorem quotes_records (depth : Nat) (path : List String) (index : Nat) (items : List Value) :
    Quotes (records depth path index items) (itemDescriptions items) := by
  match items with
  | [] => exact .plain ∅
  | .map ⟨[(name, value)]⟩ :: rest =>
      have hvalue := quotes_entry depth (path ++ [itemSegment index, name]) name value
      have hrest := quotes_records depth path (index + 1) rest
      rw [records, itemDescriptions, Value.descriptions, Modification.descriptions,
        entryDescriptions, entryDescriptions, List.append_nil]
      exact ((hvalue.before (indentTo depth)).after _).append hrest
  | .map ⟨[]⟩ :: _ | .map ⟨_ :: _ :: _⟩ :: _ => exact .fail ..
  | .scalar _ :: _ | .tuple _ :: _ | .assign _ :: _ | .list _ :: _ => exact .fail ..

end

/-! ## Elements -/

theorem quotes_closing (depth : Nat) (path : List String) (about : Option String)
    (annotations : Modification) :
    Quotes (closing depth path about annotations)
      (about.toList ++ annotations.descriptions) := by
  have hannotations := quotes_modification depth (path ++ ["annotation"]) annotations
  rw [closing, annotationPart]
  exact (((quotes_description about).append (.unless_empty descriptions_of_isEmpty
    (hannotations.before (text " annotation ")))).after (text ";")).after newline

/-- Equations, steps and connections differ in their text only. -/
theorem quotes_statement (depth : Nat) (content : String) (path : List String)
    (about : Option String) (annotations : Modification) :
    Quotes (indentTo depth ++ text content ++ closing depth path about annotations)
      (about.toList ++ annotations.descriptions) :=
  (quotes_closing depth path about annotations).before _

theorem quotes_declaration (depth : Nat) (path : List String) (d : Declaration) :
    Quotes (declaration depth path d) d.descriptions := by
  have hmodifications := quotes_modification depth path d.modifications
  have hclosing := quotes_closing depth path d.description d.annotations
  rw [declaration, Declaration.descriptions, List.append_assoc]
  exact (((hmodifications.before _).after _).after _).append hclosing

mutual

theorem quotes_construct (depth : Nat) (path : List String) (c : Construct) :
    Quotes (construct depth path c) c.descriptions := by
  match c with
  | ⟨kind, bodyKind, test, indices, body, branches, orelse⟩ =>
      rw [construct_eq, Construct.descriptions]
      split
      · exact .plain _
      · have hbody := quotes_clauses (depth + 1) path body
        have hbranches : Quotes (branchPart depth path kind branches)
            (if kind.isConditional then branchDescriptions branches else []) := by
          cases kind with
          | ifThen => exact quotes_constructBranches depth path "elseif" 0 branches
          | when => exact quotes_constructBranches depth path "elsewhen" 0 branches
          | forLoop | whileLoop => exact .plain ∅
        have helse := quotes_elsePart depth path orelse
        exact (((hbody.before _).append hbranches).append helse).after _

theorem quotes_elsePart (depth : Nat) (path : List String) (orelse : Option (List Clause)) :
    Quotes (elsePart depth path orelse) (elseDescriptions orelse) := by
  match orelse with
  | none => exact .plain ∅
  | some last =>
      rw [elsePart, optional_some, elseDescriptions]
      exact (quotes_clauses (depth + 1) (path ++ ["else"]) last).before (line depth "else")

theorem quotes_constructBranches (depth : Nat) (path : List String) (word : String)
    (index : Nat) (branches : List Branch) :
    Quotes (constructBranches depth path word index branches) (branchDescriptions branches) := by
  match branches with
  | [] => exact .plain ∅
  | ⟨test, body⟩ :: rest =>
      rw [constructBranches, branchDescriptions]
      exact ((quotes_clauses (depth + 1) _ body).before (line depth _)).append
        (quotes_constructBranches depth path word (index + 1) rest)

theorem quotes_clauses (depth : Nat) (path : List String) (body : List Clause) :
    Quotes (clauses depth path body) (clauseDescriptions body) := by
  match body with
  | [] => exact .plain ∅
  | c :: rest =>
      rw [clauses, clauseDescriptions]
      exact (quotes_clause depth path c).append (quotes_clauses depth path rest)

theorem quotes_clause (depth : Nat) (path : List String) (c : Clause) :
    Quotes (clause depth path c) c.descriptions := by
  match c with
  | .equation _ | .connection _ | .algorithm _ => exact quotes_statement ..
  | .statement _ | .expression _ => exact .plain _
  | .construct c => exact quotes_construct depth path c

end

theorem quotes_element (depth : Nat) (path : List String) (e : Element) :
    Quotes (element depth path e) e.descriptions := by
  cases e with
  | declaration d => exact quotes_declaration depth path d
  | equation _ | connection _ | algorithm _ => exact quotes_statement ..
  | importClause _ | text _ => exact .plain _
  | extendsClause e =>
      rw [element, extendsClause, Element.descriptions]
      exact (((quotes_modification depth path e.modifications).before _).after (text ";")).after
        newline
  | construct c => exact quotes_construct depth path c

theorem quotes_elements (depth : Nat) (path : List String) (index : Nat) (es : List Element) :
    Quotes (elements depth path index es) (es.flatMap Element.descriptions) := by
  induction es generalizing index with
  | nil => exact .plain ∅
  | cons e rest ih =>
      rw [elements, List.flatMap_cons]
      exact (quotes_element depth _ e).append (ih (index + 1))

theorem quotes_sectionPart (depth : Nat) (path : List String) (s : Sections) (target : Section) :
    Quotes (sectionPart depth path s target) ((s.get target).flatMap Element.descriptions) := by
  have helements := quotes_elements (depth + 1) (path ++ [target.keyword]) 0 (s.get target)
  rw [sectionPart]
  split
  · exact helements
  · refine .unless_empty (fun hempty => ?_) (helements.before (line depth _))
    rw [List.isEmpty_iff.1 hempty]
    rfl

theorem quotes_sectionParts (depth : Nat) (path : List String) (s : Sections)
    (targets : List Section) :
    Quotes (sectionParts depth path s targets)
      (targets.flatMap fun target => (s.get target).flatMap Element.descriptions) := by
  induction targets with
  | nil => exact .plain ∅
  | cons target rest ih =>
      rw [sectionParts, List.flatMap_cons]
      exact (quotes_sectionPart depth path s target).append ih

theorem quotes_document (depth : Nat) (path : List String) (d : Document) :
    Quotes (document depth path d) d.descriptions := by
  have hsections := quotes_sectionParts depth (path ++ [d.ident]) d.sections Section.all
  have hannotations := quotes_modification (depth + 1) (path ++ [d.ident] ++ ["annotation"])
    d.annotations
  rw [document, Document.descriptions]
  refine Quotes.after (Quotes.append (Quotes.append ?_ hsections) ?_) _
  · exact ((quotes_description d.description).before _).after newline
  · exact .unless_empty descriptions_of_isEmpty
      (((hannotations.before (text "annotation ")).after (text ";")).after newline)

end Printer

theorem Node.quotes (node : Node) : Quotes node.printout node.descriptions := by
  cases node with
  | document d => exact Printer.quotes_document 0 [] d
  | element e => exact Printer.quotes_element 0 [] e
  | clause c => exact Printer.quotes_clause 0 [] c
  | modification m => exact Printer.quotes_modification 0 [] m

theorem Text.quote_injective : Function.Injective Text.quote := by
  intro first second h
  have hfirst := readQuoted_quote first []
  rw [h, readQuoted_quote second []] at hfirst
  exact String.toList_inj.1 (Prod.mk.inj (Option.some.inj hfirst)).1.symm

/-! ## The text -/

theorem written_append (options : RenderOptions) (first second : List Segment) :
    options.written (first ++ second) = options.written first ++ options.written second := by
  simp only [RenderOptions.written, RenderOptions.layout, List.flatMap_append, List.map_append,
    String.join_append]

theorem written_description (options : RenderOptions) (about : String) (after : List Segment) :
    options.written (.description about :: after) =
      " " ++ (Text.quote about ++ options.written after) := by
  rw [RenderOptions.written, List.flatMap_cons]
  show options.layout (.text " " :: .text (Text.quote about) :: after.flatMap Segment.pieces) = _
  rw [layout_text, layout_text]
  rfl

/-- A literal is read back as the text that was quoted, and reading it stops at its end,
whatever comes behind; so two texts have two literals. In everything that is rendered, the
descriptions are what the printer wrote in the place of a description, in the order of the
list, and reading from the quote that opens one of them gives the description and leaves what
the printer wrote after it. -/
theorem descriptions_stay_quoted :
    (∀ (text : String) (rest : List Char),
      Text.readQuoted ((Text.quote text).toList ++ rest) = some (text.toList, rest)) ∧
    Function.Injective Text.quote ∧
    ∀ (options : RenderOptions) (node : Node) (output : String),
      render options node = .ok output →
        ∃ segments : List Segment,
          node.printout.pieces = segments.flatMap Segment.pieces ∧
          segments.filterMap Segment.about? = node.descriptions ∧
          output = options.written segments ∧
          ∀ before about after, segments = before ++ .description about :: after →
            ∃ rest, output.toList = (options.written before ++ " ").toList ++ rest ∧
              Text.readQuoted rest = some (about.toList, (options.written after).toList) := by
  refine ⟨Text.readQuoted_quote, Text.quote_injective, ?_⟩
  intro options node output hrender
  obtain ⟨hok, hcontent⟩ := render_eq_ok.1 hrender
  obtain ⟨segments, hpieces, hdescriptions⟩ := node.quotes.segments hok
  have houtput : output = options.written segments := by
    rw [← hcontent, content_eq_layout, hpieces]
    rfl
  refine ⟨segments, hpieces, hdescriptions, houtput, ?_⟩
  rintro before about after rfl
  refine ⟨(Text.quote about).toList ++ (options.written after).toList, ?_, ?_⟩
  · rw [houtput, written_append, written_description]
    simp only [String.toList_append, List.append_assoc]
  · exact Text.readQuoted_quote about _

/-- Descriptions of a document, of a declaration in it and of an assignment in that one, which
end in a backslash, hold quotes and are nothing but an escaped quote. -/
theorem descriptions_stay_quoted_hostile :
    let start : Assign := { Assign.ofScalar (.integer 1) with description := some "\\\"" }
    let x : Declaration :=
      { typeName := "Real", ident := "x", modifications := ⟨[("start", .assign start)]⟩,
        description := some "the \"state\"" }
    let node : Node := .document
      { ident := "M", description := some "ends in \\",
        sections := { publicPart := [.declaration x] } }
    let output :=
      "model M \"ends in \\\\\"\n  Real x(start=1 \"\\\\\\\"\") \"the \\\"state\\\"\";\nend M;\n"
    node.descriptions = ["ends in \\", "\\\"", "the \"state\""] ∧
      render {} node = .ok output ∧
      ∃ segments : List Segment,
        segments.filterMap Segment.about? = node.descriptions ∧
        ∀ before about after, segments = before ++ .description about :: after →
          ∃ rest, output.toList = (RenderOptions.written {} before ++ " ").toList ++ rest ∧
            Text.readQuoted rest =
              some (about.toList, (RenderOptions.written {} after).toList) := by
  intro start x node output
  have hrender : render {} node = .ok output := by decide +kernel
  obtain ⟨segments, -, hdescriptions, -, hread⟩ :=
    descriptions_stay_quoted.2.2 {} node output hrender
  exact ⟨rfl, hrender, segments, hdescriptions, hread⟩

end ModelSource

import ModelSource.Proofs.PenWrites

/-!
# A node prints the same wherever it stands

Every printing function takes the depth at which it prints and the path that
leads to it, and both are handed down through all the nesting. This file shows
that they are handed down and nothing more: a node printed deeper, or further
down a path, prints what it prints on its own with all indentations moved, and
fails where it fails on its own with the path put in front.

`Printout.below` is the move. It commutes with every way of putting printouts
together, so the statement for a node follows from those for its parts, and the
proof is one mutual induction over values and one over constructs.
-/

namespace ModelSource

/-- The piece of a node that stands so many levels deeper. -/
def Piece.deeper (levels : Nat) : Piece → Piece
  | .text content => .text content
  | .indent depth => .indent (levels + depth)

/-- The error of a node that a path leads to. Only values without source text
are reported with their path. -/
def Error.below (above : List String) : Error → Error
  | .unsupported obstacle path => .unsupported obstacle (above ++ path)
  | error => error

/-- The printout of a node that stands so many levels deeper, at the end of a
path. -/
def Printout.below (levels : Nat) (above : List String) (p : Printout) : Printout :=
  ⟨p.pieces.map (.deeper levels),
    p.fault.map fun fault => ⟨fault.error.below above, levels + fault.depth⟩⟩

namespace Printout

@[simp] theorem optional_none (f : α → Printout) : optional f none = ∅ :=
  rfl

@[simp] theorem optional_some (f : α → Printout) (a : α) : optional f (some a) = f a :=
  rfl

variable (levels : Nat) (above : List String)

@[simp] theorem below_empty : (∅ : Printout).below levels above = ∅ :=
  rfl

@[simp] theorem below_text (content : String) :
    (text content).below levels above = text content :=
  rfl

@[simp] theorem below_indentTo (depth : Nat) :
    (indentTo depth).below levels above = indentTo (levels + depth) :=
  rfl

@[simp] theorem below_newline : newline.below levels above = newline :=
  rfl

@[simp] theorem below_append (p q : Printout) :
    (p ++ q).below levels above = p.below levels above ++ q.below levels above := by
  obtain ⟨pieces, fault⟩ := p
  cases fault with
  | none => exact congrArg (Printout.mk · _) (List.map_append ..)
  | some fault => rfl

@[simp] theorem below_line (depth : Nat) (content : String) :
    (line depth content).below levels above = line (levels + depth) content := by
  simp only [line, below_append, below_indentTo, below_text, below_newline]

@[simp] theorem below_optional (f : α → Printout) (o : Option α) :
    (optional f o).below levels above = optional (fun a => (f a).below levels above) o := by
  cases o <;> rfl

@[simp] theorem below_located (depth : Nat) (path : List String)
    (content : Except Obstacle String) (next : String → Printout) :
    (located depth path content next).below levels above =
      located (levels + depth) (above ++ path) content
        fun text => (next text).below levels above := by
  cases content <;> rfl

/-- An error that is the same from everywhere may be raised anywhere. -/
theorem below_orFail {content : Except Error String}
    (h : ∀ e, content = .error e → e.below above = e) (depth : Nat) (next : String → Printout) :
    (orFail depth content next).below levels above =
      orFail (levels + depth) content fun text => (next text).below levels above := by
  cases content with
  | ok text => rfl
  | error e =>
      rw [orFail, orFail, fail, fail, below]
      simp only [Option.map_some, List.map_nil, h e rfl]

@[simp] theorem below_ite (c : Prop) [Decidable c] (p q : Printout) :
    (if c then p else q).below levels above =
      if c then p.below levels above else q.below levels above := by
  split <;> rfl

end Printout

namespace Printer

open Printout

variable (levels : Nat) (above : List String)

@[simp] theorem keywords_below (words : List String) :
    (keywords words).below levels above = keywords words := by
  induction words with
  | nil => rfl
  | cons word rest ih => simp only [keywords, below_append, below_text, ih]

@[simp] theorem description_below (about : Option String) :
    (description about).below levels above = description about := by
  simp only [description, below_optional, below_append, below_text]

@[simp] theorem separator_below (rest : List α) (mark : Printout) :
    (separator rest mark).below levels above = separator rest (mark.below levels above) := by
  simp only [separator, below_ite, below_empty]

theorem validate_below {a : Assign} {e : Error} (h : a.validate.map (fun _ => "") = .error e) :
    e.below above = e := by
  rw [Assign.validate] at h
  split at h
  · split at h
    · cases h
    · cases h; rfl
  · cases h

mutual

theorem modification_below (depth : Nat) (path : List String) (m : Modification) :
    modification (levels + depth) (above ++ path) m =
      (modification depth path m).below levels above := by
  match m with
  | ⟨entries⟩ =>
      rw [modification, modification]
      split
      · rfl
      · simp only [below_append, below_text, inlineEntries_below]
      · simp only [below_append, below_text, inlineEntries_below]
      · simp only [below_append, below_text, below_newline, Nat.add_assoc, lineEntries_below]

theorem inlineEntries_below (depth : Nat) (path : List String)
    (entries : List (String × Value)) :
    inlineEntries (levels + depth) (above ++ path) entries =
      (inlineEntries depth path entries).below levels above := by
  match entries with
  | [] => rfl
  | (key, value) :: rest =>
      rw [inlineEntries, inlineEntries, List.append_assoc]
      simp only [below_append, separator_below, below_text, entry_below, inlineEntries_below]

theorem lineEntries_below (depth : Nat) (path : List String)
    (entries : List (String × Value)) :
    lineEntries (levels + depth) (above ++ path) entries =
      (lineEntries depth path entries).below levels above := by
  match entries with
  | [] => rfl
  | (key, value) :: rest =>
      rw [lineEntries, lineEntries, List.append_assoc]
      simp only [below_append, separator_below, below_text, below_newline, below_indentTo,
        entry_below, lineEntries_below]

theorem entry_below (depth : Nat) (path : List String) (key : String) (value : Value) :
    entry (levels + depth) (above ++ path) key value =
      (entry depth path key value).below levels above := by
  match value with
  | .scalar _ | .tuple _ =>
      rw [entry, entry]
      simp only [below_located, below_text]
  | .map entries =>
      rw [entry, entry]
      simp only [below_append, below_text, modification_below]
  | .assign assignment =>
      rw [entry, entry]
      exact assign_below depth path key assignment
  | .list items =>
      rw [entry, entry]
      cases listLayout items with
      | records =>
          simp only [below_append, below_text, below_newline, below_indentTo, Nat.add_assoc,
            records_below]
      | flat content => simp only [below_append, below_text, below_located]

theorem assign_below (depth : Nat) (path : List String) (key : String) (a : Assign) :
    assign (levels + depth) (above ++ path) key a =
      (assign depth path key a).below levels above := by
  match a with
  | ⟨literal, modifications, flags, about, annotations, typeName, precision⟩ =>
      rw [assign, assign, below_orFail levels above fun _ h => validate_below above h]
      simp only [below_append, keywords_below, below_text, below_optional, below_located,
        description_below, below_ite, below_empty, List.append_assoc, modification_below]

theorem records_below (depth : Nat) (path : List String) (index : Nat) (items : List Value) :
    records (levels + depth) (above ++ path) index items =
      (records depth path index items).below levels above := by
  match items with
  | [] => rfl
  | .map ⟨[(name, value)]⟩ :: rest =>
      rw [records, records, List.append_assoc]
      simp only [below_append, separator_below, below_text, below_newline, below_indentTo,
        entry_below, records_below]
  | .map ⟨[]⟩ :: _ | .map ⟨_ :: _ :: _⟩ :: _ => rfl
  | .scalar _ :: _ | .tuple _ :: _ | .assign _ :: _ | .list _ :: _ => rfl

end

theorem annotationPart_below (depth : Nat) (path : List String) (annotations : Modification) :
    annotationPart (levels + depth) (above ++ path) annotations =
      (annotationPart depth path annotations).below levels above := by
  simp only [annotationPart, below_ite, below_empty, below_append, below_text, List.append_assoc,
    modification_below]

theorem closing_below (depth : Nat) (path : List String) (about : Option String)
    (annotations : Modification) :
    closing (levels + depth) (above ++ path) about annotations =
      (closing depth path about annotations).below levels above := by
  simp only [closing, below_append, description_below, annotationPart_below, below_text,
    below_newline]

/-- Equations, steps and connections differ in their text only. -/
theorem statement_below (depth : Nat) (content : String) (path : List String)
    (about : Option String) (annotations : Modification) :
    indentTo (levels + depth) ++ text content
        ++ closing (levels + depth) (above ++ path) about annotations =
      (indentTo depth ++ text content ++ closing depth path about annotations).below levels
        above := by
  simp only [below_append, below_indentTo, below_text, closing_below]

theorem extendsClause_below (depth : Nat) (path : List String) (e : Extends) :
    extendsClause (levels + depth) (above ++ path) e =
      (extendsClause depth path e).below levels above := by
  simp only [extendsClause, below_append, below_indentTo, below_text, below_newline,
    modification_below]

theorem declaration_below (depth : Nat) (path : List String) (d : Declaration) :
    declaration (levels + depth) (above ++ path) d =
      (declaration depth path d).below levels above := by
  simp only [declaration, below_append, below_indentTo, keywords_below, below_text,
    below_optional, below_located, List.append_assoc, modification_below, closing_below]

theorem rawLines_below (depth : Nat) (indented : Bool) (lines : List String) :
    rawLines (levels + depth) indented lines =
      (rawLines depth indented lines).below levels above := by
  induction lines with
  | nil => rfl
  | cons content rest ih =>
      simp only [rawLines, below_append, below_ite, below_indentTo, below_empty, below_text,
        below_newline, ih]

/-! ## Constructs -/

theorem singleExpression_below {body : List Clause} {e : Error}
    (h : Construct.singleExpression body = .error e) : e.below above = e := by
  unfold Construct.singleExpression at h
  split at h
  · cases h
  · cases h; rfl

theorem inlineBranches_below {branches : List Branch} {e : Error}
    (h : Construct.inlineBranches branches = .error e) : e.below above = e := by
  induction branches with
  | nil => cases h
  | cons branch rest ih =>
      rw [Construct.inlineBranches] at h
      split at h
      · next _ hbody =>
          cases h
          exact singleExpression_below above hbody
      · cases hrest : Construct.inlineBranches rest with
        | error e' =>
            rw [hrest] at h
            cases h
            exact ih hrest
        | ok more =>
            rw [hrest] at h
            cases h

theorem inline_below {c : Construct} {e : Error} (h : c.inline = .error e) :
    e.below above = e := by
  unfold Construct.inline at h
  split at h
  · cases h; rfl
  · split at h
    · next test orelse _ _ =>
        split at h
        · next _ hbody =>
            cases h
            exact singleExpression_below above hbody
        · split at h
          · next _ hbranches =>
              cases h
              exact inlineBranches_below above hbranches
          · cases hlast : Construct.singleExpression orelse with
            | error e' =>
                rw [hlast] at h
                cases h
                exact singleExpression_below above hlast
            | ok last =>
                rw [hlast] at h
                cases h
    · cases h; rfl

/-- The branches after the first, where the kind of construct has any. -/
def branchPart (depth : Nat) (path : List String) (kind : ConstructKind)
    (branches : List Branch) : Printout :=
  Printout.optional (fun word => constructBranches depth path word 0 branches) kind.branchKeyword

/-- The final else. -/
def elsePart (depth : Nat) (path : List String) (orelse : Option (List Clause)) : Printout :=
  Printout.optional (fun last => line depth "else" ++ clauses (depth + 1) (path ++ ["else"]) last)
    orelse

/-- What a construct prints, part by part. -/
theorem construct_eq (depth : Nat) (path : List String) (c : Construct) :
    construct depth path c =
      if c.bodyKind = .expression then orFail depth c.inline (line depth)
      else
        indentTo depth ++ located depth path (opening c.kind c.test c.indices) text ++ newline
          ++ clauses (depth + 1) path c.body ++ branchPart depth path c.kind c.branches
          ++ elsePart depth path c.orelse ++ line depth ("end " ++ c.kind.keyword ++ ";") := by
  obtain ⟨kind, bodyKind, test, indices, body, branches, orelse⟩ := c
  rw [construct.eq_def]
  cases kind <;> cases orelse <;> rfl

mutual

theorem construct_below (depth : Nat) (path : List String) (c : Construct) :
    construct (levels + depth) (above ++ path) c =
      (construct depth path c).below levels above := by
  match c with
  | ⟨kind, bodyKind, test, indices, body, branches, orelse⟩ =>
      rw [construct_eq, construct_eq, below_ite,
        below_orFail levels above fun _ h => inline_below above h]
      simp only [branchPart, below_append, below_indentTo, below_located, below_text,
        below_newline, below_line, below_optional, Nat.add_assoc, clauses_below,
        constructBranches_below, elsePart_below]

theorem elsePart_below (depth : Nat) (path : List String) (orelse : Option (List Clause)) :
    elsePart (levels + depth) (above ++ path) orelse =
      (elsePart depth path orelse).below levels above := by
  match orelse with
  | none => rfl
  | some last =>
      rw [elsePart, elsePart, optional_some, optional_some]
      simp only [below_append, below_line, Nat.add_assoc, List.append_assoc, clauses_below]

theorem constructBranches_below (depth : Nat) (path : List String) (word : String) (index : Nat)
    (branches : List Branch) :
    constructBranches (levels + depth) (above ++ path) word index branches =
      (constructBranches depth path word index branches).below levels above := by
  match branches with
  | [] => rfl
  | ⟨test, body⟩ :: rest =>
      rw [constructBranches, constructBranches]
      simp only [below_append, below_line, List.append_assoc, Nat.add_assoc, clauses_below,
        constructBranches_below]

theorem clauses_below (depth : Nat) (path : List String) (body : List Clause) :
    clauses (levels + depth) (above ++ path) body =
      (clauses depth path body).below levels above := by
  match body with
  | [] => rfl
  | c :: rest =>
      rw [clauses, clauses]
      simp only [below_append, clause_below, clauses_below]

theorem clause_below (depth : Nat) (path : List String) (c : Clause) :
    clause (levels + depth) (above ++ path) c = (clause depth path c).below levels above := by
  match c with
  | .equation _ | .connection _ | .algorithm _ => exact statement_below levels above ..
  | .statement _ | .expression _ => simp only [clause, below_line]
  | .construct c => exact construct_below depth path c

end

theorem element_below (depth : Nat) (path : List String) (e : Element) :
    element (levels + depth) (above ++ path) e = (element depth path e).below levels above := by
  cases e with
  | declaration d => exact declaration_below levels above depth path d
  | equation _ | connection _ | algorithm _ => exact statement_below levels above ..
  | importClause i => simp only [element, below_line]
  | extendsClause e => exact extendsClause_below levels above depth path e
  | text t => exact rawLines_below levels above depth t.indented t.lines
  | construct c => exact construct_below levels above depth path c

end Printer

/-! ## The text of a printout

What an emitter makes of a printout is the concatenation of its pieces, and a
move of the printout is a move of the depth at which the emitter starts. So a
node inside another one has the text that it has on its own, and there is no
other way in which it can fail. -/

namespace Printout

/-- Nothing went wrong. -/
def Ok (p : Printout) : Prop :=
  p.fault = none

/-- The text of the pieces, for a node that stands at depth `start`. -/
def content (unit : String) (start : Nat) (p : Printout) : String :=
  String.join (p.pieces.map (Piece.write unit start))

theorem pieces_append {p : Printout} (h : p.Ok) (q : Printout) :
    (p ++ q).pieces = p.pieces ++ q.pieces := by
  obtain ⟨pieces, fault⟩ := p
  obtain rfl : fault = none := h
  rfl

theorem fault_append (p q : Printout) : (p ++ q).fault = p.fault.or q.fault := by
  obtain ⟨pieces, fault⟩ := p
  cases fault <;> rfl

@[simp] theorem ok_append (p q : Printout) : (p ++ q).Ok ↔ p.Ok ∧ q.Ok := by
  rw [Ok, Ok, Ok, fault_append, Option.or_eq_none_iff]

@[simp] theorem ok_empty : (∅ : Printout).Ok :=
  rfl

@[simp] theorem ok_text (content : String) : (text content).Ok :=
  rfl

@[simp] theorem ok_indentTo (depth : Nat) : (indentTo depth).Ok :=
  rfl

@[simp] theorem ok_newline : newline.Ok :=
  rfl

@[simp] theorem ok_line (depth : Nat) (content : String) : (line depth content).Ok :=
  rfl

@[simp] theorem ok_below (levels : Nat) (above : List String) (p : Printout) :
    (p.below levels above).Ok ↔ p.Ok := by
  rw [Ok, Ok, below, Option.map_eq_none_iff]

variable (unit : String) (start : Nat)

theorem content_append {p : Printout} (h : p.Ok) (q : Printout) :
    (p ++ q).content unit start = p.content unit start ++ q.content unit start := by
  rw [content, pieces_append h, List.map_append, String.join_append]
  rfl

@[simp] theorem content_empty : (∅ : Printout).content unit start = "" :=
  String.join_nil

@[simp] theorem content_text (content : String) : (text content).content unit start = content := by
  rw [Printout.content, text]
  simp [Piece.write]

@[simp] theorem content_indentTo (depth : Nat) :
    (indentTo depth).content unit start = indentation unit (start + depth) := by
  rw [content, indentTo]
  simp [Piece.write]

@[simp] theorem content_newline : newline.content unit start = "\n" :=
  content_text unit start "\n"

@[simp] theorem content_line (depth : Nat) (content : String) :
    (line depth content).content unit start =
      indentation unit (start + depth) ++ content ++ "\n" := by
  simp [line, content_append]

@[simp] theorem content_below (levels : Nat) (above : List String) (p : Printout) :
    (p.below levels above).content unit start = p.content unit (start + levels) := by
  rw [content, content, below, List.map_map]
  congr 2
  funext piece
  cases piece with
  | text => rfl
  | indent depth => simp [Piece.deeper, Piece.write, Nat.add_assoc]

end Printout

theorem render_eq (options : RenderOptions) (node : Node) :
    render options node =
      match node.printout.fault with
      | none => .ok (node.printout.content options.indent.unit options.startIndent)
      | some fault => .error fault.error := by
  rw [render, Emitter.printNode_eq, Emitter.print]
  cases node.printout.fault with
  | some fault => rfl
  | none =>
      simp only [Emitter.buffer_foldl_put]
      exact congrArg Except.ok String.empty_append

theorem render_eq_ok {options : RenderOptions} {node : Node} {text : String} :
    render options node = .ok text ↔
      node.printout.Ok ∧ node.printout.content options.indent.unit options.startIndent = text := by
  rw [render_eq, Printout.Ok]
  cases node.printout.fault <;> simp

end ModelSource

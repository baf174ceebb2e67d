import ModelSource.Proofs.Relocation

/-!
# Options change the indentation and nothing else

What a node prints is decided before anyone asks for its options, and the only
piece that looks at them is an indentation. So the outputs under two sets of
options can differ only where indentations are written, and the question is where
those stand. This file shows that they stand at the start of a line and nowhere
else: an indentation is the first piece of all or comes directly after a line
break. Taking the blanks and tabs away from the start of every line therefore
takes the indentations away, whatever they were, and it leaves the same text.

A text that is written as it stands may end in a line break, or hold one, and it
would be hard to tell from the outside where lines start. The invariant does not
look into texts. `Lays` is a triple for printouts: whether the line break that
ends a line was the last thing written, before and after.
-/

namespace ModelSource

/-- The text of pieces: an indentation is so many copies of the unit. -/
def RenderOptions.layout (options : RenderOptions) (pieces : List Piece) : String :=
  String.join (pieces.map fun
    | .text content => content
    | .indent depth =>
      String.join (List.replicate (options.startIndent + depth) options.indent.unit))

/-- What comes next starts a line. -/
def AtLineStart (text : String) : Prop :=
  text = "" ∨ ∃ before, text = before ++ "\n"

def isIndentation (c : Char) : Bool :=
  c == ' ' || c == '\t'

/-- The lines of a text, without the blanks and tabs that they start with. -/
def unindented (text : String) : List (List Char) :=
  (text.toList.splitOn '\n').map (List.dropWhile isIndentation)

/-! ## Pieces -/

/-- Every indentation is the first piece of a line. The flag tells whether a line
starts here. -/
def Aligned : Bool → List Piece → Prop
  | _, [] => True
  | _, .text content :: rest => Aligned (content == "\n") rest
  | start, .indent _ :: rest => start = true ∧ Aligned false rest

/-- Whether a line starts after the pieces. -/
def startsAfter : Bool → List Piece → Bool
  | start, [] => start
  | _, .text content :: rest => startsAfter (content == "\n") rest
  | _, .indent _ :: rest => startsAfter false rest

theorem aligned_append {start : Bool} {first second : List Piece} :
    Aligned start (first ++ second) ↔
      Aligned start first ∧ Aligned (startsAfter start first) second := by
  induction first generalizing start with
  | nil => simp [Aligned, startsAfter]
  | cons piece rest ih =>
      cases piece with
      | text content => simp [Aligned, startsAfter, ih]
      | indent depth => simp [Aligned, startsAfter, ih, and_assoc]

theorem startsAfter_append {start : Bool} {first second : List Piece} :
    startsAfter start (first ++ second) = startsAfter (startsAfter start first) second := by
  induction first generalizing start with
  | nil => rfl
  | cons piece rest ih => cases piece <;> exact ih

/-- A line that may start here may also be one that does. -/
theorem Aligned.mono {start : Bool} {pieces : List Piece} (h : Aligned false pieces) :
    Aligned start pieces := by
  cases pieces with
  | nil => trivial
  | cons piece rest =>
      cases piece with
      | text content => exact h
      | indent depth => exact nomatch h.1

theorem startsAfter_mono {start : Bool} {pieces : List Piece}
    (h : startsAfter false pieces = true) : startsAfter start pieces = true := by
  cases pieces with
  | nil => exact nomatch h
  | cons piece rest => cases piece <;> exact h

/-! ## Printouts -/

/-- The printout can be printed where `before` says whether a line starts, its
indentations stand at the start of a line, and unless it fails a line starts after
it if `after` says so. -/
structure Lays (before : Bool) (p : Printout) (after : Bool) : Prop where
  aligned : Aligned before p.pieces
  ends : after = true → p.Ok → startsAfter before p.pieces = true

namespace Lays

open Printout

variable {a b c : Bool} {p q : Printout}

theorem append (hp : Lays a p b) (hq : Lays b q c) : Lays a (p ++ q) c := by
  by_cases hok : p.Ok
  · have hmid : Aligned (startsAfter a p.pieces) q.pieces := by
      cases b with
      | false => exact hq.aligned.mono
      | true => rw [hp.ends rfl hok]; exact hq.aligned
    constructor
    · rw [pieces_append hok, aligned_append]
      exact ⟨hp.aligned, hmid⟩
    · intro hafter hboth
      have hend := hq.ends hafter ((ok_append p q).1 hboth).2
      rw [pieces_append hok, startsAfter_append]
      cases b with
      | false => exact startsAfter_mono hend
      | true => rw [hp.ends rfl hok]; exact hend
  · have hfirst : p ++ q = p := by
      obtain ⟨pieces, fault⟩ := p
      cases fault with
      | none => exact (hok rfl).elim
      | some fault => rfl
    rw [hfirst]
    exact ⟨hp.aligned, fun _ h => (hok h).elim⟩

/-- What can be printed within a line can be printed anywhere. -/
theorem anywhere (h : Lays false p b) : Lays a p b :=
  ⟨h.aligned.mono, fun hafter hok => startsAfter_mono (h.ends hafter hok)⟩

theorem forget (h : Lays a p b) : Lays a p false :=
  ⟨h.aligned, nofun⟩

theorem empty : Lays a ∅ a :=
  ⟨trivial, fun h _ => h⟩

theorem text (content : String) : Lays a (text content) false :=
  ⟨trivial, nofun⟩

theorem newline : Lays a newline true :=
  ⟨trivial, fun _ _ => rfl⟩

theorem indentTo (depth : Nat) : Lays true (indentTo depth) false :=
  ⟨⟨rfl, trivial⟩, nofun⟩

theorem line (depth : Nat) (content : String) : Lays true (line depth content) true :=
  ((indentTo depth).append (text content)).append newline

theorem fail (depth : Nat) (e : Error) : Lays a (fail depth e) b :=
  ⟨trivial, fun _ h => nomatch h⟩

theorem located {next : String → Printout} (h : ∀ content, Lays a (next content) b)
    (depth : Nat) (path : List String) (content : Except Obstacle String) :
    Lays a (located depth path content next) b := by
  cases content with
  | ok content => exact h content
  | error obstacle => exact fail depth _

theorem orFail {next : String → Printout} (h : ∀ content, Lays a (next content) b)
    (depth : Nat) (content : Except Error String) : Lays a (orFail depth content next) b := by
  cases content with
  | ok content => exact h content
  | error e => exact fail depth e

theorem optional {f : α → Printout} (h : ∀ x, Lays a (f x) a) (o : Option α) :
    Lays a (optional f o) a := by
  cases o with
  | none => exact empty
  | some x => exact h x

theorem ite {cond : Prop} [Decidable cond] (hp : Lays a p b) (hq : Lays a q b) :
    Lays a (if cond then p else q) b := by
  split
  · exact hp
  · exact hq

end Lays

namespace Printer

open Printout

theorem lays_keywords (words : List String) : Lays false (keywords words) false := by
  induction words with
  | nil => exact .empty
  | cons word rest ih => exact ((Lays.text word).append (.text " ")).append ih

theorem lays_description (about : Option String) : Lays false (description about) false :=
  .optional (fun content => (Lays.text " ").append (.text (Text.quote content))) about

/-- Items on lines of their own: each but the last ends its line. -/
theorem lays_separated {a : Bool} {p more : Printout} {rest : List α} (hp : Lays a p false)
    (hmore : Lays true more false) (hlast : rest = [] → more = ∅) :
    Lays a (p ++ separator rest (text "," ++ newline) ++ more) false := by
  cases rest with
  | nil =>
      rw [hlast rfl]
      exact (hp.append .empty).append .empty
  | cons next rest => exact (hp.append ((Lays.text ",").append .newline)).append hmore

mutual

theorem lays_modification (depth : Nat) (path : List String) (m : Modification) :
    Lays false (modification depth path m) false := by
  match m with
  | ⟨entries⟩ =>
      rw [modification]
      split
      · exact .empty
      · exact ((Lays.text "(").append (lays_inlineEntries depth path entries)).append (.text ")")
      · exact ((Lays.text "(").append (lays_inlineEntries depth path entries)).append (.text ")")
      · exact (((Lays.text "(").append .newline).append
          (lays_lineEntries (depth + 1) path entries)).append (.text ")")

theorem lays_inlineEntries (depth : Nat) (path : List String)
    (entries : List (String × Value)) : Lays false (inlineEntries depth path entries) false := by
  match entries with
  | [] => exact .empty
  | (key, value) :: rest =>
      rw [inlineEntries]
      exact ((lays_entry depth (path ++ [key]) key value).append
        (.ite .empty (.text ", "))).append (lays_inlineEntries depth path rest)

theorem lays_lineEntries (depth : Nat) (path : List String)
    (entries : List (String × Value)) : Lays true (lineEntries depth path entries) false := by
  match entries with
  | [] => exact Lays.empty.forget
  | (key, value) :: rest =>
      rw [lineEntries]
      exact lays_separated
        ((Lays.indentTo depth).append (lays_entry depth (path ++ [key]) key value))
        (lays_lineEntries depth path rest) (fun hrest => by rw [hrest]; rfl)

theorem lays_entry (depth : Nat) (path : List String) (key : String) (value : Value) :
    Lays false (entry depth path key value) false := by
  match value with
  | .scalar _ | .tuple _ =>
      rw [entry]
      exact .located (fun content => .text (key ++ "=" ++ content)) ..
  | .map entries =>
      rw [entry]
      exact (Lays.text key).append (lays_modification depth path entries)
  | .assign assignment =>
      rw [entry]
      exact lays_assign depth path key assignment
  | .list items =>
      rw [entry]
      refine (Lays.text key).append ?_
      cases listLayout items with
      | records =>
          have hopen : Lays false (text "=\x7b" ++ newline) true := (Lays.text _).append .newline
          have hrecords := lays_records (depth + 1) path 0 items
          exact (((hopen.append hrecords).append .newline).append (.indentTo depth)).append
            (.text "\x7d")
      | flat content => exact .located (fun content => .text ("=" ++ content)) ..

theorem lays_assign (depth : Nat) (path : List String) (key : String) (a : Assign) :
    Lays false (assign depth path key a) false := by
  match a with
  | ⟨literal, modifications, flags, about, annotations, typeName, precision⟩ =>
      have hmodifications := lays_modification depth path modifications
      have hannotations := lays_modification depth (path ++ ["annotation"]) annotations
      rw [assign]
      refine .orFail (fun _ => ?_) ..
      refine Lays.append (Lays.append (Lays.append ?_ (.optional (fun scalar => ?_) literal))
        (lays_description about)) (.ite .empty ((Lays.text " annotation ").append hannotations))
      · exact (((lays_keywords flags.keywords).append (lays_keywords typeName.toList)).append
          (.text key)).append hmodifications
      · exact .located (fun content => (Lays.text (equalSign modifications)).append
          (.text content)) ..

theorem lays_records (depth : Nat) (path : List String) (index : Nat) (items : List Value) :
    Lays true (records depth path index items) false := by
  match items with
  | [] => exact Lays.empty.forget
  | .map ⟨[(name, value)]⟩ :: rest =>
      rw [records]
      exact lays_separated
        ((Lays.indentTo depth).append
          (lays_entry depth (path ++ [itemSegment index, name]) name value))
        (lays_records depth path (index + 1) rest) (fun hrest => by rw [hrest]; rfl)
  | .map ⟨[]⟩ :: _ | .map ⟨_ :: _ :: _⟩ :: _ => exact .fail ..
  | .scalar _ :: _ | .tuple _ :: _ | .assign _ :: _ | .list _ :: _ => exact .fail ..

end

/-! ## Elements -/

theorem lays_annotationPart (depth : Nat) (path : List String) (annotations : Modification) :
    Lays false (annotationPart depth path annotations) false :=
  .ite .empty ((Lays.text " annotation ").append (lays_modification ..))

theorem lays_closing (depth : Nat) (path : List String) (about : Option String)
    (annotations : Modification) : Lays false (closing depth path about annotations) true :=
  (((lays_description about).append (lays_annotationPart depth path annotations)).append
    (.text ";")).append .newline

/-- Equations, steps and connections differ in their text only. -/
theorem lays_statement (depth : Nat) (content : String) (path : List String)
    (about : Option String) (annotations : Modification) :
    Lays true (indentTo depth ++ text content ++ closing depth path about annotations) true :=
  ((Lays.indentTo depth).append (.text content)).append (lays_closing ..)

theorem lays_extendsClause (depth : Nat) (path : List String) (e : Extends) :
    Lays true (extendsClause depth path e) true :=
  (((((Lays.indentTo depth).append (.text "extends ")).append (.text e.name)).append
    (lays_modification depth path e.modifications)).append (.text ";")).append .newline

/-- Raw text holds what it holds, but each of its lines is ended. -/
theorem lays_rawLines (depth : Nat) (indented : Bool) (lines : List String) :
    Lays true (rawLines depth indented lines) true := by
  induction lines with
  | nil => exact .empty
  | cons content rest ih =>
      rw [rawLines]
      exact (((Lays.ite (Lays.indentTo depth) Lays.empty.forget).append (.text content)).append
        .newline).append ih

theorem lays_declaration (depth : Nat) (path : List String) (d : Declaration) :
    Lays true (declaration depth path d) true := by
  have hvalue : Lays false (Printout.optional (fun value =>
      Printout.located depth (path ++ ["value"]) (bindingText value) fun content =>
        text (equalSign d.modifications) ++ text content) d.value) false :=
    .optional (fun value => .located (fun content =>
      (Lays.text (equalSign d.modifications)).append (.text content)) ..) d.value
  have hcondition : Lays false (Printout.optional (fun condition => text (" if " ++ condition))
      d.condition) false :=
    .optional (fun condition => .text (" if " ++ condition)) d.condition
  rw [declaration]
  exact ((((((Lays.indentTo depth).append (lays_keywords (declarationKeywords d))).append
    (.text _)).append (lays_modification depth path d.modifications)).append hvalue).append
    hcondition).append (lays_closing depth path d.description d.annotations)

mutual

theorem lays_construct (depth : Nat) (path : List String) (c : Construct) :
    Lays true (construct depth path c) true := by
  match c with
  | ⟨kind, bodyKind, test, indices, body, branches, orelse⟩ =>
      rw [construct_eq]
      refine .ite (.orFail (fun content => .line depth content) ..) ?_
      have hopening : Lays true (indentTo depth
          ++ Printout.located depth path (opening kind test indices) text ++ newline) true :=
        ((Lays.indentTo depth).append (.located (fun content => .text content) ..)).append .newline
      have hbody := lays_clauses (depth + 1) path body
      have hbranches : Lays true (branchPart depth path kind branches) true :=
        .optional (fun word => lays_constructBranches depth path word 0 branches) ..
      have helse := lays_elsePart depth path orelse
      exact (((hopening.append hbody).append hbranches).append helse).append (.line depth _)

theorem lays_elsePart (depth : Nat) (path : List String) (orelse : Option (List Clause)) :
    Lays true (elsePart depth path orelse) true := by
  match orelse with
  | none => exact .empty
  | some last =>
      rw [elsePart, optional_some]
      exact (Lays.line depth "else").append (lays_clauses (depth + 1) (path ++ ["else"]) last)

theorem lays_constructBranches (depth : Nat) (path : List String) (word : String) (index : Nat)
    (branches : List Branch) :
    Lays true (constructBranches depth path word index branches) true := by
  match branches with
  | [] => exact .empty
  | ⟨test, body⟩ :: rest =>
      rw [constructBranches]
      exact ((Lays.line depth _).append (lays_clauses (depth + 1) _ body)).append
        (lays_constructBranches depth path word (index + 1) rest)

theorem lays_clauses (depth : Nat) (path : List String) (body : List Clause) :
    Lays true (clauses depth path body) true := by
  match body with
  | [] => exact .empty
  | c :: rest =>
      rw [clauses]
      exact (lays_clause depth path c).append (lays_clauses depth path rest)

theorem lays_clause (depth : Nat) (path : List String) (c : Clause) :
    Lays true (clause depth path c) true := by
  match c with
  | .equation _ | .connection _ | .algorithm _ => exact lays_statement ..
  | .statement _ | .expression _ => exact .line depth _
  | .construct c => exact lays_construct depth path c

end

theorem lays_element (depth : Nat) (path : List String) (e : Element) :
    Lays true (element depth path e) true := by
  cases e with
  | declaration d => exact lays_declaration depth path d
  | equation _ | connection _ | algorithm _ => exact lays_statement ..
  | importClause i => exact .line depth _
  | extendsClause e => exact lays_extendsClause depth path e
  | text t => exact lays_rawLines depth t.indented t.lines
  | construct c => exact lays_construct depth path c

theorem lays_elements (depth : Nat) (path : List String) (index : Nat) (es : List Element) :
    Lays true (elements depth path index es) true := by
  induction es generalizing index with
  | nil => exact .empty
  | cons e rest ih => exact (lays_element depth _ e).append (ih (index + 1))

theorem lays_sectionParts (depth : Nat) (path : List String) (s : Sections)
    (targets : List Section) : Lays true (sectionParts depth path s targets) true := by
  induction targets with
  | nil => exact .empty
  | cons target rest ih =>
      have helements := lays_elements (depth + 1) (path ++ [target.keyword]) 0 (s.get target)
      refine Lays.append ?_ ih
      rw [sectionPart]
      exact .ite helements (.ite .empty ((Lays.line depth _).append helements))

theorem lays_document (depth : Nat) (path : List String) (d : Document) :
    Lays true (document depth path d) true := by
  have hwithin : Lays true (Printout.optional (withinLine depth) d.within) true :=
    .optional (fun within => .line depth _) d.within
  have hsections := lays_sectionParts depth (path ++ [d.ident]) d.sections Section.all
  have hannotations : Lays true (if d.annotations.isEmpty then ∅ else
      text "annotation " ++ modification (depth + 1) (path ++ [d.ident] ++ ["annotation"])
        d.annotations ++ text ";" ++ newline) true :=
    .ite .empty ((((Lays.text "annotation ").append (lays_modification ..)).append
      (.text ";")).append .newline)
  have hflags := (hwithin.append (.indentTo depth)).append (lays_keywords d.flags.keywords)
  have hheader := ((hflags.append (.text "model ")).append (.text d.ident)).append
    (lays_description d.description)
  exact (((hheader.append .newline).append hsections).append hannotations).append (.line depth _)

end Printer

/-- A node can be printed where a line starts. -/
theorem Node.lays (node : Node) : Lays true node.printout false := by
  cases node with
  | document d => exact (Printer.lays_document 0 [] d).forget
  | element e => exact (Printer.lays_element 0 [] e).forget
  | clause c => exact (Printer.lays_clause 0 [] c).forget
  | modification m => exact (Printer.lays_modification 0 [] m).anywhere

/-! ## The text of aligned pieces -/

theorem indentation_eq (unit : String) (levels : Nat) :
    indentation unit levels = String.join (List.replicate levels unit) := by
  induction levels with
  | zero => simp [indentation]
  | succ levels ih => rw [indentation, ih, List.replicate_succ, String.join_cons]

theorem content_eq_layout (options : RenderOptions) (p : Printout) :
    p.content options.indent.unit options.startIndent = options.layout p.pieces := by
  rw [Printout.content, RenderOptions.layout]
  congr 2
  funext piece
  cases piece with
  | text content => rfl
  | indent depth => exact indentation_eq ..

theorem isIndentation_unit (indent : Indent) :
    ∀ c ∈ indent.unit.toList, isIndentation c = true := by
  intro c hmem
  cases indent with
  | tab =>
      obtain rfl : c = '\t' := List.mem_singleton.1 hmem
      rfl
  | spaces count =>
      rw [Indent.unit, String.toList_ofList] at hmem
      rw [List.eq_of_mem_replicate hmem]
      rfl

/-- A blank at the start of a text is one at the start of its first line. -/
theorem unindented_lines_cons {c : Char} (h : isIndentation c = true) (rest : List Char) :
    ((c :: rest).splitOn '\n').map (List.dropWhile isIndentation) =
      (rest.splitOn '\n').map (List.dropWhile isIndentation) := by
  have hbreak : (c == '\n') = false := by
    refine beq_eq_false_iff_ne.2 fun hc => ?_
    rw [hc] at h
    exact absurd h (by decide)
  obtain ⟨line, lines, hlines⟩ := List.exists_cons_of_ne_nil (List.splitOn_ne_nil '\n' rest)
  rw [List.splitOn_cons_eq_if_modifyHead, hbreak, hlines]
  simp [h]

theorem unindented_blank_append {blank rest : String}
    (h : ∀ c ∈ blank.toList, isIndentation c = true) :
    unindented (blank ++ rest) = unindented rest := by
  rw [unindented, unindented, String.toList_append]
  generalize blank.toList = chars at h
  induction chars with
  | nil => rfl
  | cons c more ih =>
      rw [List.forall_mem_cons] at h
      rw [List.cons_append, unindented_lines_cons h.1, ih h.2]

theorem unindented_line_append (line rest : String) :
    unindented (line ++ "\n" ++ rest) = unindented line ++ unindented rest := by
  have hbreak : (line ++ "\n" ++ rest).toList = line.toList ++ '\n' :: rest.toList := by
    simp
  rw [unindented, hbreak, List.splitOn_append_cons_self, List.map_append]
  rfl

theorem AtLineStart.unindented_append {before blank : String} (hstart : AtLineStart before)
    (hblank : ∀ c ∈ blank.toList, isIndentation c = true) (rest : String) :
    unindented (before ++ (blank ++ rest)) = unindented (before ++ rest) := by
  rcases hstart with rfl | ⟨line, rfl⟩
  · simp only [String.empty_append]
    exact unindented_blank_append hblank
  · rw [unindented_line_append, unindented_line_append, unindented_blank_append hblank]

/-- The text of pieces without their indentations. -/
def bareText (pieces : List Piece) : String :=
  String.join (pieces.map fun
    | .text content => content
    | .indent _ => "")

section

variable (options : RenderOptions) {start : Bool} {written : String}

@[simp] theorem layout_nil : options.layout [] = "" :=
  String.join_nil

theorem layout_text (content : String) (rest : List Piece) :
    options.layout (.text content :: rest) = content ++ options.layout rest := by
  rw [RenderOptions.layout, List.map_cons, String.join_cons]
  rfl

theorem layout_indent (depth : Nat) (rest : List Piece) :
    options.layout (.indent depth :: rest) =
      String.join (List.replicate (options.startIndent + depth) options.indent.unit)
        ++ options.layout rest := by
  rw [RenderOptions.layout, List.map_cons, String.join_cons]
  rfl

theorem isIndentation_levels (levels : Nat) :
    ∀ c ∈ (String.join (List.replicate levels options.indent.unit)).toList,
      isIndentation c = true := by
  induction levels with
  | zero => simp
  | succ levels ih =>
      rw [List.replicate_succ, String.join_cons, String.toList_append, List.forall_mem_append]
      exact ⟨isIndentation_unit options.indent, ih⟩

theorem atLineStart_break {content : String} (h : (content == "\n") = true) :
    AtLineStart (written ++ content) :=
  .inr ⟨written, by rw [eq_of_beq h]⟩

/-- Where pieces are aligned, what is written before an indentation ends a line. -/
theorem Aligned.atLineStart {before after : List Piece} {depth : Nat}
    (h : Aligned start (before ++ .indent depth :: after))
    (hstart : start = true → AtLineStart written) :
    AtLineStart (written ++ options.layout before) := by
  induction before generalizing start written with
  | nil =>
      rw [layout_nil, String.append_empty]
      exact hstart h.1
  | cons piece rest ih =>
      cases piece with
      | text content =>
          rw [layout_text, ← String.append_assoc]
          exact ih h atLineStart_break
      | indent depth =>
          rw [layout_indent, ← String.append_assoc]
          exact ih h.2 nofun

/-- Aligned indentations disappear with the blanks and tabs at the start of lines. -/
theorem Aligned.unindented_layout {pieces : List Piece} (h : Aligned start pieces)
    (hstart : start = true → AtLineStart written) :
    unindented (written ++ options.layout pieces) = unindented (written ++ bareText pieces) := by
  induction pieces generalizing start written with
  | nil => rfl
  | cons piece rest ih =>
      cases piece with
      | text content =>
          rw [layout_text, bareText, List.map_cons, String.join_cons, ← String.append_assoc,
            ih h atLineStart_break, String.append_assoc]
          rfl
      | indent depth =>
          rw [layout_indent, (hstart h.1).unindented_append (isIndentation_levels options _),
            ih h.2 nofun, bareText, bareText, List.map_cons, String.join_cons, String.empty_append]

end

/-- There is one list of pieces for a node and every set of options, and each of
its indentations stands where a line starts; a node that fails does so with the
same error under all options. The width changes nothing, and any two outputs
agree but for the blanks and tabs that their lines start with. -/
theorem render_layout_only (node : Node) :
    (∃ (pieces : List Piece) (failure : Option Error),
      (∀ options, render options node =
        match failure with
        | none => .ok (options.layout pieces)
        | some e => .error e) ∧
      ∀ before depth after, pieces = before ++ .indent depth :: after →
        ∀ options : RenderOptions, AtLineStart (options.layout before)) ∧
    (∀ (options : RenderOptions) (width : Nat),
      render { options with width } node = render options node) ∧
    ∀ first second : RenderOptions,
      (render first node).map unindented = (render second node).map unindented := by
  have haligned := node.lays.aligned
  refine ⟨⟨node.printout.pieces, node.printout.fault.map Fault.error, fun options => ?_, ?_⟩,
    fun options width => ?_, fun first second => ?_⟩
  · rw [render_eq, content_eq_layout]
    cases node.printout.fault <;> rfl
  · intro before depth after hpieces options
    rw [hpieces] at haligned
    have hline := haligned.atLineStart options fun _ => .inl rfl
    rwa [String.empty_append] at hline
  · rw [render_eq, render_eq]
  · have hbare : ∀ options : RenderOptions, unindented (options.layout node.printout.pieces) =
        unindented (bareText node.printout.pieces) := by
      intro options
      have h := haligned.unindented_layout options fun _ => .inl rfl
      rwa [String.empty_append, String.empty_append] at h
    rw [render_eq, render_eq, content_eq_layout, content_eq_layout]
    cases node.printout.fault with
    | some fault => rfl
    | none => exact congrArg Except.ok ((hbare first).trans (hbare second).symm)

end ModelSource

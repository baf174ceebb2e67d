import ModelSource.Proofs.Columns
import ModelSource.Render

/-!
# What the pen writes

A pen is moved about while it writes. It goes deeper and has to come back, names are put on
its path and have to be taken off, and at every failure all of this is broken off in the
middle. The printers have none of that: they are given a depth and a path and answer with a
printout. This file shows that the pen writes what the printers say.

`Writes depth path action p` is the statement about one action: wherever a node stands, if
the pen is `depth` levels below it and at `path`, then the action adds the pieces of `p`, and
it ends as `p` ends. Without a fault the pen is back at the depth and the path at which it
started; after one it is back at the path, but as deep as it was when it failed. The rules
below say how this goes through the ways of putting actions together. With them the
induction over a node follows the nesting of the printers, and a level that is opened by
`nested` and closed at the end, or a name that `under` takes off again, is spent in one rule
each.

The loops are the only place where the two go different ways. The pen counts what it has
written and a printer looks at what is left, so the statements about loops say which
separator stands before the first entry, and how far the count is from its end.
-/

namespace ModelSource

namespace Emitter

/-- Adds a piece of a node that stands at depth `start`. -/
def put (start : Nat) (e : Emitter) (piece : Piece) : Emitter :=
  e.write (piece.write e.unit start)

/-- Adds the printout of a node that stands at depth `start`. After a fault the emitter
stays at the depth that was reached. -/
def print (start : Nat) (e : Emitter) (p : Printout) : Except Error Unit × Emitter :=
  let written := p.pieces.foldl (put start) e
  match p.fault with
  | none => (.ok (), written)
  | some fault => (.error fault.error, { written with depth := start + fault.depth })

variable (start : Nat)

theorem foldl_put_depth (pieces : List Piece) (e : Emitter) (depth : Nat) :
    pieces.foldl (put start) { e with depth } = { pieces.foldl (put start) e with depth } := by
  induction pieces generalizing e with
  | nil => rfl
  | cons piece rest ih => exact ih (put start e piece)

theorem depth_foldl_put (pieces : List Piece) (e : Emitter) :
    (pieces.foldl (put start) e).depth = e.depth := by
  induction pieces generalizing e with
  | nil => rfl
  | cons piece rest ih => exact ih (put start e piece)

theorem buffer_foldl_put (pieces : List Piece) (e : Emitter) :
    (pieces.foldl (put start) e).buffer =
      e.buffer ++ String.join (pieces.map (Piece.write e.unit start)) := by
  induction pieces generalizing e with
  | nil => simp
  | cons piece rest ih =>
      rw [List.foldl_cons, ih, List.map_cons, String.join_cons, ← String.append_assoc]
      rfl

/-- A failure leaves everything as it was. -/
theorem print_fail {e : Emitter} {depth : Nat} (hdepth : e.depth = start + depth)
    (error : Error) : e.print start (.fail depth error) = (.error error, e) := by
  show (Except.error error, { e with depth := start + depth }) = (.error error, e)
  rw [← hdepth]

end Emitter

namespace Pen

open Emitter (put)

/-- The action of a pen that stands `depth` levels below a node and at `path` writes what
the printout says. -/
def Writes (depth : Nat) (path : List String) (action : Edit Pen Unit) (p : Printout) : Prop :=
  ∀ (start : Nat) (e : Emitter), e.depth = start + depth →
    action ⟨e, path⟩ = ((e.print start p).1, ⟨(e.print start p).2, path⟩)

namespace Writes

variable {depth : Nat} {path : List String} {action first second : Edit Pen Unit}
  {p q : Printout}

/-! ## Putting actions together -/

theorem nothing : Writes depth path (pure ()) ∅ :=
  fun _ _ _ => rfl

theorem text (content : String) : Writes depth path (write content) (.text content) :=
  fun _ _ _ => rfl

theorem newline : Writes depth path Pen.newline .newline :=
  text "\n"

theorem indent : Writes depth path writeIndent (.indentTo depth) := by
  intro start e hdepth
  show (Except.ok (), Pen.mk e.writeIndent path) =
    (.ok (), ⟨e.write (indentation e.unit (start + depth)), path⟩)
  rw [Emitter.writeIndent_eq, hdepth]

/-- What comes second is not done after a fault, and starts where the first has ended. -/
theorem append (hfirst : Writes depth path first p) (hsecond : Writes depth path second q) :
    Writes depth path (first >>= fun _ => second) (p ++ q) := by
  intro start e hdepth
  rw [Edit.bind_apply, hfirst start e hdepth]
  obtain ⟨pieces, fault⟩ := p
  cases fault with
  | some fault => rfl
  | none =>
      have hback : (pieces.foldl (put start) e).depth = start + depth :=
        (Emitter.depth_foldl_put start pieces e).trans hdepth
      have hprint : e.print start (⟨pieces, none⟩ ++ q) =
          (pieces.foldl (put start) e).print start q := by
        show e.print start ⟨pieces ++ q.pieces, q.fault⟩ = _
        rw [Emitter.print, List.foldl_append]
        rfl
      rw [hprint]
      exact hsecond start _ hback

theorem line (content : String) : Writes depth path (Pen.line content) (.line depth content) := by
  rw [Printout.line, Printout.append_assoc]
  exact indent.append ((text content).append newline)

/-- Texts that are written one after the other are one text. -/
theorem join {s t : String} (hfirst : Writes depth path first (.text s))
    (hsecond : Writes depth path second (.text t)) :
    Writes depth path (first >>= fun _ => second) (.text (s ++ t)) := by
  intro start e hdepth
  rw [hfirst.append hsecond start e hdepth]
  show (Except.ok (), Pen.mk ((e.write s).write t) path) = (.ok (), ⟨e.write (s ++ t), path⟩)
  rw [Emitter.write_write]

/-- An action between two moves that undo each other. Without a fault both are made. -/
theorem between {inner : Nat} (go back : Nat → Nat) (h : Writes inner path action p)
    (hgo : ∀ start, go (start + depth) = start + inner)
    (hback : ∀ start, back (start + inner) = start + depth) :
    Writes depth path
      (do
        emit fun e => { e with depth := go e.depth }
        action
        emit fun e => { e with depth := back e.depth }) p := by
  intro start e hdepth
  have hthere : go e.depth = start + inner := by rw [hdepth, hgo]
  have hinner := h start { e with depth := go e.depth } hthere
  obtain ⟨pieces, fault⟩ := p
  rw [Emitter.print, Emitter.foldl_put_depth] at hinner
  rw [Edit.bind_apply]
  show (action >>= fun _ => emit fun e => { e with depth := back e.depth })
    ⟨{ e with depth := go e.depth }, path⟩ = _
  rw [Edit.bind_apply, hinner]
  cases fault with
  | some fault => rfl
  | none =>
      have hagain : back (go e.depth) = (pieces.foldl (put start) e).depth := by
        rw [hthere, hback, Emitter.depth_foldl_put, hdepth]
      show (Except.ok (),
        Pen.mk { pieces.foldl (put start) e with depth := back (go e.depth) } path) = _
      rw [hagain]
      rfl

theorem nested (h : Writes (depth + 1) path action p) :
    Writes depth path (Pen.nested action) p :=
  between (· + 1) (· - 1) h (fun _ => rfl) fun _ => rfl

/-- There is a level to come up from. -/
theorem outdented (h : Writes depth path action p) :
    Writes (depth + 1) path (Pen.outdented action) p :=
  between (· - 1) (· + 1) h (fun _ => rfl) fun _ => rfl

theorem under {segment : String} (h : Writes depth (path ++ [segment]) action p) :
    Writes depth path (Pen.under segment action) p := by
  intro start e hdepth
  rw [Pen.under]
  simp only [h start e hdepth, List.dropLast_concat]

theorem unsupported (obstacle : Obstacle) :
    Writes depth path (Pen.unsupported obstacle) (.fail depth (.unsupported obstacle path)) := by
  intro start e hdepth
  rw [Emitter.print_fail start hdepth]
  rfl

theorem located {content : Except Obstacle String} {next : String → Edit Pen Unit}
    {continued : String → Printout}
    (h : ∀ text, Writes depth path (next text) (continued text)) :
    Writes depth path (Pen.located content >>= next)
      (.located depth path content continued) := by
  cases content with
  | ok text => exact h text
  | error obstacle =>
      intro start e hdepth
      rw [Edit.bind_apply, Printout.located, Emitter.print_fail start hdepth]
      rfl

/-- A text that is looked for at a name of its own. -/
theorem located_under {segment : String} {content : Except Obstacle String}
    {next : String → Edit Pen Unit} {continued : String → Printout}
    (h : ∀ text, Writes depth path (next text) (continued text)) :
    Writes depth path (Pen.under segment (Pen.located content) >>= next)
      (.located depth (path ++ [segment]) content continued) := by
  intro start e hdepth
  rw [Edit.bind_apply, Pen.under]
  cases content with
  | ok text =>
      have hback : (path ++ [segment]).dropLast = path := List.dropLast_concat
      show next text ⟨e, (path ++ [segment]).dropLast⟩ = _
      rw [hback]
      exact h text start e hdepth
  | error obstacle =>
      rw [Printout.located, Emitter.print_fail start hdepth]
      show (Except.error _, Pen.mk e (path ++ [segment]).dropLast) = _
      rw [List.dropLast_concat]

theorem answer {α : Type} {content : Except Error α} {texts : α → String}
    {next : α → Edit Pen Unit} {continued : String → Printout}
    (h : ∀ a, Writes depth path (next a) (continued (texts a))) :
    Writes depth path (Edit.answer content >>= next)
      (.orFail depth (content.map texts) continued) := by
  cases content with
  | ok a => exact h a
  | error error =>
      intro start e hdepth
      have hfail : Printout.orFail depth ((Except.error error).map texts) continued =
          .fail depth error := rfl
      rw [Edit.bind_apply, hfail, Emitter.print_fail start hdepth]
      rfl

theorem optional {α : Type} {act : α → Edit Pen Unit} {printed : α → Printout}
    (h : ∀ a, Writes depth path (act a) (printed a)) (o : Option α) :
    Writes depth path (Pen.optional act o) (.optional printed o) := by
  cases o with
  | none => exact nothing
  | some a => exact h a

theorem only {needed : Prop} [Decidable needed] (h : Writes depth path action p) :
    Writes depth path (Pen.only needed action) (if needed then p else ∅) := by
  rw [Pen.only]
  split
  · exact h
  · exact nothing

theorem description (about : Option String) :
    Writes depth path (Pen.description about) (Printer.description about) :=
  optional (fun content => (text " ").append (text (Text.quote content))) about

theorem keywords (words : List String) :
    Writes depth path (Pen.keywords words) (Printer.keywords words) := by
  induction words with
  | nil => exact nothing
  | cons word rest ih =>
      rw [Pen.keywords, Printer.keywords, Printout.append_assoc]
      exact (text word).append ((text " ").append ih)

theorem lineEnd : Writes depth path Pen.lineEnd (.text "," ++ .newline) :=
  (text ",").append newline

/-- Annotations are left out if there are none. -/
theorem annotating {absent : Bool} {content : Edit Pen Unit}
    (h : Writes depth (path ++ ["annotation"]) content p) :
    Writes depth path (Pen.annotating absent content)
      (if absent then ∅ else .text " annotation " ++ p) := by
  rw [← ite_not]
  exact only (under ((text " annotation ").append h))

/-! ## Modifications -/

/-- Counting up to the number of items tells the last item like looking at the rest. -/
theorem separator_eq (index : Nat) (item : α) (rest : List α) (mark : Printout) :
    Printer.separator rest mark =
      if index + 1 < index + (item :: rest).length then mark else ∅ := by
  cases rest with
  | nil =>
      have hlast : ¬ index + 1 < index + [item].length := Nat.lt_irrefl _
      rw [if_neg hlast]
      rfl
  | cons next rest =>
      have hmore : index + 1 < index + (item :: next :: rest).length := by
        rw [List.length_cons, List.length_cons]
        omega
      rw [if_pos hmore]
      rfl

/-- The count ends where it ended one item earlier. -/
theorem count_cons (index : Nat) (item : α) (rest : List α) :
    index + 1 + rest.length = index + (item :: rest).length := by
  rw [List.length_cons]
  omega

mutual

theorem modification (depth : Nat) (path : List String) (m : Modification) :
    Writes depth path (Pen.modification m) (Printer.modification depth path m) := by
  match m with
  | ⟨entries⟩ =>
      have hinline := inlineEntries depth path 0 entries
      have hlines := lineEntries (depth + 1) path 0 entries
      rw [if_neg (Nat.lt_irrefl 0), Printout.empty_append] at hinline
      rw [Nat.zero_add] at hlines
      have hfew := (text "(").append (hinline.append (text ")"))
      have hmany := (nested ((text "(").append (newline.append hlines))).append (text ")")
      rw [← Printout.append_assoc] at hfew
      rw [← Printout.append_assoc] at hmany
      rw [Pen.modification, Printer.modification]
      rcases hlength : entries.length with _ | _ | _ | more
      · exact nothing
      · exact hfew
      · exact hfew
      · rw [hlength] at hmany
        exact hmany

theorem inlineEntries (depth : Nat) (path : List String) (index : Nat)
    (entries : List (String × Value)) :
    Writes depth path (Pen.inlineEntries index entries)
      ((if 0 < index then Printer.separator entries (.text ", ") else ∅)
        ++ Printer.inlineEntries depth path entries) := by
  match entries with
  | [] =>
      rw [Pen.inlineEntries, Printer.inlineEntries]
      split <;> exact nothing
  | (key, value) :: rest =>
      have hrest := inlineEntries depth path (index + 1) rest
      rw [if_pos (Nat.succ_pos index)] at hrest
      rw [Pen.inlineEntries, Printer.inlineEntries, Printout.append_assoc]
      exact (only (text ", ")).append ((entry depth path key value).append hrest)

theorem lineEntries (depth : Nat) (path : List String) (index : Nat)
    (entries : List (String × Value)) :
    Writes depth path (Pen.lineEntries (index + entries.length) index entries)
      (Printer.lineEntries depth path entries) := by
  match entries with
  | [] =>
      rw [Pen.lineEntries, Printer.lineEntries]
      exact nothing
  | (key, value) :: rest =>
      have hrest := lineEntries depth path (index + 1) rest
      rw [count_cons index (key, value)] at hrest
      rw [Pen.lineEntries, Printer.lineEntries, separator_eq index (key, value)]
      simp only [Printout.append_assoc]
      exact indent.append ((entry depth path key value).append
        ((only lineEnd).append hrest))

theorem entry (depth : Nat) (path : List String) (key : String) (value : Value) :
    Writes depth path (Pen.entry key value) (Printer.entry depth (path ++ [key]) key value) := by
  match value with
  | .scalar _ | .tuple _ =>
      rw [Pen.entry, Printer.entry]
      exact under (located fun content => text (key ++ "=" ++ content))
  | .map entries =>
      rw [Pen.entry, Printer.entry]
      exact under ((text key).append (modification depth (path ++ [key]) entries))
  | .assign assignment =>
      rw [Pen.entry, Printer.entry]
      exact under (assign depth (path ++ [key]) key assignment)
  | .list items =>
      have hrecords := records (depth + 1) (path ++ [key]) 0 items
      rw [Nat.zero_add] at hrecords
      rw [Pen.entry, Printer.entry]
      refine under ((text key).append ?_)
      cases Printer.listLayout items with
      | records =>
          simp only [Printout.append_assoc]
          exact (text "=\x7b").append (newline.append ((nested hrecords).append
            (newline.append (indent.append (text "\x7d")))))
      | flat content => exact located fun content => text ("=" ++ content)

theorem assign (depth : Nat) (path : List String) (key : String) (a : Assign) :
    Writes depth path (Pen.assign key a) (Printer.assign depth path key a) := by
  match a with
  | ⟨literal, modifications, flags, about, annotations, typeName, precision⟩ =>
      have hmap := modification depth path modifications
      have hannotations := modification depth (path ++ ["annotation"]) annotations
      rw [Pen.assign, Printer.assign]
      refine answer fun _ => ?_
      simp only [Printout.append_assoc]
      refine (keywords flags.keywords).append ((keywords typeName.toList).append
        ((text key).append (hmap.append (append (optional (fun scalar => ?_) literal)
          ((description about).append (annotating hannotations))))))
      exact located fun content => (text _).append (text content)

theorem records (depth : Nat) (path : List String) (index : Nat) (items : List Value) :
    Writes depth path (Pen.records (index + items.length) index items)
      (Printer.records depth path index items) := by
  match items with
  | [] =>
      rw [Pen.records, Printer.records]
      exact nothing
  | .map ⟨[(name, value)]⟩ :: rest =>
      have hentry := entry depth (path ++ [Printer.itemSegment index]) name value
      have hrest := records depth path (index + 1) rest
      rw [List.append_assoc] at hentry
      rw [count_cons index (Value.map ⟨[(name, value)]⟩)] at hrest
      rw [Pen.records, Printer.records, separator_eq index (Value.map ⟨[(name, value)]⟩)]
      simp only [Printout.append_assoc]
      exact indent.append ((under hentry).append ((only lineEnd).append hrest))
  | .map ⟨[]⟩ :: _ | .map ⟨_ :: _ :: _⟩ :: _ => exact unsupported _
  | .scalar _ :: _ | .tuple _ :: _ | .assign _ :: _ | .list _ :: _ => exact unsupported _

end

/-! ## Elements -/

theorem closing (depth : Nat) (path : List String) (about : Option String)
    (annotations : Modification) :
    Writes depth path (Pen.closing about annotations)
      (Printer.closing depth path about annotations) := by
  have hannotations := modification depth (path ++ ["annotation"]) annotations
  rw [Printer.closing]
  simp only [Printout.append_assoc]
  exact (description about).append ((annotating hannotations).append ((text ";").append newline))

/-- Equations, steps and connections differ in their text only. -/
theorem statement (content : String) (about : Option String) (annotations : Modification) :
    Writes depth path
      (do
        writeIndent
        write content
        Pen.closing about annotations)
      (.indentTo depth ++ .text content ++ Printer.closing depth path about annotations) := by
  rw [Printout.append_assoc]
  exact indent.append ((text content).append (closing depth path about annotations))

theorem extendsClause (depth : Nat) (path : List String) (e : Extends) :
    Writes depth path (Pen.extendsClause e) (Printer.extendsClause depth path e) := by
  rw [Printer.extendsClause]
  simp only [Printout.append_assoc]
  exact indent.append ((text "extends ").append ((text e.name).append
    ((modification depth path e.modifications).append ((text ";").append newline))))

theorem rawLines (depth : Nat) (path : List String) (indented : Bool) (lines : List String) :
    Writes depth path (Pen.rawLines indented lines) (Printer.rawLines depth indented lines) := by
  induction lines with
  | nil => exact nothing
  | cons content rest ih =>
      rw [Printer.rawLines]
      simp only [Printout.append_assoc]
      exact (only indent).append ((text content).append (newline.append ih))

theorem subscripts (subscripts : List String) :
    Writes depth path
      (Pen.only (¬ subscripts.isEmpty)
        (write ("[" ++ String.intercalate "," subscripts ++ "]")))
      (.text (Printer.subscriptText subscripts)) := by
  rw [Printer.subscriptText, Pen.only, ite_not]
  split
  · -- no text is written, which is to write the empty one
    intro start e _
    show (Except.ok (), Pen.mk e path) = (.ok (), ⟨e.write "", path⟩)
    rw [Emitter.write_empty]
  · exact text _

theorem typeAndName (d : Declaration) :
    Writes depth path (Pen.typeAndName d)
      (.text (d.typeName ++ Printer.subscriptText d.subscripts ++ " " ++ d.ident)) := by
  rw [String.append_assoc, String.append_assoc]
  exact join (text d.typeName) (join (subscripts d.subscripts) (join (text " ") (text d.ident)))

theorem declaration (depth : Nat) (path : List String) (d : Declaration) :
    Writes depth path (Pen.declaration d) (Printer.declaration depth path d) := by
  rw [Printer.declaration]
  simp only [Printout.append_assoc]
  refine indent.append ((keywords _).append ((typeAndName d).append
    ((modification depth path d.modifications).append (append (optional (fun value => ?_) d.value)
      (append (optional (fun condition => ?_) d.condition)
        (closing depth path d.description d.annotations))))))
  · exact located_under fun content => (text _).append (text content)
  · exact join (text " if ") (text condition)

mutual

theorem construct (depth : Nat) (path : List String) (c : Construct) :
    Writes depth path (Pen.construct c) (Printer.construct depth path c) := by
  match c with
  | ⟨kind, bodyKind, test, indices, body, branches, orelse⟩ =>
      have hbody := nested (clauses (depth + 1) path body)
      have hbranches := fun word => constructBranches depth path word 0 branches
      have helse := elsePart depth path orelse
      rw [Pen.construct.eq_def, Printer.construct.eq_def]
      simp only
      split
      · generalize Construct.inline _ = content
        have hline : Writes depth path (Edit.answer content >>= Pen.line)
            (.orFail depth (content.map id) (.line depth)) := answer line
        rwa [Except.map_id] at hline
      · simp only [Printout.append_assoc]
        refine indent.append (append (located fun content => text content)
          (newline.append (hbody.append (append ?_ (helse.append (line _))))))
        cases kind.branchKeyword with
        | none => exact nothing
        | some word => exact hbranches word

theorem elsePart (depth : Nat) (path : List String) (orelse : Option (List Clause)) :
    Writes depth path
      (match orelse with
        | some last => do
          Pen.line "else"
          Pen.under "else" (Pen.nested (Pen.clauses last))
        | none => pure ())
      (match orelse with
        | some last =>
          .line depth "else" ++ Printer.clauses (depth + 1) (path ++ ["else"]) last
        | none => ∅) := by
  match orelse with
  | none => exact nothing
  | some last => exact (line "else").append (under (nested (clauses _ _ last)))

theorem constructBranches (depth : Nat) (path : List String) (word : String) (index : Nat)
    (branches : List Branch) :
    Writes depth path (Pen.constructBranches word index branches)
      (Printer.constructBranches depth path word index branches) := by
  match branches with
  | [] =>
      rw [Pen.constructBranches, Printer.constructBranches]
      exact nothing
  | ⟨test, body⟩ :: rest =>
      rw [Pen.constructBranches, Printer.constructBranches, Printout.append_assoc]
      exact (line _).append ((under (nested (clauses _ _ body))).append
        (constructBranches depth path word (index + 1) rest))

theorem clauses (depth : Nat) (path : List String) (body : List Clause) :
    Writes depth path (Pen.clauses body) (Printer.clauses depth path body) := by
  match body with
  | [] =>
      rw [Pen.clauses, Printer.clauses]
      exact nothing
  | c :: rest =>
      rw [Pen.clauses, Printer.clauses]
      exact (clause depth path c).append (clauses depth path rest)

theorem clause (depth : Nat) (path : List String) (c : Clause) :
    Writes depth path (Pen.clause c) (Printer.clause depth path c) := by
  match c with
  | .equation _ | .connection _ | .algorithm _ => exact statement _ _ _
  | .statement _ | .expression _ => exact line _
  | .construct c => exact construct depth path c

end

theorem element (depth : Nat) (path : List String) (e : Element) :
    Writes depth path (Pen.element e) (Printer.element depth path e) := by
  cases e with
  | declaration d => exact declaration depth path d
  | equation _ | connection _ | algorithm _ => exact statement _ _ _
  | importClause i => exact line _
  | extendsClause e => exact extendsClause depth path e
  | text t => exact rawLines depth path t.indented t.lines
  | construct c => exact construct depth path c

/-! ## Documents -/

theorem elements (depth : Nat) (path : List String) (index : Nat) (es : List Element) :
    Writes depth path (Pen.elements index es) (Printer.elements depth path index es) := by
  induction es generalizing index with
  | nil => exact nothing
  | cons e rest ih => exact (under (element depth _ e)).append (ih (index + 1))

/-- The words that open a section stand one level up from its elements. -/
theorem sectionPart (depth : Nat) (path : List String) (s : Sections) (target : Section) :
    Writes (depth + 1) path (Pen.sectionPart s target)
      (Printer.sectionPart depth path s target) := by
  have hcontent := under (elements (depth + 1) (path ++ [target.keyword]) 0 (s.get target))
  unfold Pen.sectionPart Printer.sectionPart
  split
  · exact hcontent
  · split
    · exact nothing
    · exact (outdented (line target.keyword)).append hcontent

theorem sectionParts (depth : Nat) (path : List String) (s : Sections) (targets : List Section) :
    Writes (depth + 1) path (Pen.sectionParts s targets)
      (Printer.sectionParts depth path s targets) := by
  induction targets with
  | nil => exact nothing
  | cons target rest ih => exact (sectionPart depth path s target).append ih

theorem withinLine (within : Within) :
    Writes depth path (Pen.withinLine within) (Printer.withinLine depth within) := by
  unfold Pen.withinLine Printer.withinLine
  cases within.name with
  | none => exact line _
  | some name => exact line _

theorem documentAnnotations (depth : Nat) (path : List String) (annotations : Modification) :
    Writes depth path (Pen.documentAnnotations annotations)
      (if annotations.isEmpty then ∅
        else .text "annotation " ++ Printer.modification depth (path ++ ["annotation"]) annotations
          ++ .text ";" ++ .newline) := by
  have hcontent := modification depth (path ++ ["annotation"]) annotations
  rw [← ite_not]
  simp only [Printout.append_assoc]
  exact only (under ((text "annotation ").append (hcontent.append ((text ";").append newline))))

theorem document (depth : Nat) (path : List String) (d : Document) :
    Writes depth path (Pen.document d) (Printer.document depth path d) := by
  have hsections := sectionParts depth (path ++ [d.ident]) d.sections Section.all
  have hannotations := documentAnnotations (depth + 1) (path ++ [d.ident]) d.annotations
  have hbody := (nested (hsections.append hannotations)).append (line ("end " ++ d.ident ++ ";"))
  rw [Printer.document]
  simp only [Printout.append_assoc] at hbody ⊢
  exact under ((optional withinLine d.within).append (indent.append
    ((keywords d.flags.keywords).append ((text "model ").append ((text d.ident).append
      ((description d.description).append (newline.append hbody)))))))

theorem node (node : Node) : Writes 0 [] (Pen.node node) node.printout := by
  cases node with
  | document d => exact document 0 [] d
  | element e => exact element 0 [] e
  | clause c => exact clause 0 [] c
  | modification m => exact modification 0 [] m

end Writes

end Pen

/-- A node prints its printout, from any emitter at any depth. -/
theorem Emitter.printNode_eq (e : Emitter) (node : Node) :
    e.printNode node = e.print e.depth node.printout := by
  have h := Pen.Writes.node node e.depth e (Nat.add_zero _).symm
  rw [printNode, h]

/-- A node that is printed to its end leaves the emitter as deep as it was. -/
theorem Emitter.depth_printNode {e : Emitter} {node : Node} (h : (e.printNode node).1 = .ok ()) :
    (e.printNode node).2.depth = e.depth := by
  rw [printNode_eq, print] at h ⊢
  cases hfault : node.printout.fault with
  | some fault =>
      rw [hfault] at h
      cases h
  | none => exact depth_foldl_put e.depth node.printout.pieces e

end ModelSource

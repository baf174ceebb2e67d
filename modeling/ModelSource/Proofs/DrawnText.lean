import ModelSource.Proofs.Atomicity
import ModelSource.Proofs.Built

/-!
# Drawing connections leaves a document its text

Drawing writes into the annotations of connections. What it writes there it has
read from the annotations of declarations: two scalars for each end of a line,
whoever put them there and in whatever shape. So nothing about a drawn line can be
taken for granted but one thing: a document that has a text has written those
scalars already, where they came from.

A value is `Expressible` if none of its visits is refused. Maps pass this on to
their entries and back (`Modification.expressible_iff`), and so it is followed from
the annotations of a declaration down to an origin, and from two origins up to the
annotations of a connection. With that the drawn document has a text, and
since no other element has changed, the texts differ only behind the description
of a drawn connection.
-/

namespace ModelSource

/-! ## Values that can be written -/

/-- The literal can be written. -/
def Scalar.Expressible (s : Scalar) : Prop :=
  firstError (literalVisits [] [s]) = none

/-- Nothing inside the value is refused. -/
def Value.Expressible (v : Value) : Prop :=
  firstError (v.visits []) = none

def Modification.Expressible (m : Modification) : Prop :=
  firstError (m.visits []) = none

/-- Where a value stands decides on how it is refused, not on whether. -/
theorem Value.expressible_iff (path : List String) {v : Value} :
    v.Expressible ↔ firstError (v.visits path) = none := by
  have hbelow := Printer.entry_below 0 path 0 [] "" v
  rw [List.append_nil] at hbelow
  rw [Expressible, ← Printer.error?_entry 0 path "", hbelow, Printout.error?_below,
    Printer.error?_entry, Option.map_eq_none_iff]

theorem Modification.expressible_at (path : List String) {m : Modification} :
    m.Expressible ↔ firstError (m.visits path) = none := by
  have hbelow := Printer.modification_below 0 path 0 [] m
  rw [List.append_nil] at hbelow
  rw [Expressible, ← Printer.error?_modification 0 path, hbelow, Printout.error?_below,
    Printer.error?_modification, Option.map_eq_none_iff]

theorem firstError_append_eq_none {first second : List Visit} :
    firstError (first ++ second) = none ↔ firstError first = none ∧ firstError second = none := by
  rw [firstError_append, Option.or_eq_none_iff]

/-- A map can be written if all its entries can. -/
theorem Modification.expressible_iff {m : Modification} :
    m.Expressible ↔ ∀ entry ∈ m.entries, entry.2.Expressible := by
  obtain ⟨entries⟩ := m
  rw [Expressible, Modification.visits]
  induction entries with
  | nil => simp [entryVisits]
  | cons entry rest ih =>
      obtain ⟨key, value⟩ := entry
      rw [entryVisits, firstError_append_eq_none, ih, List.forall_mem_cons,
        ← Value.expressible_iff]

theorem Value.expressible_map {m : Modification} : (Value.map m).Expressible ↔ m.Expressible := by
  rw [Expressible, Value.visits, Modification.Expressible]

theorem Value.expressible_point {x y : Scalar} :
    (Value.point x y).Expressible ↔ x.Expressible ∧ y.Expressible := by
  simp [Value.point, Value.Expressible, Scalar.Expressible, Value.visits, Value.shape,
    memberVisits, firstError_cons, Visit.error?]

theorem Value.expressible_pair {x y : Scalar} :
    (Value.tuple [x, y]).Expressible ↔ x.Expressible ∧ y.Expressible := by
  rw [Expressible, Value.visits, Printer.literalVisits_cons, firstError_append_eq_none]
  rfl

theorem lineColour_expressible : lineColour.Expressible :=
  rfl

theorem Value.expressible_points {a b : Scalar × Scalar} :
    (Value.list [.point a.1 a.2, .point b.1 b.2]).Expressible ↔
      (a.1.Expressible ∧ a.2.Expressible) ∧ b.1.Expressible ∧ b.2.Expressible := by
  simp [Value.point, Value.Expressible, Scalar.Expressible, Value.visits, Value.shape,
    rowVisits, memberVisits, firstError_cons, Visit.error?, and_assoc]

/-! ## From the declarations to the lines -/

theorem Ordered.mem_put {name : String} {value : α} {entries : List (String × α)}
    {entry : String × α} (h : entry ∈ put name value entries) :
    entry.2 = value ∨ entry ∈ entries := by
  induction entries with
  | nil =>
      obtain rfl := List.mem_singleton.1 h
      exact .inl rfl
  | cons first rest ih =>
      obtain ⟨key, old⟩ := first
      rw [put] at h
      split at h
      · rcases List.mem_cons.1 h with rfl | hrest
        · exact .inl rfl
        · exact .inr (List.mem_cons_of_mem _ hrest)
      · rcases List.mem_cons.1 h with rfl | hrest
        · exact .inr List.mem_cons_self
        · exact (ih hrest).imp_right (List.mem_cons_of_mem _)

namespace Modification

variable {m inner : Modification} {name : String} {value : Value}

theorem Expressible.set (hm : m.Expressible) (hvalue : value.Expressible) :
    (m.set name value).Expressible := by
  rw [expressible_iff] at hm ⊢
  intro entry hentry
  rcases Ordered.mem_put hentry with heq | hold
  · rwa [heq]
  · exact hm entry hold

theorem Expressible.get? (hm : m.Expressible) (h : m.get? name = some value) :
    value.Expressible := by
  obtain ⟨before, after, hentries, -⟩ := List.lookup_eq_some_iff.1 h
  refine expressible_iff.1 hm (name, value) ?_
  rw [hentries]
  exact List.mem_append_right _ List.mem_cons_self

/-- A path leads from a map that can be written into another one. -/
theorem Expressible.readFrom (hm : m.Expressible) {walked path : List String}
    (h : m.readFrom walked path = .ok (some inner)) : inner.Expressible := by
  induction path generalizing m walked with
  | nil =>
      cases h
      exact hm
  | cons name rest ih =>
      rw [Modification.readFrom] at h
      split at h
      · cases h
      · next next hnext => exact ih (Value.expressible_map.1 (hm.get? hnext)) h
      · cases h

theorem Expressible.mapAt (hm : m.Expressible) (h : m.mapAt name = .ok inner) :
    inner.Expressible := by
  rcases mapAt_eq_ok h with hthere | ⟨-, rfl⟩
  · exact Value.expressible_map.1 (hm.get? hthere)
  · rfl

end Modification

/-- An origin is read off annotations in one of two shapes, and in both its
coordinates were written. -/
theorem Placement.expressible_origin {annotations : Modification} {a : Scalar × Scalar}
    (hm : annotations.Expressible) (h : originOf? annotations = some a) :
    a.1.Expressible ∧ a.2.Expressible := by
  rw [originOf?] at h
  split at h
  · next transformation hread =>
      obtain ⟨value, hvalue, hpoint⟩ := Option.bind_eq_some_iff.1 h
      have hexpressible := (hm.readFrom hread).get? hvalue
      unfold pointOf? at hpoint
      split at hpoint
      · cases hpoint
        exact Value.expressible_point.1 hexpressible
      · cases hpoint
        exact Value.expressible_pair.1 hexpressible
      · cases hpoint
  · cases h

namespace Connection

/-- The connection with a line in its annotations, drawn over the map that was there. -/
def lined (c : Connection) (line : Modification) (a b : Scalar × Scalar) : Connection :=
  { c with
    annotations := c.annotations.set "Line" (.map
      ((line.set "points" (.list [.point a.1 a.2, .point b.1 b.2])).set "color" lineColour)) }

/-- A line goes into the map of its entry, or the entry is in its way. -/
theorem drawLine_cases (c : Connection) (a b : Scalar × Scalar) :
    (∃ line, c.annotations.mapAt "Line" = .ok line ∧ c.drawLine a b = (.ok (), c.lined line a b)) ∨
      ∃ shape, c.annotations.mapAt "Line" = .error shape ∧
        c.drawLine a b = (.error (.violation (.occupiedEntry ["Line"] shape)), c) := by
  rw [drawLine, Modification.descend]
  cases hline : c.annotations.mapAt "Line" with
  | ok line =>
      rw [Modification.descendFrom_cons_ok hline]
      exact .inl ⟨line, rfl, rfl⟩
  | error shape =>
      rw [Modification.descendFrom_cons_error hline]
      exact .inr ⟨shape, rfl, rfl⟩

theorem lined_expressible {c : Connection} {line : Modification} {a b : Scalar × Scalar}
    (hc : c.annotations.Expressible) (hline : c.annotations.mapAt "Line" = .ok line)
    (ha : a.1.Expressible ∧ a.2.Expressible) (hb : b.1.Expressible ∧ b.2.Expressible) :
    (c.lined line a b).annotations.Expressible := by
  have hpoints := Value.expressible_points.2 ⟨ha, hb⟩
  exact hc.set (Value.expressible_map.2 (((hc.mapAt hline).set hpoints).set
    lineColour_expressible))

end Connection

/-! ## What drawing leaves -/

/-- Both owners have an origin. -/
def Connection.Placed (origin : String → Option (Scalar × Scalar)) (c : Connection) : Prop :=
  ∃ a b, origin c.owners.1 = some a ∧ origin c.owners.2 = some b

/-- An element that is no placed connection stays; a placed one gets its line. -/
inductive Element.Drawn (origin : String → Option (Scalar × Scalar)) : Element → Element → Prop
  | kept {e : Element} (h : ∀ c, e = .connection c → ¬ c.Placed origin) : Drawn origin e e
  | lined {c : Connection} {line : Modification} {a b : Scalar × Scalar}
      (first : origin c.owners.1 = some a) (second : origin c.owners.2 = some b)
      (hline : c.annotations.mapAt "Line" = .ok line) :
      Drawn origin (.connection c) (.connection (c.lined line a b))

/-- The element is a placed connection. -/
def Element.isPlaced (origin : String → Option (Scalar × Scalar)) : Element → Bool
  | .connection c => (origin c.owners.1).isSome && (origin c.owners.2).isSome
  | _ => false

theorem Element.isPlaced_iff {origin : String → Option (Scalar × Scalar)} {e : Element} :
    e.isPlaced origin = true ↔ ∃ c, e = .connection c ∧ c.Placed origin := by
  cases e <;> simp [isPlaced, Connection.Placed, Option.isSome_iff_exists]

namespace Document

variable {origin : String → Option (Scalar × Scalar)} {element : Element}

/-- An element that is left alone leaves the answer to the rest. -/
theorem drawElements_kept (h : element.isPlaced origin = false) (rest : List Element) :
    drawElements origin (element :: rest) =
      ((drawElements origin rest).1, element :: (drawElements origin rest).2) := by
  cases element with
  | connection c =>
      rw [drawElements]
      split
      · next a b ha hb => simp [Element.isPlaced, ha, hb] at h
      · rfl
  | declaration | equation | algorithm | importClause | extendsClause | text | construct => rfl

/-- Drawing goes through all elements and counts the placed connections, or it is stopped
at the first of them with an entry in the way of its line; what stands before that one is
drawn, and what stands behind it is left alone. -/
theorem drawElements_cases (origin : String → Option (Scalar × Scalar)) (elements : List Element) :
    (∃ drawn, drawElements origin elements = (.ok (elements.countP (·.isPlaced origin)), drawn) ∧
        List.Forall₂ (Element.Drawn origin) elements drawn) ∨
      ∃ before c rest drawn shape, elements = before ++ .connection c :: rest ∧
        c.Placed origin ∧ c.annotations.mapAt "Line" = .error shape ∧
        List.Forall₂ (Element.Drawn origin) before drawn ∧
        drawElements origin elements =
          (.error (.violation (.occupiedEntry ["Line"] shape)),
            drawn ++ .connection c :: rest) := by
  induction elements with
  | nil => exact .inl ⟨[], rfl, .nil⟩
  | cons element rest ih =>
      cases hplaced : element.isPlaced origin with
      | false =>
          have hkept : Element.Drawn origin element element := .kept fun c heq hc => by
            rw [Element.isPlaced_iff.2 ⟨c, heq, hc⟩] at hplaced
            cases hplaced
          rw [drawElements_kept hplaced, List.countP_cons_of_neg (by simp [hplaced])]
          rcases ih with
            ⟨drawn, hdraw, hdrawn⟩ |
              ⟨before, c, behind, drawn, shape, rfl, hc, hline, hdrawn, hdraw⟩
          · exact .inl ⟨element :: drawn, by rw [hdraw], .cons hkept hdrawn⟩
          · exact .inr ⟨element :: before, c, behind, element :: drawn, shape, rfl, hc, hline,
              .cons hkept hdrawn, by rw [hdraw]; rfl⟩
      | true =>
          obtain ⟨c, rfl, a, b, ha, hb⟩ := Element.isPlaced_iff.1 hplaced
          rw [drawElements, List.countP_cons_of_pos hplaced]
          simp only [ha, hb]
          rcases c.drawLine_cases a b with ⟨line, hline, hdraw⟩ | ⟨shape, hline, hdraw⟩
          · have hlined : Element.Drawn origin (.connection c) (.connection (c.lined line a b)) :=
              .lined ha hb hline
            simp only [hdraw]
            rcases ih with
              ⟨drawn, hrest, hdrawn⟩ |
                ⟨before, c', behind, drawn, shape, rfl, hc, hline', hdrawn, hrest⟩
            · exact .inl ⟨_ :: drawn, by rw [hrest]; rfl, .cons hlined hdrawn⟩
            · exact .inr ⟨.connection c :: before, c', behind, _ :: drawn, shape, rfl, hc, hline',
                .cons hlined hdrawn, by rw [hrest]; rfl⟩
          · exact .inr ⟨[], c, rest, [], shape, rfl, ⟨a, b, ha, hb⟩, hline, .nil,
              by rw [hdraw]; rfl⟩

end Document

/-! ## Which elements have a text -/

theorem Printout.ok_iff {p : Printout} : p.Ok ↔ p.error? = none := by
  rw [Ok, error?, Option.map_eq_none_iff]

theorem Element.Writable.renders_iff {e : Element} (h : e.Writable) {options : RenderOptions} :
    (Node.element e).Renders options ↔ firstError (e.visits []) = none := by
  rw [Node.renders_iff, Printout.ok_iff, Node.printout, Printer.error?_element 0 [] h]

theorem Connection.renders_iff {c : Connection} {options : RenderOptions} :
    (Node.element (.connection c)).Renders options ↔ c.annotations.Expressible := by
  have hwritable : (Element.connection c).Writable := trivial
  rw [hwritable.renders_iff, Modification.expressible_at ["annotation"]]
  rfl

/-- A declaration that is written has its annotations written. -/
theorem Declaration.expressible_of_renders {d : Declaration} {options : RenderOptions}
    (hwritable : (Element.declaration d).Writable)
    (h : (Node.element (.declaration d)).Renders options) : d.annotations.Expressible := by
  rw [hwritable.renders_iff, Element.visits, Declaration.visits, firstError_append_eq_none] at h
  exact (Modification.expressible_at ["annotation"]).2 h.2

/-- The origins that a document gives were written with it. -/
theorem Document.expressible_origin {d : Document} {options : RenderOptions}
    (hwritable : ∀ target, ∀ e ∈ d.elements target, e.Writable)
    (hrenders : ∀ target, ∀ e ∈ d.elements target, (Node.element e).Renders options)
    {ident : String} {a : Scalar × Scalar} (h : d.originOf? ident = some a) :
    a.1.Expressible ∧ a.2.Expressible := by
  obtain ⟨declaration, hfound, horigin⟩ := Option.bind_eq_some_iff.1 h
  obtain ⟨⟨place, _⟩, hlocate, rfl⟩ := Option.map_eq_some_iff.1 hfound
  have hmem := List.mem_of_getElem? (declarationAt?_eq_some.1 (locate?_eq_some.1 hlocate).2)
  exact Placement.expressible_origin
    (Declaration.expressible_of_renders (hwritable _ _ hmem) (hrenders _ _ hmem)) horigin

/-! ## Where the texts differ -/

/-- The statement of a connection up to its annotations. -/
def Connection.opening (options : RenderOptions) (c : Connection) : String :=
  indentation options.indent.unit options.startIndent ++ "connect(" ++ c.a ++ ", " ++ c.b ++ ")"
    ++ match c.description with
      | none => ""
      | some about => " " ++ Text.quote about

/-- The annotations follow, whatever they are. -/
theorem Connection.alone_eq_opening {c : Connection} {options : RenderOptions}
    (h : (Node.element (.connection c)).Renders options) :
    ∃ rest, (Node.element (.connection c)).alone options = c.opening options ++ rest := by
  have hprintout : (Node.element (.connection c)).printout =
      Printout.indentTo 0 ++ Printout.text ("connect(" ++ c.a ++ ", " ++ c.b ++ ")")
        ++ Printer.description c.description
        ++ (Printer.annotationPart 0 [] c.annotations ++ Printout.text ";"
          ++ Printout.newline) := by
    simp only [Node.printout, Printer.element, Printer.connection, Printer.closing,
      Printout.append_assoc]
  rw [Node.alone_eq h, hprintout, Printout.content_append _ _ (by simp), opening]
  refine ⟨_, congrArg (· ++ _) ?_⟩
  cases c.description <;>
    simp [Printer.description, Printout.content_append, String.append_assoc]

namespace Document

/-- The text of a document before its equations: all up to the word that opens them. -/
def beforeEquations (options : RenderOptions) (d : Document) : String :=
  d.withinText options ++ options.line d.header
    ++ String.join ([.publicPart, .protectedPart, .initialEquation, .initialAlgorithm].map
        (d.sectionText options))
    ++ if d.elements .equation = [] then "" else options.line Section.equation.keyword

/-- The text of a document after its equations. -/
def afterEquations (options : RenderOptions) (d : Document) : String :=
  d.sectionText options .algorithm ++ d.annotationText options
    ++ options.line ("end " ++ d.ident ++ ";")

/-- The texts of the equations themselves, each of them alone. -/
def equationTexts (options : RenderOptions) (d : Document) : String :=
  String.join ((d.elements .equation).map fun e => (Node.element e).alone options.deeper)

theorem composed_eq_equations (options : RenderOptions) (d : Document) :
    d.composed options =
      d.beforeEquations options ++ d.equationTexts options ++ d.afterEquations options := by
  have hsection : d.sectionText options .equation =
      (if d.elements .equation = [] then "" else options.line Section.equation.keyword)
        ++ d.equationTexts options := by
    rw [sectionText, equationTexts]
    by_cases hnone : d.elements .equation = [] <;> simp [hnone]
  simp only [composed, Section.all, List.map_cons, List.map_nil, String.join_cons, String.join_nil,
    hsection, beforeEquations, afterEquations, String.append_assoc, String.append_empty]

/-- Everything but the equations is as it was. -/
structure SameFrame (d drawn : Document) : Prop where
  fields : drawn = { d with sections := drawn.sections }
  elements : ∀ target, target ≠ .equation → drawn.elements target = d.elements target
  empty : drawn.elements .equation = [] ↔ d.elements .equation = []

theorem SameFrame.beforeEquations_eq {d drawn : Document} (h : SameFrame d drawn)
    (options : RenderOptions) : drawn.beforeEquations options = d.beforeEquations options := by
  have hsection : ∀ target, target ≠ .equation →
      drawn.sectionText options target = d.sectionText options target := by
    intro target hother
    rw [sectionText, sectionText, h.elements target hother]
  have hwithin : drawn.withinText options = d.withinText options := by rw [h.fields]; rfl
  have hheader : drawn.header = d.header := by rw [h.fields]; rfl
  simp [beforeEquations, hsection, hwithin, hheader, h.empty]

theorem SameFrame.afterEquations_eq {d drawn : Document} (h : SameFrame d drawn)
    (options : RenderOptions) : drawn.afterEquations options = d.afterEquations options := by
  have hsection : drawn.sectionText options .algorithm = d.sectionText options .algorithm := by
    rw [sectionText, sectionText, h.elements .algorithm (by decide)]
  have hannotations : drawn.annotationText options = d.annotationText options := by
    rw [h.fields]; rfl
  have hident : drawn.ident = d.ident := by rw [h.fields]
  rw [afterEquations, afterEquations, hsection, hannotations, hident]

theorem drawConnections_cases (d : Document) :
    (∃ cause, (drawConnections d).1 = .error (.violation cause)) ∨
      ∃ count drawn, drawConnections d = (.ok count, drawn) ∧ SameFrame d drawn ∧
        List.Forall₂ (Element.Drawn d.originOf?) (d.elements .equation)
          (drawn.elements .equation) := by
  rcases drawElements_cases d.originOf? (d.elements .equation) with
    ⟨elements, hdraw, hdrawn⟩ | ⟨_, _, _, _, shape, -, -, -, -, hdraw⟩
  · have helements : ∀ target, (drawConnections d).2.elements target =
        if target = .equation then elements else d.elements target := by
      intro target
      have hget := Sections.get_modify d.sections .equation target fun _ =>
        (drawElements d.originOf? (d.elements .equation)).2
      rw [hdraw] at hget
      rw [drawConnections, hdraw]
      exact hget
    have hequation := (helements .equation).trans (if_pos rfl)
    have hlength := hdrawn.length_eq
    have hcount : (drawConnections d).1 = .ok _ := congrArg Prod.fst hdraw
    refine .inr ⟨_, (drawConnections d).2, Prod.ext hcount rfl, ⟨rfl, ?_, ?_⟩, ?_⟩
    · intro target hother
      rw [helements, if_neg hother]
    · rw [hequation, ← List.length_eq_zero_iff, ← hlength, List.length_eq_zero_iff]
    · rw [hequation]
      exact hdrawn
  · exact .inl ⟨_, congrArg Prod.fst hdraw⟩

end Document

/-- What drawing does to the text of an equation: nothing, if it is no connection
between placed declarations. Of a drawn connection the statement starts as it did. -/
inductive Element.Retold (options : RenderOptions) (d : Document) : Element → Element → Prop
  | same {e : Element} (h : ∀ c, e = .connection c → ¬ c.Placed d.originOf?) : Retold options d e e
  | drawn {c c' : Connection} {rest rest' : String} (placed : c.Placed d.originOf?)
      (before : (Node.element (.connection c)).alone options = c.opening options ++ rest)
      (after : (Node.element (.connection c')).alone options = c.opening options ++ rest') :
      Retold options d (.connection c) (.connection c')

/-- A drawn element has a text if the element and the origins have one. -/
theorem Element.Drawn.renders {options : RenderOptions} {d : Document} {e e' : Element}
    (horigin : ∀ ident a, d.originOf? ident = some a → a.1.Expressible ∧ a.2.Expressible)
    (h : Drawn d.originOf? e e') (he : (Node.element e).Renders options) :
    (Node.element e').Renders options := by
  cases h with
  | kept => exact he
  | lined first second hline =>
      have hc := Connection.renders_iff.1 he
      exact Connection.renders_iff.2
        (Connection.lined_expressible hc hline (horigin _ _ first) (horigin _ _ second))

theorem Element.Drawn.retold {options : RenderOptions} {d : Document} {e e' : Element}
    (h : Drawn d.originOf? e e') (he : (Node.element e).Renders options)
    (he' : (Node.element e').Renders options) : Retold options d e e' := by
  cases h with
  | kept hnot => exact .same hnot
  | lined first second =>
      obtain ⟨rest, hrest⟩ := Connection.alone_eq_opening he
      obtain ⟨rest', hrest'⟩ := Connection.alone_eq_opening he'
      exact .drawn ⟨_, _, first, second⟩ hrest hrest'

/-- A document with a text keeps one when its connections are drawn, unless drawing
is refused for an entry that is in the way of a line. The texts are the same up to the
equations and after them, and in between they are those of the same elements in the
same order, of which only drawn connections have changed, and these only behind their
description. -/
theorem draw_keeps_text (ident : String) (ops : List Operation) (options : RenderOptions)
    (text : String) (h : render options (.document (Document.run { ident } ops)) = .ok text) :
    let d := Document.run { ident } ops
    (∃ cause, (Document.drawConnections d).1 = .error (.violation cause)) ∨
      ∃ count drawn text', Document.drawConnections d = (.ok count, drawn) ∧
        render options (.document drawn) = .ok text' ∧
        text = d.beforeEquations options ++ d.equationTexts options ++ d.afterEquations options ∧
        text' =
          d.beforeEquations options ++ drawn.equationTexts options ++ d.afterEquations options ∧
        List.Forall₂ (Element.Retold options.deeper d) (d.elements .equation)
          (drawn.elements .equation) := by
  intro d
  obtain ⟨hok, htext⟩ := render_eq_ok.1 h
  obtain ⟨helements, hannotations⟩ := (Printer.ok_document options d).1 hok
  rcases d.drawConnections_cases with hfails | ⟨count, drawn, hdraw, hframe, hdrawn⟩
  · exact .inl hfails
  · -- the coordinates of a line were written once already, with the declarations
    have horigin : ∀ ident a, d.originOf? ident = some a → a.1.Expressible ∧ a.2.Expressible :=
      fun _ _ => Document.expressible_origin (Document.run_writable ident ops) helements
    have hequations : ∀ e ∈ drawn.elements .equation, (Node.element e).Renders options.deeper :=
      Document.forall_mem_of_forall₂ (P := fun e => (Node.element e).Renders options.deeper)
        (Element.Drawn.renders horigin) hdrawn (helements .equation)
    have hretold := ((List.forall₂_and_left _ _).2 ⟨helements .equation, hdrawn⟩).imp
      fun _ _ ⟨hrenders, hdrawn⟩ => hdrawn.retold hrenders (hdrawn.renders horigin hrenders)
    have hok' : (Printer.document 0 [] drawn).Ok := by
      refine (Printer.ok_document options drawn).2 ⟨fun target => ?_, ?_⟩
      · by_cases hother : target = .equation
        · rw [hother]
          exact hequations
        · rw [hframe.elements target hother]
          exact helements target
      · rw [hframe.fields]
        exact hannotations
    refine .inr ⟨count, drawn, _, hdraw, render_eq_ok.2 ⟨hok', rfl⟩, ?_, ?_, hretold⟩
    · rw [← htext, ← Document.composed_eq_equations]
      exact Printer.content_document options d hok
    · rw [← hframe.beforeEquations_eq, ← hframe.afterEquations_eq, ← Document.composed_eq_equations]
      exact Printer.content_document options drawn hok'

/-- Two placed declarations and three connections: the first is described, the second
has a line already, and the third leads to a name that is not declared. -/
def Document.triangle : List Operation :=
  [part "a" (.point (.integer 0) (.integer 0)), part "b" (.tuple [.integer 20, .text "y0"]),
   .addConnection ["a.p", "b.n"], .editConnection 0 fun c => { c with description := some "ab" },
   .addConnection ["b.p", "a.n"],
   .editConnection 1 fun c =>
    { c with annotations := ⟨[("Line", .map ⟨[("smooth", .bool true)]⟩)]⟩ },
   .addConnection ["a.q", "c.n"]]
where
  /-- A declaration with an origin. -/
  part (ident : String) (origin : Value) : Operation :=
    .addDeclaration "Part" ident
      { annotations :=
          ⟨[("Placement", .map ⟨[("transformation", .map ⟨[("origin", origin)]⟩)]⟩)]⟩ }

theorem draw_keeps_text_triangle :
    let d := Document.run { ident := "Net" } Document.triangle
    ∃ text drawn text', render {} (.document d) = .ok text ∧
      Document.drawConnections d = (.ok 2, drawn) ∧ render {} (.document drawn) = .ok text' ∧
      text' = d.beforeEquations {} ++ drawn.equationTexts {} ++ d.afterEquations {} := by
  intro d
  have hrenders : (Node.document d).printout.error? = none := by decide +kernel
  have hdraws : (Document.drawConnections d).1 = .ok 2 := by decide +kernel
  obtain ⟨text, htext⟩ := Node.renders_iff.2 (Printout.ok_iff.2 hrenders)
  rcases draw_keeps_text "Net" Document.triangle {} text htext with
    ⟨cause, hcause⟩ | ⟨count, drawn, text', hdrawn, htext', -, heq, -⟩
  · rw [hdraws] at hcause
    cases hcause
  · have hcount : count = 2 := by
      rw [hdrawn] at hdraws
      exact Except.ok.inj hdraws
    exact ⟨text, drawn, text', htext, hcount ▸ hdrawn, htext', heq⟩

end ModelSource

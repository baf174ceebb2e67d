import Mathlib.Data.List.TakeWhile
import ModelSource.Proofs.DrawnText
import ModelSource.Proofs.Registry
import ModelSource.Proofs.Walks

/-!
# Drawing draws what can be drawn

A connection can be drawn if the owners of both references are declared and placed.
The pass itself looks names up in the registry, cuts references by scanning for a
point from the end, and reads origins by walking down a path. None of this is in the
statement here: an owner is a part of a reference, a declaration is an element of some
section, and an origin is a value that a path leads to. Each of the three is shown to be
what the pass finds, the second of them because the registry is exact.

The rest is a frame argument. Declarations are not touched, so the origins after the
pass are those before it, and a line drawn between the same points over itself is the
same line; so a second pass finds the document as it will leave it.
-/

namespace ModelSource

/-! ## What stays of a map -/

/-- The entries of other names are the same, at the same positions, and no name that was
there has moved. -/
structure Modification.KeptBut (names : List String) (before after : Modification) : Prop where
  keys : before.keys <+: after.keys
  entries : ∀ (position : Nat) (key : String) (value : Value), key ∉ names →
    (after.entries[position]? = some (key, value) ↔ before.entries[position]? = some (key, value))

theorem Ordered.getElem?_put (name : String) (value : α) (entries : List (String × α))
    {position : Nat} {key : String} {other : α} (h : key ≠ name) :
    (put name value entries)[position]? = some (key, other) ↔
      entries[position]? = some (key, other) := by
  induction entries generalizing position with
  | nil => cases position <;> simp [put, h.symm]
  | cons entry rest ih =>
      obtain ⟨first, old⟩ := entry
      rw [put]
      split
      · next heq => cases position <;> simp [heq, h.symm]
      · cases position <;> simp [ih]

theorem Value.reach_append (first second : List String) (v : Value) :
    v.reach (first ++ second) = (v.reach first).bind (Value.reach second) := by
  induction first generalizing v with
  | nil => rfl
  | cons name rest ih =>
      cases v with
      | map m =>
          rw [List.cons_append, Value.reach, Value.reach, Option.bind_assoc]
          exact congrArg _ (funext ih)
      | scalar | tuple | assign | list => rfl

namespace Modification

theorem KeptBut.set (m : Modification) (name : String) (value : Value) :
    KeptBut [name] m (m.set name value) := by
  refine ⟨?_, fun position key other hkey => ?_⟩
  · rw [keys_set]
    split
    · exact List.prefix_rfl
    · exact List.prefix_append _ _
  · exact Ordered.getElem?_put name value m.entries (by simpa using hkey)

theorem KeptBut.trans {first second : List String} {a b c : Modification}
    (hab : KeptBut first a b) (hbc : KeptBut second b c) : KeptBut (first ++ second) a c := by
  refine ⟨hab.keys.trans hbc.keys, fun position key value hkey => ?_⟩
  rw [List.mem_append, not_or] at hkey
  rw [hbc.entries position key value hkey.2, hab.entries position key value hkey.1]

/-- The reading walk answers with a map exactly if the path leads to it. -/
theorem readFrom_eq_some_iff {walked path : List String} {m target : Modification} :
    m.readFrom walked path = .ok (some target) ↔ m.valueAt? path = some (.map target) := by
  induction path generalizing m walked with
  | nil =>
      show Except.ok (some m) = .ok (some target) ↔ some (Value.map m) = some (.map target)
      simp
  | cons name rest ih =>
      rw [readFrom, valueAt?_cons]
      split
      · next hnone => simp [hnone]
      · next inner hinner =>
          rw [hinner, ih]
          rfl
      · next other hother hentry =>
          rw [hentry, Option.bind_some]
          cases other with
          | map inner => exact (hother inner rfl).elim
          | scalar | tuple | assign | list => cases rest <;> simp [Value.reach]

/-- What the last name of a path leads to is an entry of the map before it. -/
theorem valueAt?_concat {path : List String} {name : String} {m : Modification} {v : Value} :
    m.valueAt? (path ++ [name]) = some v ↔
      ∃ inner, m.valueAt? path = some (.map inner) ∧ inner.get? name = some v := by
  have hlast : ∀ w : Value, w.reach [name] = some v ↔
      ∃ inner, w = .map inner ∧ inner.get? name = some v := by
    intro w
    cases w with
    | map inner => cases hget : inner.get? name <;> simp [Value.reach, hget]
    | scalar | tuple | assign | list => simp [Value.reach]
  rw [valueAt?, Value.reach_append, Option.bind_eq_some_iff]
  constructor
  · rintro ⟨w, hw, hreach⟩
    obtain ⟨inner, rfl, hget⟩ := (hlast w).1 hreach
    exact ⟨inner, hw, hget⟩
  · rintro ⟨inner, hinner, hget⟩
    exact ⟨.map inner, hinner, (hlast _).2 ⟨inner, rfl, hget⟩⟩

end Modification

/-! ## Owners and origins -/

namespace Value

/-- The value is a point with these coordinates, as a list or as a tuple. -/
inductive IsPoint : Value → Scalar × Scalar → Prop
  | list (x y : Scalar) : IsPoint (.list [.scalar x, .scalar y]) (x, y)
  | tuple (x y : Scalar) : IsPoint (.tuple [x, y]) (x, y)

theorem isPoint_iff {v : Value} {a : Scalar × Scalar} :
    v.IsPoint a ↔ Placement.pointOf? v = some a := by
  constructor
  · rintro (⟨x, y⟩ | ⟨x, y⟩) <;> rfl
  · intro h
    unfold Placement.pointOf? at h
    split at h
    · cases h
      exact .list _ _
    · cases h
      exact .tuple _ _
    · cases h

end Value

/-- The origin that annotations give is the point that a path leads to. -/
theorem Placement.originOf?_eq_some {annotations : Modification} {a : Scalar × Scalar} :
    originOf? annotations = some a ↔
      ∃ v, annotations.valueAt? ["Placement", "transformation", "origin"] = some v ∧
        v.IsPoint a := by
  have hpath : ["Placement", "transformation", "origin"] =
      ["Placement", "transformation"] ++ ["origin"] := rfl
  simp only [hpath, Modification.valueAt?_concat, Value.isPoint_iff]
  rw [originOf?]
  split
  · next transformation hread =>
      have hat := Modification.readFrom_eq_some_iff.1 hread
      rw [Option.bind_eq_some_iff]
      constructor
      · rintro ⟨v, hget, hpoint⟩
        exact ⟨v, ⟨transformation, hat, hget⟩, hpoint⟩
      · rintro ⟨v, ⟨inner, hinner, hget⟩, hpoint⟩
        rw [hat] at hinner
        cases hinner
        exact ⟨v, hget, hpoint⟩
  · next hnone =>
      constructor
      · intro h
        cases h
      · rintro ⟨v, ⟨inner, hinner, -⟩, -⟩
        exact (hnone inner (Modification.readFrom_eq_some_iff.2 hinner)).elim

/-- The owner of a reference is what stands before its last point; all of it, if it has
none. -/
inductive Connection.IsOwner : String → String → Prop
  | pointed (owner last : String) (h : '.' ∉ last.toList) : IsOwner (owner ++ "." ++ last) owner
  | whole (reference : String) (h : '.' ∉ reference.toList) : IsOwner reference reference

theorem Connection.isOwner_ownerOf (reference : String) :
    IsOwner reference (ownerOf reference) := by
  rw [ownerOf, ownerChars]
  have hsplit := List.takeWhile_append_dropWhile (p := (· != '.')) (l := reference.toList.reverse)
  have hword : ∀ c ∈ reference.toList.reverse.takeWhile (· != '.'), c ≠ '.' :=
    fun c hc => by simpa using List.mem_takeWhile_imp hc
  split
  · next hnone =>
      rw [hnone, List.append_nil] at hsplit
      rw [String.ofList_toList]
      refine .whole reference fun hpoint => ?_
      rw [hsplit] at hword
      exact hword '.' (List.mem_reverse.2 hpoint) rfl
  · next point before hrest =>
      have hpoint : point = '.' := by
        have hhead := List.head?_dropWhile_not (· != '.') reference.toList.reverse
        rw [hrest] at hhead
        simpa using hhead
      have hreference : reference = String.ofList before.reverse ++ "." ++
          String.ofList (reference.toList.reverse.takeWhile (· != '.')).reverse := by
        refine String.toList_inj.1 ?_
        have hchars := congrArg List.reverse hsplit
        rw [hrest, hpoint, List.reverse_reverse] at hchars
        simpa using hchars.symm
      nth_rewrite 1 [hreference]
      exact .pointed _ _ fun hmem => hword '.' (by simpa using hmem) rfl

theorem Connection.ownerOf_eq {reference owner : String} (h : IsOwner reference owner) :
    ownerOf reference = owner := by
  have hstop : ∀ last : List Char, '.' ∉ last →
      ∀ rest, (last.reverse ++ rest).dropWhile (· != '.') = rest.dropWhile (· != '.') := by
    intro last hlast rest
    refine List.dropWhile_append_of_pos fun c hc => ?_
    rw [bne_iff_ne]
    rintro rfl
    exact hlast (List.mem_reverse.1 hc)
  cases h with
  | pointed _ last hlast =>
      have hchars := hstop last.toList hlast ('.' :: owner.toList.reverse)
      simp [ownerOf, ownerChars, hchars]
  | whole _ hnone =>
      have hchars := hstop reference.toList hnone []
      rw [List.append_nil] at hchars
      simp [ownerOf, ownerChars, hchars]

namespace Document

variable {d : Document} {c : Connection} {name : String} {a b : Scalar × Scalar}

/-- A declaration of that name, in whatever section, has its origin at the point. -/
def PlacedAt (d : Document) (name : String) (a : Scalar × Scalar) : Prop :=
  ∃ target declaration v, .declaration declaration ∈ d.elements target ∧ declaration.ident = name ∧
    declaration.annotations.valueAt? ["Placement", "transformation", "origin"] = some v ∧
    v.IsPoint a

/-- The owners of the connection are placed at the two points. -/
def Joins (d : Document) (c : Connection) (a b : Scalar × Scalar) : Prop :=
  ∃ first second, Connection.IsOwner c.a first ∧ Connection.IsOwner c.b second ∧
    d.PlacedAt first a ∧ d.PlacedAt second b

/-- The connection can be drawn. -/
def Drawable (d : Document) (c : Connection) : Prop :=
  ∃ a b, d.Joins c a b

/-- An exact registry finds the declaration that gives the origin. -/
theorem Indexed.originOf?_eq_some (h : d.Indexed) :
    d.originOf? name = some a ↔ d.PlacedAt name a := by
  rw [originOf?, Option.bind_eq_some_iff]
  constructor
  · rintro ⟨declaration, hfound, horigin⟩
    obtain ⟨⟨place, _⟩, hlocate, rfl⟩ := Option.map_eq_some_iff.1 hfound
    obtain ⟨hlookup, hat⟩ := locate?_eq_some.1 hlocate
    obtain ⟨found, hfound, hname⟩ := nameAt?_eq_some.1 ((h.exact name place).1 hlookup)
    rw [hat] at hfound
    cases hfound
    obtain ⟨v, hv, hpoint⟩ := Placement.originOf?_eq_some.1 horigin
    exact ⟨place.target, _, v, List.mem_of_getElem? (declarationAt?_eq_some.1 hat), hname, hv,
      hpoint⟩
  · rintro ⟨target, declaration, v, hmem, rfl, hv, hpoint⟩
    obtain ⟨index, hindex⟩ := List.mem_iff_getElem?.1 hmem
    have hat : d.declarationAt? ⟨target, index⟩ = some declaration :=
      declarationAt?_eq_some.2 hindex
    have hlookup := (h.exact declaration.ident ⟨target, index⟩).2
      (nameAt?_eq_some.2 ⟨declaration, hat, rfl⟩)
    refine ⟨declaration, ?_, Placement.originOf?_eq_some.2 ⟨v, hv, hpoint⟩⟩
    rw [declaration?, locate?_eq_some.2 ⟨hlookup, hat⟩]
    rfl

theorem Indexed.joins_iff (h : d.Indexed) :
    d.Joins c a b ↔ d.originOf? c.owners.1 = some a ∧ d.originOf? c.owners.2 = some b := by
  rw [h.originOf?_eq_some, h.originOf?_eq_some]
  constructor
  · rintro ⟨first, second, hfirst, hsecond, ha, hb⟩
    rw [Connection.owners, Connection.ownerOf_eq hfirst, Connection.ownerOf_eq hsecond]
    exact ⟨ha, hb⟩
  · rintro ⟨ha, hb⟩
    exact ⟨_, _, Connection.isOwner_ownerOf c.a, Connection.isOwner_ownerOf c.b, ha, hb⟩

theorem Indexed.drawable_iff (h : d.Indexed) : d.Drawable c ↔ c.Placed d.originOf? := by
  simp only [Drawable, h.joins_iff, Connection.Placed]

end Document

/-! ## Lines -/

/-- The connection with a line between two points in its annotations. Whatever else was
in them, and in the map of the line, has stayed. -/
structure Connection.LineDrawn (a b : Scalar × Scalar) (before after : Connection) : Prop where
  fields : after = { before with annotations := after.annotations }
  kept : Modification.KeptBut ["Line"] before.annotations after.annotations
  line : ∃ old new, before.annotations.mapAt "Line" = .ok old ∧
    after.annotations.get? "Line" = some (.map new) ∧
    new.get? "points" = some (.list [.point a.1 a.2, .point b.1 b.2]) ∧
    new.get? "color" = some (.list [.integer 0, .integer 0, .integer 255]) ∧
    Modification.KeptBut ["points", "color"] old new

namespace Connection

variable {c : Connection} {line : Modification} {a b : Scalar × Scalar}

/-- The map of a drawn line. -/
def lineBetween (line : Modification) (a b : Scalar × Scalar) : Modification :=
  (line.set "points" (.list [.point a.1 a.2, .point b.1 b.2])).set "color" lineColour

theorem get?_lineBetween :
    (lineBetween line a b).get? "points" = some (.list [.point a.1 a.2, .point b.1 b.2]) ∧
      (lineBetween line a b).get? "color" = some lineColour := by
  simp [lineBetween, Modification.get?_set]

theorem lineDrawn_lined (h : c.annotations.mapAt "Line" = .ok line) :
    LineDrawn a b c (c.lined line a b) := by
  refine ⟨rfl, .set _ _ _, line, lineBetween line a b, h, ?_, get?_lineBetween.1,
    get?_lineBetween.2, (Modification.KeptBut.set _ _ _).trans (.set _ _ _)⟩
  exact (Modification.get?_set _ _ _ _).trans (if_pos rfl)

/-- A line drawn over itself is the same line. -/
theorem lineBetween_again : lineBetween (lineBetween line a b) a b = lineBetween line a b := by
  obtain ⟨hpoints, hcolour⟩ := @get?_lineBetween line a b
  rw [lineBetween, Modification.set_of_get? hpoints, Modification.set_of_get? hcolour]

theorem lined_again : (c.lined line a b).lined (lineBetween line a b) a b = c.lined line a b := by
  have hannotations : (c.annotations.set "Line" (.map (lineBetween line a b))).set "Line"
      (.map (lineBetween (lineBetween line a b) a b)) =
        c.annotations.set "Line" (.map (lineBetween line a b)) := by
    rw [lineBetween_again, Modification.set_set]
  exact congrArg (fun annotations => { c with annotations }) hannotations

theorem drawLine_lined : (c.lined line a b).drawLine a b = (.ok (), c.lined line a b) := by
  have hmap : (c.lined line a b).annotations.mapAt "Line" = .ok (lineBetween line a b) :=
    Modification.mapAt_set _ _ _
  rcases (c.lined line a b).drawLine_cases a b with ⟨line', hline', hdraw⟩ | ⟨shape, hshape, -⟩
  · rw [hmap] at hline'
    cases hline'
    rw [hdraw, lined_again]
  · rw [hmap] at hshape
    cases hshape

end Connection

/-! ## The pass -/

/-- What the pass makes of an element: a connection that can be drawn gets its line, and
everything else stays. -/
inductive Element.Inked (d : Document) : Element → Element → Prop
  | kept {e : Element} (h : ∀ c, e = .connection c → ¬ d.Drawable c) : Inked d e e
  | drawn {c c' : Connection} {a b : Scalar × Scalar} (joins : d.Joins c a b)
      (line : c.LineDrawn a b c') : Inked d (.connection c) (.connection c')

theorem Element.Drawn.inked {d : Document} (h : d.Indexed) {e e' : Element}
    (hdrawn : Element.Drawn d.originOf? e e') : Element.Inked d e e' := by
  cases hdrawn with
  | kept hnot => exact .kept fun c heq hc => hnot c heq (h.drawable_iff.1 hc)
  | lined first second hline =>
      exact .drawn (h.joins_iff.2 ⟨first, second⟩) (Connection.lineDrawn_lined hline)

namespace Document

variable {d : Document} {origin : String → Option (Scalar × Scalar)} {before drawn : List Element}

/-- A second pass over drawn elements counts the same and changes nothing. -/
theorem drawElements_again (h : List.Forall₂ (Element.Drawn origin) before drawn) :
    drawElements origin drawn = (.ok (before.countP (·.isPlaced origin)), drawn) := by
  induction h with
  | nil => rfl
  | @cons e e' rest rest' hdrawn _ ih =>
      cases hdrawn with
      | kept hnot =>
          have hplaced : e.isPlaced origin = false := by
            rw [← Bool.not_eq_true, Element.isPlaced_iff]
            rintro ⟨c, heq, hc⟩
            exact hnot c heq hc
          rw [drawElements_kept hplaced, ih, List.countP_cons_of_neg (by simp [hplaced])]
      | @lined c line a b first second hline =>
          have hplaced : (Element.connection c).isPlaced origin = true :=
            Element.isPlaced_iff.2 ⟨c, rfl, a, b, first, second⟩
          have hfirst : origin (c.lined line a b).owners.1 = some a := first
          have hsecond : origin (c.lined line a b).owners.2 = some b := second
          rw [drawElements, List.countP_cons_of_pos hplaced]
          simp only [hfirst, hsecond, Connection.drawLine_lined, ih]
          rfl

/-- Where nothing stopped the pass, nothing was in the way of a line. -/
theorem line_of_drawn (h : List.Forall₂ (Element.Drawn origin) before drawn) {c : Connection}
    (hmem : .connection c ∈ before) (hplaced : c.Placed origin) :
    ∃ line, c.annotations.mapAt "Line" = .ok line := by
  induction h with
  | nil => cases hmem
  | cons hdrawn _ ih =>
      rcases List.mem_cons.1 hmem with rfl | hrest
      · cases hdrawn with
        | kept hnot => exact (hnot c rfl hplaced).elim
        | lined _ _ hline => exact ⟨_, hline⟩
      · exact ih hrest

theorem declaration_of_drawn (h : List.Forall₂ (Element.Drawn origin) before drawn) (index : Nat)
    (declaration : Declaration) :
    drawn[index]? = some (.declaration declaration) ↔
      before[index]? = some (.declaration declaration) := by
  induction h generalizing index with
  | nil => rfl
  | cons hdrawn _ ih =>
      cases index with
      | zero => cases hdrawn <;> simp
      | succ i => simpa using ih i

/-- The document with other equations. -/
def withEquations (d : Document) (elements : List Element) : Document :=
  { d with sections := { d.sections with equation := elements } }

theorem drawConnections_eq (d : Document) :
    drawConnections d =
      ((drawElements d.originOf? (d.elements .equation)).1,
        d.withEquations (drawElements d.originOf? (d.elements .equation)).2) :=
  rfl

/-- Declarations do not move, so neither do origins. -/
theorem originOf?_withEquations
    (h : List.Forall₂ (Element.Drawn origin) (d.elements .equation) drawn) :
    (d.withEquations drawn).originOf? = d.originOf? := by
  have hat : ∀ place, (d.withEquations drawn).declarationAt? place = d.declarationAt? place := by
    intro place
    refine Option.ext fun declaration => ?_
    rw [declarationAt?_eq_some, declarationAt?_eq_some]
    obtain ⟨target, index⟩ := place
    cases target with
    | equation => exact declaration_of_drawn h index declaration
    | publicPart | protectedPart | initialEquation | initialAlgorithm | algorithm => rfl
  funext name
  have hlocate : (d.withEquations drawn).locate? name = d.locate? name := by
    simp only [locate?, hat]
    rfl
  rw [originOf?, originOf?, declaration?, declaration?, hlocate]

theorem drawConnections_again
    (h : List.Forall₂ (Element.Drawn d.originOf?) (d.elements .equation) drawn) :
    drawConnections (d.withEquations drawn) =
      (.ok ((d.elements .equation).countP (·.isPlaced d.originOf?)), d.withEquations drawn) := by
  have hagain := drawElements_again h
  rw [drawConnections_eq, originOf?_withEquations h]
  show ((drawElements d.originOf? drawn).1, d.withEquations (drawElements d.originOf? drawn).2) = _
  rw [hagain]

/-- Which connections are placed, as the statement below has it. -/
theorem Indexed.isPlaced_iff (h : d.Indexed) {e : Element} :
    e.isPlaced d.originOf? = true ↔ ∃ c, e = .connection c ∧ d.Drawable c := by
  rw [Element.isPlaced_iff]
  simp only [h.drawable_iff]

open Classical in
/-- Drawing does what it is for, in every document that a run makes. It succeeds exactly if no
connection that can be drawn has an entry in the way of its line. Then it answers with
their number, each of them has its line, everything else is as it was, and a second pass
answers the same and changes nothing. Otherwise it is stopped at the first entry that is
in the way: what stands before it is drawn, and nothing behind it is touched. -/
theorem drawConnections_exact (ident : String) (ops : List Operation) :
    let d := run { ident } ops
    ((∃ count, (drawConnections d).1 = .ok count) ↔
      ∀ c, .connection c ∈ d.elements .equation → d.Drawable c →
        ∀ v, c.annotations.get? "Line" = some v → ∃ line, v = .map line) ∧
    (∀ count after, drawConnections d = (.ok count, after) →
      count = (d.elements .equation).countP
        (fun e => decide (∃ c, e = .connection c ∧ d.Drawable c)) ∧
      after = d.withEquations (after.elements .equation) ∧
      List.Forall₂ (Element.Inked d) (d.elements .equation) (after.elements .equation) ∧
      drawConnections after = (.ok count, after)) ∧
    ∀ e after, drawConnections d = (.error e, after) →
      ∃ before c rest drawn v, d.elements .equation = before ++ .connection c :: rest ∧
        d.Drawable c ∧ c.annotations.get? "Line" = some v ∧ v.asMap? = none ∧
        e = .violation (.occupiedEntry ["Line"] v.shape) ∧
        List.Forall₂ (Element.Inked d) before drawn ∧
        after = d.withEquations (drawn ++ .connection c :: rest) := by
  intro d
  have hindexed : d.Indexed := (run_indexed ops (indexed_start ident)).1
  rcases drawElements_cases d.originOf? (d.elements .equation) with
    ⟨drawn, hdraw, hdrawn⟩ |
      ⟨before, c, rest, drawn, shape, helements, hplaced, hline, hdrawn, hdraw⟩
  · have hdone : drawConnections d =
        (.ok ((d.elements .equation).countP (·.isPlaced d.originOf?)), d.withEquations drawn) := by
      rw [drawConnections_eq, hdraw]
    refine ⟨⟨fun _ c hmem hc v hv => ?_, fun _ => ⟨_, congrArg Prod.fst hdone⟩⟩, ?_, ?_⟩
    · obtain ⟨line, hline⟩ := line_of_drawn hdrawn hmem (hindexed.drawable_iff.1 hc)
      rcases Modification.mapAt_eq_ok hline with hthere | ⟨hnone, -⟩
      · rw [hthere] at hv
        exact ⟨line, (Option.some.inj hv).symm⟩
      · rw [hnone] at hv
        cases hv
    · intro count after h
      rw [hdone] at h
      cases h
      refine ⟨?_, rfl, hdrawn.imp fun _ _ => Element.Drawn.inked hindexed,
        drawConnections_again hdrawn⟩
      refine List.countP_congr fun e _ => ?_
      rw [hindexed.isPlaced_iff, decide_eq_true_iff]
    · intro e after h
      rw [hdone] at h
      cases h
  · have hdone : drawConnections d = (.error (.violation (.occupiedEntry ["Line"] shape)),
        d.withEquations (drawn ++ .connection c :: rest)) := by
      rw [drawConnections_eq, hdraw]
    obtain ⟨v, hv, hno, rfl⟩ := Modification.mapAt_eq_error hline
    have hdrawable := hindexed.drawable_iff.2 hplaced
    refine ⟨⟨fun ⟨_, h⟩ => ?_, fun hall => ?_⟩, ?_, ?_⟩
    · rw [hdone] at h
      cases h
    · have hmem : .connection c ∈ d.elements .equation := by
        rw [helements]
        exact List.mem_append_right _ List.mem_cons_self
      obtain ⟨line, rfl⟩ := hall c hmem hdrawable v hv
      cases hno
    · intro count after h
      rw [hdone] at h
      cases h
    · intro e after h
      rw [hdone] at h
      cases h
      exact ⟨before, c, rest, drawn, v, helements, hdrawable, hv, hno, rfl,
        hdrawn.imp fun _ _ => Element.Drawn.inked hindexed, rfl⟩

end Document

end ModelSource

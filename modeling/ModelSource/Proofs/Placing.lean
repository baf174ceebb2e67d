import ModelSource.Proofs.DrawnLines

/-!
# A placement is read back as it was written

A placement goes into annotations by two walks of one name each, and a visibility may be
written between them. The walks can be stopped at two entries only, the one that the
placement is kept in and the transformation inside it, and `apply_cases` says once what is
left behind in each of the three outcomes. The rest is about the entries themselves.

An entry that a placement may or may not give is written by `writeOptional`, whether it is
the visibility or the rotation, and its two laws are all that is used of it: what the name
answers with afterwards, and that everything else has kept its value and its position.
-/

namespace ModelSource

/-! ## Entries that may be absent -/

namespace Modification

open Experiment (writeOptional)

/-- A value that is not given leaves the one that is there. -/
theorem get?_writeOptional (name : String) (value : Option Value) (m : Modification)
    (other : String) :
    (writeOptional name value m).get? other =
      if other = name then value.or (m.get? name) else m.get? other := by
  cases value with
  | some value => rw [writeOptional, get?_set, Option.some_or]
  | none =>
      rw [writeOptional, Option.none_or]
      split
      · next hname => rw [hname]
      · rfl

theorem KeptBut.refl (names : List String) (m : Modification) : KeptBut names m m :=
  ⟨List.prefix_rfl, fun _ _ _ _ => Iff.rfl⟩

theorem KeptBut.writeOptional (name : String) (value : Option Value) (m : Modification) :
    KeptBut [name] m (writeOptional name value m) := by
  cases value with
  | some value => exact KeptBut.set m name value
  | none => exact KeptBut.refl [name] m

/-- An entry that is there and is no map. -/
def NoMap (m : Modification) (name : String) : Prop :=
  ∃ v, m.get? name = some v ∧ v.asMap? = none

theorem noMap_of_mapAt {m : Modification} {name : String} {shape : Shape}
    (h : m.mapAt name = .error shape) : m.NoMap name := by
  obtain ⟨v, hv, hno, -⟩ := mapAt_eq_error h
  exact ⟨v, hv, hno⟩

theorem mapAt_of_get? {m inner : Modification} {name : String}
    (h : m.get? name = some (.map inner)) : m.mapAt name = .ok inner := by
  rw [mapAt, h]

theorem not_noMap_of_mapAt {m inner : Modification} {name : String}
    (h : m.mapAt name = .ok inner) : ¬ m.NoMap name := by
  rintro ⟨v, hv, hno⟩
  rcases mapAt_eq_ok h with hthere | ⟨hnone, -⟩
  · rw [hv] at hthere
    cases hthere
    cases hno
  · rw [hv] at hnone
    cases hnone

end Modification

namespace Placement

open Experiment (writeOptional)
open Modification (KeptBut NoMap)

variable {p : Placement} {m icon t : Modification}

/-- Where the transformation of a placement is kept. -/
def place : List String :=
  ["Placement", "transformation"]

/-- The rotation as a value, if the placement gives one. -/
def rotationValue? (p : Placement) : Option Value :=
  p.rotation.map fun degrees => .scalar (.number degrees)

theorem writeVisible_eq (p : Placement) (icon : Modification) :
    p.writeVisible icon = writeOptional "visible" (p.visible.map .bool) icon := by
  rw [writeVisible]
  cases p.visible <;> rfl

theorem writeTransformation_eq (p : Placement) (t : Modification) :
    p.writeTransformation t =
      (writeOptional "rotation" p.rotationValue?
        (t.set "extent" (extentValue p.extent.1 p.extent.2))).set "origin" p.origin.toValue := by
  rw [writeTransformation, rotationValue?]
  cases p.rotation <;> rfl

/-- Writing a visibility is no hindrance to the second walk. -/
theorem mapAt_writeVisible (p : Placement) (icon : Modification) :
    (p.writeVisible icon).mapAt "transformation" = icon.mapAt "transformation" := by
  have hother : "transformation" ≠ "visible" := by decide
  rw [Modification.mapAt, Modification.mapAt, writeVisible_eq, Modification.get?_writeOptional,
    if_neg hother]

theorem keptBut_writeTransformation (p : Placement) (t : Modification) :
    KeptBut ["extent", "rotation", "origin"] t (p.writeTransformation t) := by
  rw [writeTransformation_eq]
  exact ((KeptBut.set t "extent" _).trans (KeptBut.writeOptional "rotation" _ _)).trans
    (KeptBut.set _ "origin" _)

theorem get?_origin (p : Placement) (t : Modification) :
    (p.writeTransformation t).get? "origin" = some p.origin.toValue := by
  rw [writeTransformation_eq, Modification.get?_set, if_pos rfl]

theorem get?_rotation (p : Placement) (t : Modification) :
    (p.writeTransformation t).get? "rotation" = p.rotationValue?.or (t.get? "rotation") := by
  have horigin : "rotation" ≠ "origin" := by decide
  have hextent : "rotation" ≠ "extent" := by decide
  rw [writeTransformation_eq, Modification.get?_set, if_neg horigin,
    Modification.get?_writeOptional, if_pos rfl, Modification.get?_set, if_neg hextent]

theorem get?_extent (p : Placement) (t : Modification) :
    (p.writeTransformation t).get? "extent" = some (extentValue p.extent.1 p.extent.2) := by
  have horigin : "extent" ≠ "origin" := by decide
  have hrotation : "extent" ≠ "rotation" := by decide
  rw [writeTransformation_eq, Modification.get?_set, if_neg horigin,
    Modification.get?_writeOptional, if_neg hrotation, Modification.get?_set, if_pos rfl]

/-! ## What is left behind -/

/-- Annotations with the placement in them. -/
def written (p : Placement) (m icon t : Modification) : Modification :=
  m.set "Placement" (.map ((p.writeVisible icon).set "transformation" (.map (p.writeTransformation t))))

theorem apply_of_icon {shape : Shape} (h : m.mapAt "Placement" = .error shape) :
    p.apply m = (.error (.violation (.occupiedEntry ["Placement"] shape)), m) :=
  Modification.descendFrom_cons_error h [] []

theorem apply_of_transformation {shape : Shape} (hicon : m.mapAt "Placement" = .ok icon)
    (h : icon.mapAt "transformation" = .error shape) :
    p.apply m = (.error (.violation (.occupiedEntry ["transformation"] shape)),
      m.set "Placement" (.map (p.writeVisible icon))) := by
  have hsecond : (p.writeVisible icon).mapAt "transformation" = .error shape :=
    (mapAt_writeVisible p icon).trans h
  rw [apply, Modification.descend, Modification.descendFrom_cons_ok hicon,
    Modification.descendFrom, Modification.descend, Modification.descendFrom_cons_error hsecond]
  rfl

theorem apply_of_maps (hicon : m.mapAt "Placement" = .ok icon)
    (ht : icon.mapAt "transformation" = .ok t) : p.apply m = (.ok (), p.written m icon t) := by
  have hsecond : (p.writeVisible icon).mapAt "transformation" = .ok t :=
    (mapAt_writeVisible p icon).trans ht
  rw [apply, Modification.descend, Modification.descendFrom_cons_ok hicon,
    Modification.descendFrom, Modification.descend, Modification.descendFrom_cons_ok hsecond]
  rfl

/-- The three outcomes: the placement is in no map, its transformation is none, or both are
maps, which a missing one becomes. -/
theorem apply_cases (p : Placement) (m : Modification) :
    (m.NoMap "Placement" ∧ ∃ e, p.apply m = (.error e, m)) ∨
    (∃ icon, m.get? "Placement" = some (.map icon) ∧ icon.NoMap "transformation" ∧
      ∃ e, p.apply m = (.error e, m.set "Placement" (.map (p.writeVisible icon)))) ∨
    ∃ icon t, m.mapAt "Placement" = .ok icon ∧ icon.mapAt "transformation" = .ok t ∧
      p.apply m = (.ok (), p.written m icon t) := by
  cases hicon : m.mapAt "Placement" with
  | error shape => exact .inl ⟨Modification.noMap_of_mapAt hicon, _, apply_of_icon hicon⟩
  | ok icon =>
      cases ht : icon.mapAt "transformation" with
      | ok t => exact .inr (.inr ⟨icon, t, rfl, ht, apply_of_maps hicon ht⟩)
      | error shape =>
          have hno := Modification.noMap_of_mapAt ht
          rcases Modification.mapAt_eq_ok hicon with hthere | ⟨-, rfl⟩
          · exact .inr (.inl ⟨icon, hthere, hno, _, apply_of_transformation hicon ht⟩)
          · -- a map that was missing has no entries
            cases ht

theorem mapAlong_place (hicon : m.mapAt "Placement" = .ok icon)
    (ht : icon.mapAt "transformation" = .ok t) : m.mapAlong place = t := by
  rw [place, Modification.mapAlong, hicon]
  show icon.mapAlong ["transformation"] = t
  rw [Modification.mapAlong, ht]
  rfl

/-! ## What is read back -/

theorem mapAlong_written (p : Placement) (m icon t : Modification) :
    (p.written m icon t).mapAlong ["Placement"] =
        (p.writeVisible icon).set "transformation" (.map (p.writeTransformation t)) ∧
      (p.written m icon t).mapAlong place = p.writeTransformation t := by
  have hicon := Modification.mapAt_set m "Placement"
    ((p.writeVisible icon).set "transformation" (.map (p.writeTransformation t)))
  refine ⟨?_, mapAlong_place hicon (Modification.mapAt_set _ _ _)⟩
  rw [written, Modification.mapAlong, hicon]
  rfl

theorem originOf?_written (p : Placement) (m icon t : Modification) :
    originOf? (p.written m icon t) = some (.number p.origin.x, .number p.origin.y) := by
  refine originOf?_eq_some.2 ⟨p.origin.toValue, ?_, .list _ _⟩
  rw [written, Modification.valueAt?_cons, Modification.get?_set, if_pos rfl, Option.bind_some,
    Value.reach, Modification.get?_set, if_pos rfl, Option.bind_some, Value.reach, get?_origin]
  rfl

theorem get?_visible (p : Placement) (icon : Modification) (inner : Value) :
    ((p.writeVisible icon).set "transformation" inner).get? "visible" =
      (p.visible.map Value.bool).or (icon.get? "visible") := by
  have hother : "visible" ≠ "transformation" := by decide
  rw [Modification.get?_set, if_neg hother, writeVisible_eq, Modification.get?_writeOptional,
    if_pos rfl]

theorem keptBut_icon (p : Placement) (icon : Modification) (inner : Value) :
    KeptBut ["visible", "transformation"] icon
      ((p.writeVisible icon).set "transformation" inner) := by
  rw [writeVisible_eq]
  exact (KeptBut.writeOptional "visible" _ icon).trans (KeptBut.set _ "transformation" inner)

/-- A placement is refused exactly if it would go into an entry that is no map, or its
transformation would. Refused, it has changed nothing, but that it has set the visibility it
gives where only the transformation was in the way. Otherwise its origin, its extent and what
it gives of rotation and visibility are read back, and at each of the three levels every other
entry has its value and its position. -/
theorem apply_writes_placement_only (p : Placement) (m : Modification) :
    ((∃ e, (p.apply m).1 = .error e) ↔
      m.NoMap "Placement" ∨
        ∃ icon, m.get? "Placement" = some (.map icon) ∧ icon.NoMap "transformation") ∧
    (∀ after, p.apply m = (.ok (), after) →
      originOf? after = some (.number p.origin.x, .number p.origin.y) ∧
      (after.mapAlong place).get? "extent" =
        some (.list [p.extent.1.toValue, p.extent.2.toValue]) ∧
      (∀ degrees, p.rotation = some degrees →
        (after.mapAlong place).get? "rotation" = some (.scalar (.number degrees))) ∧
      (∀ visible, p.visible = some visible →
        (after.mapAlong ["Placement"]).get? "visible" = some (.bool visible)) ∧
      KeptBut ["Placement"] m after ∧
      KeptBut ["visible", "transformation"]
        (m.mapAlong ["Placement"]) (after.mapAlong ["Placement"]) ∧
      KeptBut ["extent", "rotation", "origin"] (m.mapAlong place) (after.mapAlong place)) ∧
    ∀ e after, p.apply m = (.error e, after) →
      (m.NoMap "Placement" → after = m) ∧
      (p.visible = none → after = m) ∧
      ∀ icon visible, m.get? "Placement" = some (.map icon) → p.visible = some visible →
        after = m.set "Placement" (.map (icon.set "visible" (.bool visible))) := by
  rcases apply_cases p m with ⟨hno, e, happly⟩ | ⟨icon, hthere, hno, e, happly⟩ |
    ⟨icon, t, hicon, ht, happly⟩
  · rw [happly]
    refine ⟨⟨fun _ => .inl hno, fun _ => ⟨e, rfl⟩⟩, fun _ h => (nomatch h), ?_⟩
    rintro _ _ ⟨⟩
    refine ⟨fun _ => rfl, fun _ => rfl, ?_⟩
    intro icon visible hicon
    exact (Modification.not_noMap_of_mapAt (Modification.mapAt_of_get? hicon) hno).elim
  · rw [happly]
    refine ⟨⟨fun _ => .inr ⟨icon, hthere, hno⟩, fun _ => ⟨e, rfl⟩⟩, fun _ h => (nomatch h), ?_⟩
    rintro _ _ ⟨⟩
    refine ⟨?_, ?_, ?_⟩
    · intro hicon
      exact (Modification.not_noMap_of_mapAt (Modification.mapAt_of_get? hthere) hicon).elim
    · intro hnone
      rw [writeVisible, hnone]
      exact Modification.set_of_get? hthere
    · intro other visible hother hvisible
      rw [hthere] at hother
      cases hother
      rw [writeVisible, hvisible]
  · rw [happly]
    obtain ⟨houter, hinner⟩ := mapAlong_written p m icon t
    refine ⟨⟨fun ⟨_, h⟩ => (nomatch h), ?_⟩, ?_, fun _ _ h => (nomatch h)⟩
    · rintro (hno | ⟨other, hother, hno⟩)
      · exact (Modification.not_noMap_of_mapAt hicon hno).elim
      · obtain rfl : icon = other :=
          Except.ok.inj (hicon.symm.trans (Modification.mapAt_of_get? hother))
        exact (Modification.not_noMap_of_mapAt ht hno).elim
    · rintro _ ⟨⟩
      have hbefore : m.mapAlong ["Placement"] = icon := by
        rw [Modification.mapAlong, hicon]
        rfl
      rw [houter, hinner, hbefore, mapAlong_place hicon ht]
      refine ⟨originOf?_written p m icon t, get?_extent p t, ?_, ?_, KeptBut.set m "Placement" _,
        keptBut_icon p icon _, keptBut_writeTransformation p t⟩
      · intro degrees hdegrees
        rw [get?_rotation, rotationValue?, hdegrees]
        rfl
      · intro visible hvisible
        rw [get?_visible, hvisible]
        rfl

end Placement

end ModelSource

import ModelSource.Proofs.Placing
import ModelSource.Proofs.WholeNumbers

/-!
# What a call does not write, it leaves

Some entries are written only if there is something to write. A placement without a
rotation writes none, and an experiment that starts at zero or stops at one leaves the time
out, since absence already means that. On fresh annotations the two readings agree. On
annotations that were written before they do not: nothing is ever taken away, so an entry is
that of the last call that wrote one (`lastGiven`), and that need not be the last call.

Both results below say when it is. A declaration that is moved is described by its last
placement exactly if that gives a rotation or no rotation was ever given; the times of an
experiment are those of the last call exactly if each of them was written by it or was never
written before. For each there is a run of two calls in which it is not so.
-/

namespace ModelSource

/-! ## Runs of calls -/

theorem Edit.forM_cons_ok {f : α → Edit σ Unit} {call : α} {rest : List α} {s s' : σ}
    (h : (call :: rest).forM f s = (.ok (), s')) :
    ∃ mid, f call s = (.ok (), mid) ∧ rest.forM f mid = (.ok (), s') := by
  have hbind := Edit.bind_apply (f call) (fun _ => rest.forM f) s
  change (f call >>= fun _ => rest.forM f) s = _ at h
  rw [hbind] at h
  split at h
  · next mid hmid => exact ⟨mid, hmid, h⟩
  · cases h

/-- What each call does to a view of the state, all of them do one after the other. -/
theorem Edit.forM_view {f : α → Edit σ Unit} (view : σ → β) (step : β → α → β)
    {calls : List α}
    (hstep : ∀ call ∈ calls, ∀ {s s'}, f call s = (.ok (), s') → view s' = step (view s) call)
    {s s' : σ} (h : calls.forM f s = (.ok (), s')) : view s' = calls.foldl step (view s) := by
  induction calls generalizing s with
  | nil =>
      cases h
      rfl
  | cons call rest ih =>
      rw [List.forall_mem_cons] at hstep
      obtain ⟨mid, hmid, hrest⟩ := Edit.forM_cons_ok h
      rw [ih hstep.2 hrest, hstep.1 hmid, List.foldl_cons]

/-- What the last call that gives anything gives; what there was before, if none does. -/
def lastGiven (given : α → Option β) (old : Option β) (calls : List α) : Option β :=
  calls.foldl (fun kept call => (given call).or kept) old

theorem lastGiven_concat (given : α → Option β) (old : Option β) (calls : List α) (last : α) :
    lastGiven given old (calls ++ [last]) = (given last).or (lastGiven given old calls) := by
  rw [lastGiven, List.foldl_append]
  rfl

theorem lastGiven_eq_none {given : α → Option β} {old : Option β} {calls : List α} :
    lastGiven given old calls = none ↔ (∀ call ∈ calls, given call = none) ∧ old = none := by
  induction calls generalizing old with
  | nil => simp [lastGiven]
  | cons call rest ih =>
      show lastGiven given ((given call).or old) rest = none ↔ _
      rw [ih, Option.or_eq_none_iff, List.forall_mem_cons]
      tauto

/-- What is asked for is written, unless it is what absence stands for. -/
structure SkipsUsual (given : α → Option β) (asked : α → β) (usual : β) : Prop where
  skips : ∀ call, asked call = usual → given call = none
  writes : ∀ call, asked call ≠ usual → given call = some (asked call)

namespace SkipsUsual

variable {given : α → Option β} {asked : α → β} {usual : β} {calls : List α}

/-- The usual value is in effect only if nothing else was ever written. -/
theorem getD_lastGiven (h : SkipsUsual given asked usual) (old : Option β) :
    (lastGiven given old calls).getD usual = usual ↔
      (∀ call ∈ calls, asked call = usual) ∧ old.getD usual = usual := by
  induction calls generalizing old with
  | nil => simp [lastGiven]
  | cons call rest ih =>
      show (lastGiven given ((given call).or old) rest).getD usual = usual ↔ _
      rw [ih, List.forall_mem_cons]
      by_cases hasked : asked call = usual
      · rw [h.skips call hasked, Option.none_or]
        tauto
      · rw [h.writes call hasked, Option.some_or, Option.getD_some]
        tauto

/-- What the last call asks for is in effect exactly if it is written, or nothing else ever
was. -/
theorem effective_iff (h : SkipsUsual given asked usual) (old : Option β) (last : α) :
    (lastGiven given old (calls ++ [last])).getD usual = asked last ↔
      asked last ≠ usual ∨ (∀ call ∈ calls, asked call = usual) ∧ old.getD usual = usual := by
  rw [lastGiven_concat]
  by_cases hasked : asked last = usual
  · rw [h.skips last hasked, Option.none_or, hasked, h.getD_lastGiven]
    simp
  · rw [h.writes last hasked, Option.some_or, Option.getD_some]
    exact iff_of_true rfl (.inl hasked)

end SkipsUsual

/-! ## Placements -/

namespace Placement

/-- The entries of a transformation are those of the placement, and there is no rotation if it
gives none. -/
structure DescribedBy (p : Placement) (t : Modification) : Prop where
  extent : t.get? "extent" = some (.list [p.extent.1.toValue, p.extent.2.toValue])
  origin : t.get? "origin" = some p.origin.toValue
  rotation : t.get? "rotation" = p.rotation.map fun degrees => .scalar (.number degrees)

theorem transformation_of_apply {p : Placement} {m after : Modification}
    (h : p.apply m = (.ok (), after)) :
    after.mapAlong place = p.writeTransformation (m.mapAlong place) := by
  rcases apply_cases p m with ⟨-, e, happly⟩ | ⟨icon, -, -, e, happly⟩ |
    ⟨icon, t, hicon, ht, happly⟩
  · rw [happly] at h
    cases h
  · rw [happly] at h
    cases h
  · rw [happly] at h
    cases h
    rw [(mapAlong_written p m icon t).2, mapAlong_place hicon ht]

def transformationOf (a : Attributes) : Modification :=
  a.annotations.mapAlong place

theorem transformation_of_setPlacement {p : Placement} {a after : Attributes}
    (h : Attributes.setPlacement p a = (.ok (), after)) :
    transformationOf after = p.writeTransformation (transformationOf a) := by
  obtain ⟨hresult, rfl⟩ := Prod.mk.inj h
  exact transformation_of_apply (Prod.ext hresult rfl)

/-- Extent and origin are those of the last placement. The rotation is the last one that was
given, so the declaration is described by its last placement exactly if that gives one, or no
placement did and there was none before. -/
theorem moved_described_iff {earlier : List Placement} {last : Placement}
    {before after : Attributes}
    (h : (earlier ++ [last]).forM Attributes.setPlacement before = (.ok (), after)) :
    (transformationOf after).get? "extent" =
      some (.list [last.extent.1.toValue, last.extent.2.toValue]) ∧
    (transformationOf after).get? "origin" = some last.origin.toValue ∧
    (transformationOf after).get? "rotation" =
      lastGiven rotationValue? ((transformationOf before).get? "rotation") (earlier ++ [last]) ∧
    (last.DescribedBy (transformationOf after) ↔
      last.rotation ≠ none ∨
        (∀ p ∈ earlier, p.rotation = none) ∧
          (transformationOf before).get? "rotation" = none) := by
  have hrun := Edit.forM_view transformationOf (fun t p => p.writeTransformation t)
    (fun _ _ => transformation_of_setPlacement) h
  have hrotation : (transformationOf after).get? "rotation" =
      lastGiven rotationValue? ((transformationOf before).get? "rotation") (earlier ++ [last]) := by
    rw [hrun, lastGiven]
    exact (List.foldl_hom (Modification.get? · "rotation") fun t p => (get?_rotation p t).symm).symm
  obtain ⟨mid, hmid⟩ : ∃ mid, transformationOf after = last.writeTransformation mid := by
    rw [hrun, List.foldl_append]
    exact ⟨_, rfl⟩
  have hextent := get?_extent last mid
  have horigin := get?_origin last mid
  rw [← hmid] at hextent horigin
  refine ⟨hextent, horigin, hrotation, ?_⟩
  have hdescribed : last.DescribedBy (transformationOf after) ↔
      (transformationOf after).get? "rotation" = last.rotationValue? :=
    ⟨fun h => h.rotation, fun h => ⟨hextent, horigin, h⟩⟩
  rw [hdescribed, hrotation, lastGiven_concat]
  cases hlast : last.rotation with
  | some degrees => simp [rotationValue?, hlast]
  | none =>
      have hnone : ∀ p : Placement, p.rotationValue? = none ↔ p.rotation = none := by
        simp [rotationValue?]
      rw [(hnone last).2 hlast, Option.none_or, lastGiven_eq_none]
      simp [hnone]

/-- A declaration that is turned by a quarter and then by a half is turned by a half. -/
theorem moved_described_iff_turned_twice :
    let quarter : Placement := { atPoint 1 2 with rotation := some 90 }
    let half : Placement := { atPoint 3 4 with rotation := some 180 }
    ∃ after, [quarter, half].forM Attributes.setPlacement {} = (.ok (), after) ∧
      half.DescribedBy (transformationOf after) := by
  intro quarter half
  have hrun : ([quarter] ++ [half]).forM Attributes.setPlacement {} = (.ok (), _) := rfl
  exact ⟨_, hrun, (moved_described_iff hrun).2.2.2.2 (.inl nofun)⟩

/-- A declaration that is turned and then moved to a place without a turn stays turned. -/
theorem moved_keeps_rotation :
    let turned : Placement := { atPoint 1 2 with rotation := some 90 }
    let plain : Placement := atPoint 3 4
    ∃ after, [turned, plain].forM Attributes.setPlacement {} = (.ok (), after) ∧
      (transformationOf after).get? "rotation" = some (.scalar (.number 90)) ∧
      ¬ plain.DescribedBy (transformationOf after) := by
  intro turned plain
  have hrun : [turned, plain].forM Attributes.setPlacement {} = (.ok (), _) := rfl
  refine ⟨_, hrun, rfl, fun hdescribed => ?_⟩
  cases hdescribed.rotation

end Placement

/-! ## Experiments -/

theorem Modification.get?_setAll {entries : List (String × Value)} {name : String}
    (h : entries.lookup name = none) (m : Modification) :
    (m.setAll entries).get? name = m.get? name := by
  induction entries generalizing m with
  | nil => rfl
  | cons entry rest ih =>
      obtain ⟨key, value⟩ := entry
      rw [List.lookup_cons] at h
      split at h
      · cases h
      · next hkey =>
          show ((m.set key value).setAll rest).get? name = m.get? name
          rw [ih h, get?_set, if_neg (beq_eq_false_iff_ne.1 hkey)]

namespace Experiment

/-- The further entries do not speak of the two times. -/
def TimesApart (e : Experiment) : Prop :=
  e.extra.contains "StartTime" = false ∧ e.extra.contains "StopTime" = false

theorem get?_write {e : Experiment} (h : e.TimesApart) (m : Modification) :
    (e.write m).get? "StartTime" = e.startValue.or (m.get? "StartTime") ∧
      (e.write m).get? "StopTime" = e.stopValue.or (m.get? "StopTime") := by
  have hstart : e.extra.entries.lookup "StartTime" = none := by
    simpa [Modification.contains, Modification.get?] using h.1
  have hstop : e.extra.entries.lookup "StopTime" = none := by
    simpa [Modification.contains, Modification.get?] using h.2
  refine ⟨?_, ?_⟩
  · rw [write, Modification.get?_setAll hstart]
    simp [Modification.get?_writeOptional]
  · rw [write, Modification.get?_setAll hstop]
    simp [Modification.get?_writeOptional]

theorem start_usual (e : Experiment) :
    Value.scalar (.number e.start) = .integer 0 ↔ e.start.isZero = true := by
  rw [Value.integer, Value.scalar.injEq, Scalar.number_eq_zero_iff]

theorem stop_usual (e : Experiment) :
    Value.scalar (.number e.stop) = .integer 1 ↔ e.stop = 1 := by
  rw [Value.integer, Value.scalar.injEq, Scalar.number_eq_one_iff]

theorem startValue_skips :
    SkipsUsual startValue (fun e => .scalar (.number e.start)) (.integer 0) where
  skips e h := if_pos (e.start_usual.1 h)
  writes e h := if_neg fun hzero => h (e.start_usual.2 hzero)

theorem stopValue_skips :
    SkipsUsual stopValue (fun e => .scalar (.number e.stop)) (.integer 1) where
  skips e h := if_pos (e.stop_usual.1 h)
  writes e h := if_neg fun hone => h (e.stop_usual.2 hone)

end Experiment

namespace Document

/-- The experiment annotation; empty if there is none. -/
def experiment (d : Document) : Modification :=
  d.annotations.mapAlong ["experiment"]

/-- The start time in effect, which is zero if none is given. -/
def startTime (d : Document) : Value :=
  (d.experiment.get? "StartTime").getD (.integer 0)

/-- The stop time in effect, which is one if none is given. -/
def stopTime (d : Document) : Value :=
  (d.experiment.get? "StopTime").getD (.integer 1)

theorem experiment_of_setExperiment {e : Experiment} {d after : Document}
    (h : setExperiment e d = (.ok (), after)) : after.experiment = e.write d.experiment := by
  have hset : setExperiment e d = (editAnnotations (Modification.descend ["experiment"]
      (Edit.always e.write))) d := rfl
  rw [hset, editAnnotations] at h
  cases hmap : d.annotations.mapAt "experiment" with
  | error shape =>
      rw [Modification.descend, Modification.descendFrom_cons_error hmap] at h
      cases h
  | ok inner =>
      have hpass : d.annotations.Passable ["experiment"] := ⟨inner, hmap, trivial⟩
      rw [Modification.descend, Modification.descendFrom_of_passable hpass] at h
      cases h
      exact Modification.mapAlong_graft hpass _

/-- The start time is that of the last call exactly if it is written, since it is not zero, or
the start was zero in all calls before and to begin with; and so is the stop time, with one
for zero. -/
theorem times_of_last_call_iff {earlier : List Experiment} {last : Experiment}
    {d after : Document} (hapart : ∀ e ∈ earlier ++ [last], e.TimesApart)
    (h : (earlier ++ [last]).forM setExperiment d = (.ok (), after)) :
    (after.startTime = .scalar (.number last.start) ↔
      last.start.isZero = false ∨
        (∀ e ∈ earlier, e.start.isZero = true) ∧ d.startTime = .integer 0) ∧
    (after.stopTime = .scalar (.number last.stop) ↔
      last.stop ≠ 1 ∨ (∀ e ∈ earlier, e.stop = 1) ∧ d.stopTime = .integer 1) := by
  have hstart := Edit.forM_view (fun d : Document => d.experiment.get? "StartTime")
    (fun kept e => e.startValue.or kept) (fun e he _ _ hset => by
      rw [experiment_of_setExperiment hset, (Experiment.get?_write (hapart e he) _).1]) h
  have hstop := Edit.forM_view (fun d : Document => d.experiment.get? "StopTime")
    (fun kept e => e.stopValue.or kept) (fun e he _ _ hset => by
      rw [experiment_of_setExperiment hset, (Experiment.get?_write (hapart e he) _).2]) h
  rw [startTime, hstart, stopTime, hstop]
  refine ⟨(Experiment.startValue_skips.effective_iff _ last).trans ?_,
    (Experiment.stopValue_skips.effective_iff _ last).trans ?_⟩
  · simp only [ne_eq, Experiment.start_usual, Bool.not_eq_true]
    rfl
  · simp only [ne_eq, Experiment.stop_usual]
    rfl

/-- Times that are both written by the second call. -/
theorem times_of_last_call_iff_written :
    let first : Experiment := { start := 5, stop := 10 }
    let second : Experiment := { start := 2, stop := 20 }
    ∃ after, [first, second].forM setExperiment { ident := "M" } = (.ok (), after) ∧
      after.startTime = .scalar (.number 2) ∧ after.stopTime = .scalar (.number 20) := by
  intro first second
  have hapart : ∀ e ∈ [first] ++ [second], e.TimesApart := by
    intro e he
    rcases List.mem_pair.1 he with rfl | rfl <;> exact ⟨rfl, rfl⟩
  have hrun : ([first] ++ [second]).forM setExperiment { ident := "M" } = (.ok (), _) := rfl
  obtain ⟨hstart, hstop⟩ := times_of_last_call_iff hapart hrun
  exact ⟨_, hrun, hstart.2 (.inl (by decide)), hstop.2 (.inl (by decide))⟩

/-- A start at five is still in effect after the experiment was set to start at zero. -/
theorem start_stays_after_zero :
    let first : Experiment := { start := 5, stop := 10 }
    let second : Experiment := { start := 0, stop := 10 }
    let d := run { ident := "M" } [.setExperiment first]
    ∃ after, second.TimesApart ∧ setExperiment second d = (.ok (), after) ∧
      after.startTime = .scalar (.number 5) ∧
      after.startTime ≠ .scalar (.number second.start) := by
  intro first second d
  have hfirst : setExperiment first { ident := "M" } = (.ok (), d) := rfl
  have hsecond : setExperiment second d = (.ok (), d.run [.setExperiment second]) := rfl
  have hwritten : first.startValue = some (.scalar (.number 5)) := if_neg (by decide)
  have hskipped : second.startValue = none := if_pos (by decide)
  have hstart : (d.run [.setExperiment second]).startTime = .scalar (.number 5) := by
    rw [startTime, experiment_of_setExperiment hsecond, (Experiment.get?_write ⟨rfl, rfl⟩ _).1,
      experiment_of_setExperiment hfirst, (Experiment.get?_write ⟨rfl, rfl⟩ _).1, hwritten,
      hskipped]
    rfl
  have hzero : Value.scalar (.number second.start) = .integer 0 := second.start_usual.2 (by decide)
  refine ⟨_, ⟨rfl, rfl⟩, hsecond, hstart, fun heq => ?_⟩
  have hfive := first.start_usual.1 (hstart.symm.trans (heq.trans hzero))
  exact absurd hfive (by decide)

end Document

end ModelSource

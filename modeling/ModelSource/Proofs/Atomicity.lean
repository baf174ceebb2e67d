import ModelSource.Proofs.Reachable

/-!
# A call that fails changes nothing

Most operations check everything before they touch the document, and for those
there is nothing to show. The three that write annotations work differently: they
walk down a path, make the maps that are missing as they go, and may be stopped
further down by an entry that is no map. What was made on the way is not undone.

It does not have to be. A map that was missing is made empty, and in an empty map
every further name is missing too, so a walk that has made a map meets nothing
that could stop it. A walk that is stopped has therefore only gone through maps
that were there, and has put each of them back where it was. That is
`descendFrom_atomic`; it asks of the edit at the end of the path that it keeps
to the same rule and does not fail in an empty map.

The drawing area of both layers is the exception: it is two walks, and the first
has done its work when the second is stopped.
-/

namespace ModelSource

/-- If the edit fails in this state, it leaves the state as it was. -/
def Edit.AtomicOn (edit : Edit σ α) (state : σ) : Prop :=
  ∀ e, (edit state).1 = .error e → (edit state).2 = state

/-- The walk to a layer was stopped, there or further down. -/
def Error.FromLayer (layer : String) (e : Error) : Prop :=
  ∃ rest shape, e = .violation (.occupiedEntry (layer :: rest) shape)

/-! ## Walks -/

theorem Ordered.put_of_lookup {entries : List (String × α)} {name : String} {value : α}
    (h : entries.lookup name = some value) : put name value entries = entries := by
  induction entries with
  | nil => cases h
  | cons entry rest ih =>
      obtain ⟨key, old⟩ := entry
      rw [List.lookup_cons] at h
      by_cases hk : key = name
      · subst hk
        have hold : old = value := by simpa using h
        rw [put, if_pos rfl, hold]
      · have hne : (name == key) = false := beq_eq_false_iff_ne.2 fun heq => hk heq.symm
        rw [hne] at h
        rw [put, if_neg hk, ih h]

namespace Modification

theorem set_of_get? {m : Modification} {name : String} {value : Value}
    (h : m.get? name = some value) : m.set name value = m := by
  obtain ⟨entries⟩ := m
  exact congrArg Modification.mk (Ordered.put_of_lookup h)

theorem get?_set (m : Modification) (name : String) (value : Value) (other : String) :
    (m.set name value).get? other = if other = name then some value else m.get? other :=
  Ordered.lookup_put name value m.entries other

theorem set_set (m : Modification) (name : String) (first second : Value) :
    (m.set name first).set name second = m.set name second := by
  obtain ⟨entries⟩ := m
  refine congrArg Modification.mk ?_
  induction entries with
  | nil => simp [set, Ordered.put]
  | cons entry rest ih =>
      obtain ⟨key, old⟩ := entry
      by_cases hkey : key = name
      · simp [set, Ordered.put, hkey]
      · simpa [set, Ordered.put, hkey] using ih

theorem mapAt_set (m : Modification) (name : String) (inner : Modification) :
    (m.set name (.map inner)).mapAt name = .ok inner := by
  rw [mapAt, get?_set, if_pos rfl]

theorem mapAt_eq_ok {m inner : Modification} {name : String} (h : m.mapAt name = .ok inner) :
    m.get? name = some (.map inner) ∨ m.get? name = none ∧ inner = ∅ := by
  unfold mapAt at h
  split at h
  · next hnone =>
      cases h
      exact .inr ⟨hnone, rfl⟩
  · next hsome =>
      cases h
      exact .inl hsome
  · cases h

variable {edit : Edit Modification α}

theorem descendFrom_cons_ok {m inner : Modification} {name : String}
    (h : m.mapAt name = .ok inner) (walked rest : List String) :
    descendFrom walked edit (name :: rest) m =
      ((descendFrom (walked ++ [name]) edit rest inner).1,
        m.set name (.map (descendFrom (walked ++ [name]) edit rest inner).2)) := by
  rw [descendFrom]
  simp only [h]
  rfl

theorem descendFrom_cons_error {m : Modification} {name : String} {shape : Shape}
    (h : m.mapAt name = .error shape) (walked rest : List String) :
    descendFrom walked edit (name :: rest) m =
      (.error (.violation (.occupiedEntry (walked ++ [name]) shape)), m) := by
  rw [descendFrom]
  simp only [h]

/-- Nothing stops a walk that starts in an empty map. -/
theorem descendFrom_empty (hempty : ∀ e, (edit ∅).1 ≠ .error e) (path walked : List String)
    (e : Error) : (descendFrom walked edit path ∅).1 ≠ .error e := by
  induction path generalizing walked with
  | nil => exact hempty e
  | cons name rest ih =>
      have hmissing : (∅ : Modification).mapAt name = .ok ∅ := rfl
      rw [descendFrom_cons_ok hmissing]
      exact ih (walked ++ [name])

/-- A walk that is stopped has changed nothing. -/
theorem descendFrom_atomic (hedit : ∀ m, edit.AtomicOn m) (hempty : ∀ e, (edit ∅).1 ≠ .error e)
    (path walked : List String) (m : Modification) : (descendFrom walked edit path).AtomicOn m := by
  induction path generalizing walked m with
  | nil => exact hedit m
  | cons name rest ih =>
      intro e he
      cases hmap : m.mapAt name with
      | error shape => rw [descendFrom_cons_error hmap]
      | ok inner =>
          rw [descendFrom_cons_ok hmap] at he ⊢
          have hinner := ih (walked ++ [name]) inner e he
          rcases mapAt_eq_ok hmap with hthere | ⟨-, rfl⟩
          · rw [hinner]
            exact set_of_get? hthere
          · -- the map was made here, and from here on nothing could fail
            exact (descendFrom_empty hempty rest (walked ++ [name]) e he).elim

end Modification

namespace Document

theorem editAnnotations_atomic {edit : Edit Modification α} {d : Document}
    (h : edit.AtomicOn d.annotations) : (editAnnotations edit).AtomicOn d := by
  intro e he
  have hkept : (edit d.annotations).2 = d.annotations := h e he
  show { d with annotations := (edit d.annotations).2 } = d
  rw [hkept]

/-- The walk into the map that was just put there is not stopped. -/
theorem freshEntry_eq (path : List String) (name : String) (replacing : Bool)
    (edit : Edit Modification α) (m : Modification) :
    freshEntry path name replacing edit m =
      if m.contains name && !replacing then (.error (.violation (.annotationsExist path)), m)
      else ((edit ∅).1, m.set name (.map (edit ∅).2)) := by
  have hwalk : Modification.descend [name] edit (m.set name (.map ∅)) =
      ((edit ∅).1, m.set name (.map (edit ∅).2)) := by
    rw [Modification.descend, Modification.descendFrom_cons_ok (m.mapAt_set name ∅),
      Modification.set_set]
    rfl
  rw [freshEntry, hwalk]

theorem freshEntry_atomic (path : List String) (name : String) (replacing : Bool)
    (f : Modification → Modification) (m : Modification) :
    (freshEntry path name replacing (Edit.always f)).AtomicOn m := by
  intro e he
  rw [freshEntry_eq] at he ⊢
  split at he
  · next htaken => rw [if_pos htaken]
  · cases he

theorem freshEntry_empty (path : List String) (name : String) (replacing : Bool)
    (f : Modification → Modification) (e : Error) :
    (freshEntry path name replacing (Edit.always f) ∅).1 ≠ .error e := by
  rw [freshEntry_eq, if_neg (by simp [Modification.contains, Modification.get?,
    EmptyCollection.emptyCollection, Modification.empty])]
  exact nofun

theorem addAnnotations_atomic (path : List String) (replacing : Bool)
    (f : Modification → Modification) (d : Document) :
    (addAnnotations path replacing (Edit.always f)).AtomicOn d := by
  unfold addAnnotations
  split
  · exact editAnnotations_atomic fun _ he => nomatch he
  · next name _ =>
      exact editAnnotations_atomic (Modification.descendFrom_atomic
        (freshEntry_atomic path name replacing f) (freshEntry_empty path name replacing f) _ _ _)

/-! ## The drawing area -/

/-- The annotations of the document with the drawing area of a layer in them, for
the two maps on the way to it. -/
def extentWritten (d : Document) (layer : String) (outer system : Modification) (value : Value) :
    Document :=
  { d with
    annotations :=
      d.annotations.set layer
        (.map (outer.set "coordinateSystem" (.map (system.set "extent" value)))) }

theorem setLayerExtent_atomic (value : Value) (layer : String) (d : Document) :
    (setLayerExtent value layer).AtomicOn d := by
  refine editAnnotations_atomic (Modification.descendFrom_atomic ?_ ?_ _ _ _)
  · intro m e he
    cases he
  · intro e he
    cases he

/-- The walk to a layer is stopped under the layer's own name, or it leads through
two maps, made where they were missing. -/
theorem setLayerExtent_cases (value : Value) (layer : String) (d : Document) :
    (∃ e, setLayerExtent value layer d = (.error e, d) ∧ e.FromLayer layer) ∨
      ∃ outer system, d.annotations.mapAt layer = .ok outer ∧
        outer.mapAt "coordinateSystem" = .ok system ∧
        setLayerExtent value layer d = (.ok (), d.extentWritten layer outer system value) := by
  have hatomic := setLayerExtent_atomic value layer d
  have hwalk : setLayerExtent value layer d =
      editAnnotations (Modification.descendFrom [] (fun m => (.ok (), m.set "extent" value))
        [layer, "coordinateSystem"]) d := rfl
  rw [editAnnotations] at hwalk
  cases houter : d.annotations.mapAt layer with
  | error shape =>
      rw [Modification.descendFrom_cons_error houter] at hwalk
      exact .inl ⟨_, hwalk, [], shape, rfl⟩
  | ok outer =>
      rw [Modification.descendFrom_cons_ok houter] at hwalk
      cases hsystem : outer.mapAt "coordinateSystem" with
      | error shape =>
          rw [Modification.descendFrom_cons_error hsystem] at hwalk
          have hresult := congrArg Prod.fst hwalk
          exact .inl ⟨_, Prod.ext hresult (hatomic _ hresult), ["coordinateSystem"], shape, rfl⟩
      | ok system =>
          rw [Modification.descendFrom_cons_ok hsystem] at hwalk
          exact .inr ⟨outer, system, rfl, hsystem, hwalk⟩

theorem setExtents_cons_ok {value : Value} {layer : String} {d after : Document}
    (h : setLayerExtent value layer d = (.ok (), after)) (rest : List String) :
    setExtents value (layer :: rest) d = setExtents value rest after := by
  rw [setExtents, Edit.bind_apply, h]

theorem setExtents_cons_error {value : Value} {layer : String} {d after : Document} {e : Error}
    (h : setLayerExtent value layer d = (.error e, after)) (rest : List String) :
    setExtents value (layer :: rest) d = (.error e, after) := by
  rw [setExtents, Edit.bind_apply, h]

/-- One layer alone fails on its own account and leaves nothing behind. -/
theorem setExtents_singleton_error {value : Value} {layer : String} {d : Document} {e : Error}
    (h : (setExtents value [layer] d).1 = .error e) :
    (setExtents value [layer] d).2 = d ∧ e.FromLayer layer := by
  rcases setLayerExtent_cases value layer d with
    ⟨cause, hlayer, hfrom⟩ | ⟨outer, system, _, _, hlayer⟩
  · rw [setExtents_cons_error hlayer] at h ⊢
    obtain rfl : cause = e := Except.error.inj h
    exact ⟨rfl, hfrom⟩
  · rw [setExtents_cons_ok hlayer] at h
    cases h

/-- What is left behind when the drawing area cannot be written: nothing, unless it
is meant for both layers and the second has no place for it. -/
theorem setExtent_error {lower upper : Point} {layer : Layer} {d : Document} {e : Error}
    (h : (setExtent lower upper layer d).1 = .error e) :
    (¬ (layer = .both ∧ e.FromLayer "Icon") → (setExtent lower upper layer d).2 = d) ∧
      (layer = .both ∧ e.FromLayer "Icon" →
        ∃ outer system, d.annotations.mapAt "Diagram" = .ok outer ∧
          outer.mapAt "coordinateSystem" = .ok system ∧
          (setExtent lower upper layer d).2 =
            d.extentWritten "Diagram" outer system (extentValue lower upper)) := by
  unfold setExtent at h ⊢
  cases layer with
  | diagram => exact ⟨fun _ => (setExtents_singleton_error h).1, fun hboth => nomatch hboth.1⟩
  | icon => exact ⟨fun _ => (setExtents_singleton_error h).1, fun hboth => nomatch hboth.1⟩
  | both =>
      rw [Layer.names] at h ⊢
      rcases setLayerExtent_cases (extentValue lower upper) "Diagram" d with
        ⟨cause, hdiagram, hfrom⟩ | ⟨outer, system, houter, hsystem, hdiagram⟩
      · -- stopped at the diagram, so the error is none of the icon's
        rw [setExtents_cons_error hdiagram] at h ⊢
        obtain rfl : cause = e := Except.error.inj h
        refine ⟨fun _ => rfl, fun ⟨_, hicon⟩ => ?_⟩
        obtain ⟨rest, shape, rfl⟩ := hfrom
        obtain ⟨rest', shape', heq⟩ := hicon
        simp at heq
      · rw [setExtents_cons_ok hdiagram] at h ⊢
        obtain ⟨hkept, hfrom⟩ := setExtents_singleton_error h
        exact ⟨fun hother => (hother ⟨rfl, hfrom⟩).elim,
          fun _ => ⟨outer, system, houter, hsystem, hkept⟩⟩

/-! ## All operations -/

theorem add_atomic (element : Element) (target : Section) (d : Document) :
    (add element target).AtomicOn d := by
  intro e he
  unfold add at he ⊢
  split at he
  · cases he
  · rfl

theorem addTo_atomic (element : Element) (name : String) (d : Document) :
    (addTo element name).AtomicOn d := by
  unfold addTo
  split
  · next target _ => exact add_atomic element target d
  · intro e _
    rfl

theorem addDeclaration_atomic (typeName ident : String) (options : DeclarationOptions)
    (d : Document) : (addDeclaration typeName ident options).AtomicOn d := by
  intro e he
  rw [addDeclaration_eq] at he ⊢
  split at he
  · cases he
  · rfl

theorem addConnection_atomic (refs : List String) (d : Document) :
    (addConnection refs).AtomicOn d := by
  intro e he
  rw [addConnection_eq] at he ⊢
  split at he
  · cases he
  · rfl

theorem addImport_atomic (path : String) (names : ImportNames) (d : Document) :
    (addImport path names).AtomicOn d := by
  intro e he
  rw [addImport_eq] at he ⊢
  split at he
  · cases he
  · rfl

theorem setExperiment_atomic (experiment : Experiment) (d : Document) :
    (setExperiment experiment).AtomicOn d := by
  refine editAnnotations_atomic (Modification.descendFrom_atomic ?_ ?_ _ _ _)
  · intro m e he
    cases he
  · intro e he
    cases he

/-- An operation that fails leaves the document as it was: its sections, its
registry and its annotations, each in its order. An annotation is added empty and
`f` is what the caller does with it. Where the drawing area of both layers fails
at the icon, and only there, that of the diagram has been written. -/
theorem failed_call_changes_nothing (d : Document) :
    (∀ typeName ident options, (addDeclaration typeName ident options).AtomicOn d) ∧
    (∀ typeName ident options, (addParameter typeName ident options).AtomicOn d) ∧
    (∀ refs, (addConnection refs).AtomicOn d) ∧
    (∀ path names, (addImport path names).AtomicOn d) ∧
    (∀ element target, (add element target).AtomicOn d) ∧
    (∀ element name, (addTo element name).AtomicOn d) ∧
    (∀ experiment, (setExperiment experiment).AtomicOn d) ∧
    (∀ path replacing f, (addAnnotations path replacing (Edit.always f)).AtomicOn d) ∧
    ∀ lower upper layer e, (setExtent lower upper layer d).1 = .error e →
      (¬ (layer = .both ∧ e.FromLayer "Icon") → (setExtent lower upper layer d).2 = d) ∧
        (layer = .both ∧ e.FromLayer "Icon" →
          ∃ outer system, d.annotations.mapAt "Diagram" = .ok outer ∧
            outer.mapAt "coordinateSystem" = .ok system ∧
            (setExtent lower upper layer d).2 =
              d.extentWritten "Diagram" outer system (extentValue lower upper)) := by
  refine ⟨?_, ?_, ?_, ?_, ?_, ?_, ?_, ?_, fun _ _ _ _ => setExtent_error⟩
  · exact fun typeName ident options => addDeclaration_atomic typeName ident options d
  · exact fun typeName ident options => addDeclaration_atomic typeName ident _ d
  · exact fun refs => addConnection_atomic refs d
  · exact fun path names => addImport_atomic path names d
  · exact fun element target => add_atomic element target d
  · exact fun element name => addTo_atomic element name d
  · exact fun experiment => setExperiment_atomic experiment d
  · exact fun path replacing f => addAnnotations_atomic path replacing f d

/-- An icon that is no map has no place for a drawing area, nor for anything else. Nothing
is left behind, unless the area was meant for both layers: then the diagram has it. -/
theorem failed_call_changes_nothing_icon :
    let d : Document := { annotations := ⟨[("Icon", .scalar (.bool true))]⟩ }
    let e : Error := .violation (.occupiedEntry ["Icon"] .scalar)
    let lower : Point := ⟨-100, -100⟩
    let upper : Point := ⟨100, 100⟩
    let graphics := addAnnotations ["Icon", "graphics"] true (Edit.always id)
    (graphics d).1 = .error e ∧ (graphics d).2 = d ∧
      (setExtent lower upper .icon d).1 = .error e ∧ (setExtent lower upper .icon d).2 = d ∧
      (setExtent lower upper .both d).1 = .error e ∧
      (setExtent lower upper .both d).2 =
        d.extentWritten "Diagram" ∅ ∅ (extentValue lower upper) := by
  intro d e lower upper graphics
  obtain ⟨-, -, -, -, -, -, -, hadded, hextent⟩ := failed_call_changes_nothing d
  have hicon : (setExtent lower upper .icon d).1 = .error e := rfl
  have hboth : (setExtent lower upper .both d).1 = .error e := rfl
  obtain ⟨outer, system, houter, hsystem, hwritten⟩ :=
    (hextent lower upper .both e hboth).2 ⟨rfl, [], .scalar, rfl⟩
  obtain rfl : ∅ = outer := Except.ok.inj houter
  obtain rfl : ∅ = system := Except.ok.inj hsystem
  exact ⟨rfl, hadded ["Icon", "graphics"] true id e rfl, hicon,
    (hextent lower upper .icon e hicon).1 nofun, hboth, hwritten⟩

end Document

end ModelSource

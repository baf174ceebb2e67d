import ModelSource.Proofs.Atomicity

/-!
# A walk changes the path and nothing else

There are two walks along a path. One reads, and stops where a name is missing.
The other makes what is missing and hands out the map at the end. They are written
apart, and this file shows that they see the same: one is refused exactly if the
other is, by the same entry.

What the creating walk leaves behind is said once, by `graft`: the map with another
map put at the end of a path. A walk that is not refused grafts what its edit made
of the target (`descendFrom_of_passable`), and everything else is a law of `graft`,
proved by induction on the path for every map: what is read at the end, what is left
alone beside it, and which names each level has.
-/

namespace ModelSource

/-- What names lead to inside a value. -/
def Value.reach : List String → Value → Option Value
  | [], v => some v
  | name :: rest, .map m => (m.get? name).bind (reach rest)
  | _ :: _, _ => none

namespace Modification

variable {m inner target : Modification} {name : String}

/-- What a path leads to: the map itself, if the path is empty. -/
def valueAt? (m : Modification) (path : List String) : Option Value :=
  (Value.map m).reach path

/-- The names of the map that a path leads to; none if it leads to no map. -/
def keysAt (m : Modification) (path : List String) : List String :=
  match m.valueAt? path with
  | some (.map inner) => inner.keys
  | _ => []

/-- The walk alone. It answers with the map at the end of the path. -/
def walk (path : List String) : Edit Modification Modification :=
  descend path fun target => (.ok target, target)

/-- No entry on the path is in the way. -/
def Passable : List String → Modification → Prop
  | [], _ => True
  | name :: rest, m => ∃ inner, m.mapAt name = .ok inner ∧ Passable rest inner

/-- The map with `target` at the end of a path, and maps on the way to it. -/
def graft : Modification → List String → Modification → Modification
  | _, [], target => target
  | m, name :: rest, target =>
    match m.mapAt name with
    | .ok inner => m.set name (.map (inner.graft rest target))
    | .error _ => m

/-! ## Entries -/

theorem keys_set (m : Modification) (name : String) (value : Value) :
    (m.set name value).keys = if name ∈ m.keys then m.keys else m.keys ++ [name] :=
  Ordered.map_fst_put name value m.entries

/-- Only a value that is no map is in the way. -/
theorem mapAt_eq_error {shape : Shape} (h : m.mapAt name = .error shape) :
    ∃ v, m.get? name = some v ∧ v.asMap? = none ∧ v.shape = shape := by
  unfold mapAt at h
  split at h
  · cases h
  · cases h
  · next other hnot hother =>
      cases h
      refine ⟨other, hother, ?_, rfl⟩
      cases other with
      | map inner => exact (hnot inner rfl).elim
      | scalar | tuple | assign | list => rfl

theorem valueAt?_cons (m : Modification) (name : String) (rest : List String) :
    m.valueAt? (name :: rest) = (m.get? name).bind (Value.reach rest) :=
  rfl

theorem valueAt?_empty {path : List String} (h : path ≠ []) :
    (∅ : Modification).valueAt? path = none := by
  obtain ⟨name, rest, rfl⟩ := List.exists_cons_of_ne_nil h
  rfl

/-- Behind a name that is no obstacle a path leads where the rest of it leads from
there. -/
theorem valueAt?_of_mapAt (h : m.mapAt name = .ok inner) {rest : List String} (hrest : rest ≠ []) :
    m.valueAt? (name :: rest) = inner.valueAt? rest := by
  rw [valueAt?_cons]
  rcases mapAt_eq_ok h with hthere | ⟨hnone, rfl⟩
  · rw [hthere]
    rfl
  · rw [hnone, valueAt?_empty hrest]
    rfl

theorem keysAt_of_mapAt (h : m.mapAt name = .ok inner) (rest : List String) :
    m.keysAt (name :: rest) = inner.keysAt rest := by
  rw [keysAt, keysAt, valueAt?_cons]
  rcases mapAt_eq_ok h with hthere | ⟨hnone, rfl⟩
  · rw [hthere]
    rfl
  · rw [hnone]
    cases rest <;> rfl

/-! ## What is grafted -/

theorem graft_cons (h : m.mapAt name = .ok inner) (rest : List String) (target : Modification) :
    m.graft (name :: rest) target = m.set name (.map (inner.graft rest target)) := by
  rw [graft, h]

/-- Below the end of the path everything is the target's. -/
theorem valueAt?_graft_below {path : List String} (h : m.Passable path) (target : Modification)
    (below : List String) :
    (m.graft path target).valueAt? (path ++ below) = target.valueAt? below := by
  induction path generalizing m with
  | nil => rfl
  | cons name rest ih =>
      obtain ⟨inner, hinner, hrest⟩ := h
      rw [graft_cons hinner, List.cons_append, valueAt?_cons, get?_set, if_pos rfl]
      exact ih hrest

/-- Beside the path nothing has changed. -/
theorem valueAt?_graft_apart {path other : List String} (h : m.Passable path)
    (target : Modification) (hother : ¬ other <+: path) (hpath : ¬ path <+: other) :
    (m.graft path target).valueAt? other = m.valueAt? other := by
  induction path generalizing m other with
  | nil => exact (hpath List.nil_prefix).elim
  | cons name rest ih =>
      obtain ⟨inner, hinner, hrest⟩ := h
      cases other with
      | nil => exact (hother List.nil_prefix).elim
      | cons first more =>
          rw [graft_cons hinner, valueAt?_cons, get?_set]
          by_cases hfirst : first = name
          · subst hfirst
            rw [List.cons_prefix_cons, and_iff_right rfl] at hother hpath
            have hmore : more ≠ [] := fun hnil => hother (hnil ▸ List.nil_prefix)
            rw [if_pos rfl, valueAt?_of_mapAt hinner hmore]
            exact ih hrest hother hpath
          · rw [if_neg hfirst]
            rfl

/-- On the way a level has the names it had, and the next name of the path. -/
theorem keysAt_graft_above {path : List String} (h : m.Passable path) (target : Modification)
    {above rest : List String} {next : String} (hpath : path = above ++ next :: rest) :
    (m.graft path target).keysAt above =
      if next ∈ m.keysAt above then m.keysAt above else m.keysAt above ++ [next] := by
  subst hpath
  induction above generalizing m with
  | nil =>
      obtain ⟨inner, hinner, -⟩ := h
      rw [List.nil_append, graft_cons hinner]
      exact keys_set m next _
  | cons name above ih =>
      obtain ⟨inner, hinner, hrest⟩ := h
      rw [List.cons_append, graft_cons hinner, keysAt_of_mapAt hinner,
        keysAt_of_mapAt (mapAt_set m name _), ih hrest]

/-- On the way there are maps. -/
theorem valueAt?_graft_above {path above : List String} (h : m.Passable path)
    (target : Modification) (hpath : above <+: path) :
    ∃ level, (m.graft path target).valueAt? above = some (.map level) := by
  induction path generalizing m above with
  | nil =>
      rw [List.prefix_nil.1 hpath]
      exact ⟨_, rfl⟩
  | cons name rest ih =>
      cases above with
      | nil => exact ⟨_, rfl⟩
      | cons first above =>
          obtain ⟨rfl, habove⟩ := List.cons_prefix_cons.1 hpath
          obtain ⟨inner, hinner, hrest⟩ := h
          rw [graft_cons hinner, valueAt?_cons, get?_set, if_pos rfl]
          exact ih hrest habove

theorem passable_graft {path : List String} (h : m.Passable path) (target : Modification) :
    (m.graft path target).Passable path := by
  induction path generalizing m with
  | nil => trivial
  | cons name rest ih =>
      obtain ⟨inner, hinner, hrest⟩ := h
      rw [graft_cons hinner]
      exact ⟨_, mapAt_set m name _, ih hrest⟩

/-- What is grafted second is all that is left. -/
theorem graft_graft {path : List String} (h : m.Passable path) (first second : Modification) :
    (m.graft path first).graft path second = m.graft path second := by
  induction path generalizing m with
  | nil => rfl
  | cons name rest ih =>
      obtain ⟨inner, hinner, hrest⟩ := h
      rw [graft_cons hinner, graft_cons (mapAt_set m name _), set_set, ih hrest, graft_cons hinner]

/-! ## The two walks -/

/-- The map at the end of a path that nothing is in the way of; empty if it is missing. -/
def mapAlong : List String → Modification → Modification
  | [], m => m
  | name :: rest, m =>
    match m.mapAt name with
    | .ok inner => inner.mapAlong rest
    | .error _ => ∅

/-- A walk that nothing stops edits the map at its end and grafts the result. -/
theorem descendFrom_of_passable {path : List String} (h : m.Passable path)
    (edit : Edit Modification α) (walked : List String) :
    descendFrom walked edit path m =
      ((edit (m.mapAlong path)).1, m.graft path (edit (m.mapAlong path)).2) := by
  induction path generalizing m walked with
  | nil => rfl
  | cons name rest ih =>
      obtain ⟨inner, hinner, hrest⟩ := h
      rw [descendFrom_cons_ok hinner, ih hrest, graft_cons hinner, mapAlong, hinner]

theorem mapAlong_empty (path : List String) : (∅ : Modification).mapAlong path = ∅ := by
  induction path with
  | nil => rfl
  | cons name rest ih => exact ih

/-- The reading walk finds the same map, unless a name is missing; then nothing is
there or below, and the map at the end is the empty one. -/
theorem readFrom_of_passable {path : List String} (h : m.Passable path) (walked : List String) :
    (m.readFrom walked path = .ok (some (m.mapAlong path)) ∧
        m.valueAt? path = some (.map (m.mapAlong path))) ∨
      m.readFrom walked path = .ok none ∧ m.mapAlong path = ∅ ∧
        m.valueAt? path = none := by
  induction path generalizing m walked with
  | nil => exact .inl ⟨rfl, rfl⟩
  | cons name rest ih =>
      obtain ⟨inner, hinner, hrest⟩ := h
      rw [readFrom, mapAlong, hinner, valueAt?_cons]
      rcases mapAt_eq_ok hinner with hthere | ⟨hnone, rfl⟩
      · rw [hthere]
        exact ih hrest (walked ++ [name])
      · rw [hnone]
        exact .inr ⟨rfl, mapAlong_empty rest, rfl⟩

/-- An entry on the path that is no map. -/
structure Obstructs (m : Modification) (path place : List String) (v : Value) : Prop where
  onPath : place <+: path
  there : m.valueAt? place = some v
  noMap : v.asMap? = none

theorem passable_or_obstructed (path : List String) (m : Modification) :
    m.Passable path ∨ ∃ place v, m.Obstructs path place v := by
  induction path generalizing m with
  | nil => exact .inl trivial
  | cons name rest ih =>
      cases hmap : m.mapAt name with
      | error shape =>
          obtain ⟨v, hv, hno, -⟩ := mapAt_eq_error hmap
          refine .inr ⟨[name], v, ⟨by simp, ?_, hno⟩⟩
          rw [valueAt?_cons, hv]
          rfl
      | ok inner =>
          rcases ih inner with hrest | ⟨place, v, hplace, hthere, hno⟩
          · exact .inl ⟨inner, hmap, hrest⟩
          · have hne : place ≠ [] := by
              rintro rfl
              cases hthere
              cases hno
            refine .inr ⟨name :: place, v, ⟨?_, ?_, hno⟩⟩
            · exact List.cons_prefix_cons.2 ⟨rfl, hplace⟩
            · rw [valueAt?_of_mapAt hmap hne, hthere]

/-- Both walks are stopped by the same entry, and the creating one puts every map
back where it was. -/
theorem Obstructs.stops {path place : List String} {v : Value} (h : m.Obstructs path place v)
    (edit : Edit Modification α) (walked : List String) :
    descendFrom walked edit path m =
        (.error (.violation (.occupiedEntry (walked ++ place) v.shape)), m) ∧
      m.readFrom walked path = .error (.violation (.entryNotMap (walked ++ place) v.shape)) := by
  obtain ⟨hplace, hthere, hno⟩ := h
  induction place generalizing m path walked with
  | nil =>
      cases hthere
      cases hno
  | cons name rest ih =>
      obtain ⟨more, rfl⟩ := hplace
      rw [List.cons_append]
      rw [valueAt?_cons] at hthere
      obtain ⟨entry, hentry, hreach⟩ := Option.bind_eq_some_iff.1 hthere
      cases hinner : entry.asMap? with
      | some inner =>
          -- a map on the way: both walks go on inside
          obtain rfl : entry = .map inner := by
            cases entry <;> simp_all [Value.asMap?]
          have hmap : m.mapAt name = .ok inner := by
            rw [mapAt, hentry]
          obtain ⟨hwalk, hread⟩ := ih (walked ++ [name]) (List.prefix_append rest more) hreach
          rw [List.append_assoc, List.singleton_append] at hwalk hread
          refine ⟨?_, ?_⟩
          · rw [descendFrom_cons_ok hmap, hwalk, set_of_get? hentry]
          · rw [readFrom, hentry]
            exact hread
      | none =>
          -- no name leads on from a value that is no map
          obtain rfl : rest = [] := by
            cases rest with
            | nil => rfl
            | cons => cases entry <;> simp_all [Value.asMap?, Value.reach]
          obtain rfl : entry = v := by simpa [Value.reach] using hreach
          have hmap : m.mapAt name = .error entry.shape := by
            rw [mapAt, hentry]
            cases entry <;> simp_all [Value.asMap?]
          refine ⟨descendFrom_cons_error hmap walked _, ?_⟩
          rw [readFrom, hentry]
          cases entry <;> simp_all [Value.asMap?]

/-! ## What a walk leaves -/

theorem walk_of_passable {path : List String} (h : m.Passable path) :
    walk path m = (.ok (m.mapAlong path), m.graft path (m.mapAlong path)) :=
  descendFrom_of_passable h _ []

/-- Where nothing is in the way, both walks lead to the same map. -/
theorem read_of_passable {path : List String} (h : m.Passable path) :
    ∃ found, m.read path = .ok found ∧ m.mapAlong path = found.getD ∅ := by
  rcases readFrom_of_passable h [] with ⟨hread, -⟩ | ⟨hread, hempty, -⟩
  · exact ⟨_, hread, rfl⟩
  · exact ⟨none, hread, hempty⟩

/-- The target has what was there before, which is nothing if it was missing. -/
theorem valueAt?_mapAlong {path below : List String} (h : m.Passable path) (hbelow : below ≠ []) :
    (m.mapAlong path).valueAt? below = m.valueAt? (path ++ below) := by
  induction path generalizing m with
  | nil => rfl
  | cons name rest ih =>
      obtain ⟨inner, hinner, hrest⟩ := h
      have hmore : rest ++ below ≠ [] := List.append_ne_nil_of_right_ne_nil rest hbelow
      rw [mapAlong, hinner, List.cons_append, valueAt?_of_mapAt hinner hmore]
      exact ih hrest

theorem keysAt_mapAlong {path : List String} (h : m.Passable path) :
    (m.mapAlong path).keys = m.keysAt path := by
  rw [keysAt]
  rcases readFrom_of_passable h [] with ⟨-, hthere⟩ | ⟨-, hempty, hnone⟩
  · rw [hthere]
  · rw [hempty, hnone]
    rfl

/-- The walk alone changes no value off the path. -/
theorem valueAt?_walked {path other : List String} (h : m.Passable path)
    (hother : ¬ other <+: path) :
    (m.graft path (m.mapAlong path)).valueAt? other = m.valueAt? other := by
  by_cases hpath : path <+: other
  · obtain ⟨below, rfl⟩ := hpath
    have hbelow : below ≠ [] := by
      rintro rfl
      exact hother (by simp)
    rw [valueAt?_graft_below h, valueAt?_mapAlong h hbelow]
  · exact valueAt?_graft_apart h _ hother hpath

/-- A level keeps its names in their order. One that is new stands behind them, and is
the next name of the path. -/
theorem keysAt_walked {path : List String} (h : m.Passable path) (level : List String) :
    (m.graft path (m.mapAlong path)).keysAt level = m.keysAt level ∨
      ∃ next, level ++ [next] <+: path ∧ next ∉ m.keysAt level ∧
        (m.graft path (m.mapAlong path)).keysAt level = m.keysAt level ++ [next] := by
  by_cases hlevel : level <+: path
  · obtain ⟨rest, hpath⟩ := hlevel
    cases rest with
    | nil =>
        rw [List.append_nil] at hpath
        subst hpath
        have hbelow := valueAt?_graft_below h (m.mapAlong level) []
        rw [List.append_nil] at hbelow
        left
        rw [← keysAt_mapAlong h, keysAt, hbelow]
        rfl
    | cons next rest =>
        have habove := keysAt_graft_above h (m.mapAlong path) hpath.symm
        by_cases hnext : next ∈ m.keysAt level
        · exact .inl (habove.trans (if_pos hnext))
        · refine .inr ⟨next, ⟨rest, ?_⟩, hnext, habove.trans (if_neg hnext)⟩
          rw [List.append_assoc, List.singleton_append, hpath]
  · left
    rw [keysAt, keysAt, valueAt?_walked h hlevel]

theorem map_walked {path level : List String} (h : m.Passable path)
    (hlevel : m.valueAt? level = some (.map inner)) :
    ∃ inner', (m.graft path (m.mapAlong path)).valueAt? level = some (.map inner') := by
  by_cases hon : level <+: path
  · exact valueAt?_graft_above h _ hon
  · exact ⟨inner, (valueAt?_walked h hon).trans hlevel⟩

theorem mapAlong_graft {path : List String} (h : m.Passable path) (target : Modification) :
    (m.graft path target).mapAlong path = target := by
  induction path generalizing m with
  | nil => rfl
  | cons name rest ih =>
      obtain ⟨inner, hinner, hrest⟩ := h
      rw [graft_cons hinner, mapAlong, mapAt_set]
      exact ih hrest

theorem read_graft {path : List String} (h : m.Passable path) (target : Modification) :
    (m.graft path target).read path = .ok (some target) := by
  have hbelow := valueAt?_graft_below h target []
  rw [List.append_nil] at hbelow
  rcases readFrom_of_passable (passable_graft h target) [] with ⟨hread, -⟩ | ⟨-, -, hnone⟩
  · rw [mapAlong_graft h] at hread
    exact hread
  · rw [hbelow] at hnone
    cases hnone

/-- An edit at the end of the path has the same outcome before and after the walk. -/
theorem descend_graft {path : List String} (h : m.Passable path) (edit : Edit Modification α) :
    descend path edit (m.graft path (m.mapAlong path)) = descend path edit m := by
  rw [descend, descendFrom_of_passable h, descendFrom_of_passable (passable_graft h _),
    mapAlong_graft h, graft_graft h]

/-- Setting an entry of the target changes that entry, what is below it and the maps
around it. -/
theorem valueAt?_entry_set {path : List String} (h : m.Passable path) (target : Modification)
    (name : String) (value : Value) {other : List String} (hother : ¬ other <+: path)
    (hentry : ¬ path ++ [name] <+: other) :
    (m.graft path (target.set name value)).valueAt? other =
      (m.graft path target).valueAt? other := by
  by_cases hpath : path <+: other
  · obtain ⟨below, rfl⟩ := hpath
    rw [valueAt?_graft_below h, valueAt?_graft_below h]
    cases below with
    | nil => exact (hother (by simp)).elim
    | cons first rest =>
        have hfirst : first ≠ name := by
          rintro rfl
          exact hentry ⟨rest, by simp⟩
        rw [valueAt?_cons, get?_set, if_neg hfirst]
        rfl
  · rw [valueAt?_graft_apart h _ hother hpath, valueAt?_graft_apart h _ hother hpath]

/-- The two walks along a path agree. The creating walk is refused exactly if the reading
one is, by the same entry, and then leaves the map as it was. Otherwise both lead to
one map, the empty one if it was missing; no value off the path has changed, every level
has kept its names and has at most got the next name of the path at its end, and a
further walk finds everything in place. An entry that is then set at the end of the path
is all that changes, with what is below it and the maps around it. -/
theorem walk_touches_path_only (m : Modification) (path : List String) :
    ((∃ target, (walk path m).1 = .ok target) ↔ ∃ found, m.read path = .ok found) ∧
    (∀ e, (walk path m).1 = .error e →
      ∃ place v, place <+: path ∧ m.valueAt? place = some v ∧ v.asMap? = none ∧
        e = .violation (.occupiedEntry place v.shape) ∧
        m.read path = .error (.violation (.entryNotMap place v.shape)) ∧
        (walk path m).2 = m) ∧
    ∀ target after, walk path m = (.ok target, after) →
      after.read path = .ok (some target) ∧
      (∀ found, m.read path = .ok found → target = found.getD ∅) ∧
      (∀ other, ¬ other <+: path → after.valueAt? other = m.valueAt? other) ∧
      (∀ level inner, m.valueAt? level = some (.map inner) →
        ∃ inner', after.valueAt? level = some (.map inner')) ∧
      (∀ level, after.keysAt level = m.keysAt level ∨
        ∃ next, level ++ [next] <+: path ∧ next ∉ m.keysAt level ∧
          after.keysAt level = m.keysAt level ++ [next]) ∧
      walk path after = (.ok target, after) ∧
      (∀ edit : Edit Modification Unit, descend path edit m = descend path edit after) ∧
      ∀ name value,
        let changed := (descend path (Edit.always (·.set name value)) after).2
        changed.valueAt? (path ++ [name]) = some value ∧
        ∀ other, ¬ other <+: path → ¬ path ++ [name] <+: other →
          changed.valueAt? other = after.valueAt? other := by
  rcases passable_or_obstructed path m with hpass | ⟨place, v, hobstructs⟩
  · have hwalk := walk_of_passable hpass
    obtain ⟨found, hread, htarget⟩ := read_of_passable hpass
    refine ⟨⟨fun _ => ⟨found, hread⟩, fun _ => ⟨_, congrArg Prod.fst hwalk⟩⟩, ?_, ?_⟩
    · intro e he
      rw [hwalk] at he
      cases he
    · intro target after hdone
      rw [hwalk] at hdone
      cases hdone
      refine ⟨read_graft hpass _, ?_, fun other => valueAt?_walked hpass,
        fun level inner => map_walked hpass, keysAt_walked hpass, ?_,
        fun edit => (descend_graft hpass edit).symm, ?_⟩
      · intro found' hread'
        rw [hread] at hread'
        cases hread'
        exact htarget
      · rw [walk, descend_graft hpass]
        exact hwalk
      · intro name value
        have hset := descendFrom_of_passable hpass (Edit.always (·.set name value)) []
        rw [descend_graft hpass, descend, hset]
        refine ⟨?_, fun other => valueAt?_entry_set hpass _ name value⟩
        rw [valueAt?_graft_below hpass]
        show ((m.mapAlong path).set name value).valueAt? [name] = some value
        rw [valueAt?_cons, get?_set, if_pos rfl]
        rfl
  · obtain ⟨hwalk, hread⟩ := hobstructs.stops (fun target => (.ok target, target)) []
    rw [List.nil_append] at hwalk hread
    change walk path m = _ at hwalk
    change m.read path = _ at hread
    refine ⟨⟨fun hwalked => ?_, fun hfound => ?_⟩, fun e he => ?_, fun _ _ hok => ?_⟩
    · obtain ⟨_, hok⟩ := hwalked
      rw [hwalk] at hok
      cases hok
    · obtain ⟨_, hok⟩ := hfound
      rw [hread] at hok
      cases hok
    · rw [hwalk] at he ⊢
      cases he
      exact ⟨place, v, hobstructs.onPath, hobstructs.there, hobstructs.noMap, rfl, hread, rfl⟩
    · rw [hwalk] at hok
      cases hok

end Modification

end ModelSource

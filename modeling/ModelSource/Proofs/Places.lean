import ModelSource.Proofs.Lines

/-!
# Where a write goes

A path is text, and two different paths may lead to one place: through `.` and
`..`, through doubled slashes, or because one starts at the root. A write is
therefore followed by place and not by path. It changes what stands at one place
and turns no folder into a file or a file into a folder, so every path leads where
it led before.

A name joined to the path of a folder leads to that name inside the folder
(`resolve_joinPath`), whichever way the path of the folder is spelt.
-/

namespace ModelSource

namespace FileTree

variable {t t' : FileTree} {path folder name : String} {content : Content} {place found : Place}

/-! ## What a write changes -/

theorem lookup_cons_eq (key : Place) (entry : FileEntry) (rest : List (Place × FileEntry))
    (place : Place) :
    ((key, entry) :: rest).lookup place =
      if place = key then some entry else rest.lookup place := by
  rw [List.lookup_cons]
  by_cases h : place = key
  · rw [if_pos h, h, beq_self_eq_true]
  · rw [if_neg h, beq_eq_false_iff_ne.2 h]

theorem lookup_replace (place : Place) (entry : FileEntry) (entries : List (Place × FileEntry))
    (other : Place) :
    (putAt.replace place entry entries).lookup other =
      if other = place then some entry else entries.lookup other := by
  induction entries with
  | nil => rw [putAt.replace, lookup_cons_eq]
  | cons item rest ih =>
      obtain ⟨key, old⟩ := item
      rw [putAt.replace]
      by_cases hkey : key = place
      · subst hkey
        rw [if_pos rfl, lookup_cons_eq, lookup_cons_eq]
        split <;> rfl
      · rw [if_neg hkey, lookup_cons_eq, lookup_cons_eq, ih]
        by_cases h : other = key
        · have hother : other ≠ place := fun heq => hkey (h.symm.trans heq)
          rw [if_pos h, if_neg hother, if_pos h]
        · rw [if_neg h, if_neg h]

theorem entryAt?_putAt (hplace : place ≠ []) (entry : FileEntry) (other : Place) :
    (t.putAt place entry).entryAt? other =
      if other = place then some entry else t.entryAt? other := by
  cases other with
  | nil => rw [if_neg fun heq => hplace heq.symm]; rfl
  | cons name rest => exact lookup_replace place entry t.entries (name :: rest)

theorem isFolderAt_nil : t.isFolderAt [] = true :=
  rfl

/-- The one change a write makes. -/
theorem write?_eq_some (h : t.write? path content = some t') :
    ∃ place, t.resolve path = some place ∧ t.isFolderAt place = false ∧
      t' = t.putAt place (.file content) := by
  rw [write?] at h
  split at h
  · rename_i place hplace
    split at h
    · cases h
    · rename_i hfile
      exact ⟨place, hplace, Bool.eq_false_iff.2 hfile, (Option.some.inj h).symm⟩
  · cases h

theorem entryAt?_of_write? (h : t.write? path content = some t')
    (hplace : t.resolve path = some place) (other : Place) :
    t'.entryAt? other = if other = place then some (.file content) else t.entryAt? other := by
  obtain ⟨written, hwritten, hfile, rfl⟩ := write?_eq_some h
  obtain rfl : written = place := Option.some.inj (hwritten.symm.trans hplace)
  refine entryAt?_putAt ?_ _ other
  rintro rfl
  rw [isFolderAt_nil] at hfile
  cases hfile

theorem isFolderAt_of_write? (h : t.write? path content = some t') (other : Place) :
    t'.isFolderAt other = t.isFolderAt other := by
  obtain ⟨place, hplace, hfile, -⟩ := write?_eq_some h
  rw [isFolderAt, entryAt?_of_write? h hplace]
  split
  · rename_i heq
    subst heq
    rw [hfile]
    rfl
  · rfl

/-- Paths are followed along folders, and a write leaves the folders as they are. -/
theorem follow_of_write? (h : t.write? path content = some t') (here : Place)
    (names : List String) : t'.follow here names = t.follow here names := by
  induction names generalizing here with
  | nil => rfl
  | cons name rest ih => simp only [follow, isFolderAt_of_write? h, ih]

theorem resolve_of_write? (h : t.write? path content = some t') (other : String) :
    t'.resolve other = t.resolve other := by
  have hstart : t'.workingFolder = t.workingFolder := by
    obtain ⟨_, -, -, rfl⟩ := write?_eq_some h
    rfl
  rw [resolve, resolve, hstart, follow_of_write? h]

/-! ## A name inside a folder -/

/-- A name that leads one step down: it has no slash in it and is not one of the
names that stay or go up. -/
structure IsEntryName (name : String) : Prop where
  noSlash : '/' ∉ name.toList
  ne_empty : name ≠ ""
  ne_here : name ≠ "."
  ne_above : name ≠ ".."

theorem follow_append (here : Place) (xs ys : List String) :
    t.follow here (xs ++ ys) = (t.follow here xs).bind fun there => t.follow there ys := by
  induction xs generalizing here with
  | nil => rfl
  | cons name rest ih =>
      simp only [List.cons_append, follow]
      split
      · split
        · exact ih here
        · split
          · exact ih here.dropLast
          · split
            · exact ih (here ++ [name])
            · rfl
      · rfl

theorem follow_entry (hname : IsEntryName name) (h : t.follow place [name] = some found) :
    found = place ++ [name] := by
  have hstay : ¬(name = "" ∨ name = ".") := not_or.2 ⟨hname.ne_empty, hname.ne_here⟩
  rw [follow, if_neg hstay, if_neg hname.ne_above] at h
  split at h
  · split at h
    · exact (Option.some.inj h).symm
    · cases h
  · cases h

/-- An empty name needs a folder and stays in it. -/
theorem follow_stay (h : t.follow place [""] = some found) : found = place := by
  rw [follow, if_pos (Or.inl rfl)] at h
  split at h
  · exact (Option.some.inj h).symm
  · cases h

theorem names_slash (hname : '/' ∉ name.toList) (folder : String) :
    names (folder ++ "/" ++ name) = names folder ++ [name] := by
  have hchars : (folder ++ "/" ++ name).toList = folder.toList ++ '/' :: name.toList := by simp
  rw [names, names, hchars, Text.pieces_append_cons (by decide), Text.pieces_of_not_mem hname,
    List.map_append, List.map_singleton, String.ofList_toList]

/-- The place in which a path starts. -/
def start (t : FileTree) (path : String) : Place :=
  if path.toList.head? = some '/' then [] else t.workingFolder

theorem follow_of_resolve (h : t.resolve path = some place) :
    path ≠ "" ∧ t.follow (t.start path) (names path) = some place := by
  rw [resolve] at h
  split at h
  · cases h
  · rename_i hpath
    rw [not_or] at hpath
    exact ⟨fun heq => hpath.1 (by rw [heq]; rfl), h⟩

theorem start_append (hpath : path ≠ "") (rest : String) :
    t.start (path ++ rest) = t.start path := by
  have hchars : path.toList ≠ [] := fun h => hpath (String.toList_eq_nil_iff.1 h)
  rw [start, start, String.toList_append, List.head?_append,
    Option.or_of_isSome (List.isSome_head?.2 hchars)]

theorem resolve_joinPath (hfolder : t.resolve folder = some place) (hname : IsEntryName name)
    (h : t.resolve (joinPath folder name) = some found) : found = place ++ [name] := by
  obtain ⟨hne, hplace⟩ := follow_of_resolve hfolder
  obtain ⟨-, hfound⟩ := follow_of_resolve h
  have hrelative : name.toList.head? ≠ some '/' := fun heq =>
    hname.noSlash (List.mem_of_mem_head? heq)
  rw [joinPath, if_neg hrelative] at hfound
  split at hfound
  · -- the path ends in a slash: its last name is empty and stays in the folder
    rename_i hends
    have hslash : folder.toList.getLast? = some '/' :=
      hends.resolve_left fun hempty => hne (String.isEmpty_iff.1 hempty)
    obtain ⟨init, hinit⟩ := List.getLast?_eq_some_iff.1 hslash
    have hsplit : folder = String.ofList init ++ "/" := by
      rw [← String.toList_inj, hinit, String.toList_append, String.toList_ofList]
      rfl
    have hnames : names folder = names (String.ofList init) ++ [""] := by
      have := names_slash (by decide : '/' ∉ "".toList) (String.ofList init)
      rwa [String.append_empty, ← hsplit] at this
    have hlonger : names (folder ++ name) = names (String.ofList init) ++ [name] := by
      rw [hsplit, names_slash hname.noSlash]
    rw [hnames, follow_append] at hplace
    rw [start_append hne, hlonger, follow_append] at hfound
    obtain ⟨there, hthere, hstay⟩ := Option.bind_eq_some_iff.1 hplace
    obtain rfl := follow_stay hstay
    rw [hthere, Option.bind_some] at hfound
    exact follow_entry hname hfound
  · rw [String.append_assoc, start_append hne, ← String.append_assoc, names_slash hname.noSlash,
      follow_append, hplace, Option.bind_some] at hfound
    exact follow_entry hname hfound

end FileTree

end ModelSource

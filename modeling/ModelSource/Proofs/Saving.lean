import ModelSource.Proofs.Culprit
import ModelSource.Proofs.Manifest

/-!
# Saving writes what it renders and nothing else

Saving can fail for three reasons of its own: there is no folder, connections
cannot be drawn, or the document has no text. All three are found out before the
first write, so the files are as they were. Where none of them holds and nothing is
in the way of the two writes, the document's file holds the text and the manifest
may have got a line; everything else stays.

The second save of a document finds its text in the file and its name in the
manifest, and writing what is there changes nothing. This takes one more fact than
a run of saves does: the name may have slashes in it, so the file need not stand in
the folder of the manifest. Its name still ends in another letter than that of the
manifest (`file_apart`), so the two writes never meet.
-/

namespace ModelSource

/-! ## Where a path ends -/

/-- What is put at the end of a text without a separator in it is put at the end of
its last piece. -/
theorem Text.pieces_append {p : Char → Bool} {ys : List Char} (h : ∀ c ∈ ys, p c = false)
    (xs : List Char) : ∃ before last, pieces p (xs ++ ys) = before ++ [last ++ ys] := by
  induction xs with
  | nil => exact ⟨[], [], by rw [List.nil_append, pieces_of_forall h]; rfl⟩
  | cons x rest ih =>
      obtain ⟨before, last, hrest⟩ := ih
      rw [List.cons_append]
      cases hx : p x with
      | true => exact ⟨[] :: before, last, by simp [pieces, hx, hrest]⟩
      | false =>
          cases before with
          | nil => exact ⟨[], x :: last, pieces_cons_of_not hx hrest⟩
          | cons first more => exact ⟨(x :: first) :: more, last, pieces_cons_of_not hx hrest⟩

namespace FileTree

variable {t t' : FileTree} {path : String} {content : Content} {place found : Place}

/-- A path that ends in `ending` leads to a name that does, unless it leads back. -/
theorem getLast?_of_resolve {ending : String} {c : Char} (hslash : '/' ∉ ending.toList)
    (hlast : ending.toList.getLast? = some c) (hc : c ≠ '.')
    (h : t.resolve (path ++ ending) = some found) :
    ∃ name, found.getLast? = some name ∧ name.toList.getLast? = some c := by
  obtain ⟨-, hfollow⟩ := follow_of_resolve h
  have hplain : ∀ x ∈ ending.toList, (x == '/') = false := fun x hx =>
    beq_eq_false_iff_ne.2 fun heq => hslash (heq ▸ hx)
  obtain ⟨before, last, hpieces⟩ := Text.pieces_append hplain path.toList
  have hname : (String.ofList (last ++ ending.toList)).toList.getLast? = some c := by
    rw [String.toList_ofList, List.getLast?_append, hlast]
    rfl
  rw [names, String.toList_append, hpieces, List.map_append, List.map_singleton,
    follow_append] at hfollow
  generalize String.ofList (last ++ ending.toList) = name at hname hfollow
  have hstep : ∀ other : String, other.toList.getLast? ≠ some c → name ≠ other := by
    rintro other hother rfl
    exact hother hname
  obtain ⟨there, -, hfound⟩ := Option.bind_eq_some_iff.1 hfollow
  have hdot : ∀ other : String, other.toList.getLast? = some '.' → name ≠ other :=
    fun other hother => hstep other fun heq => hc (Option.some.inj (heq.symm.trans hother))
  have hstay : ¬(name = "" ∨ name = ".") := not_or.2 ⟨hstep "" (by simp), hdot "." rfl⟩
  rw [follow, if_neg hstay, if_neg (hdot ".." rfl)] at hfound
  split at hfound
  · split at hfound
    · obtain rfl := Option.some.inj hfound
      exact ⟨name, List.getLast?_concat, hname⟩
    · cases hfound
  · cases hfound

/-! ## Writing what is there -/

theorem replace_of_lookup {entries : List (Place × FileEntry)} {entry : FileEntry}
    (h : entries.lookup place = some entry) : putAt.replace place entry entries = entries := by
  induction entries with
  | nil => cases h
  | cons item rest ih =>
      obtain ⟨key, old⟩ := item
      rw [lookup_cons_eq] at h
      rw [putAt.replace]
      by_cases hkey : key = place
      · rw [if_pos hkey.symm] at h
        rw [if_pos hkey, Option.some.inj h]
      · rw [if_neg fun heq => hkey heq.symm] at h
        rw [if_neg hkey, ih h]

/-- A write of what a file holds changes nothing. -/
theorem write?_unchanged (h : t.entry? path = some (.file content)) :
    t.write? path content = some t := by
  obtain ⟨place, hplace, hentry⟩ := Option.bind_eq_some_iff.1 h
  have hfile : t.isFolderAt place = false := by
    rw [isFolderAt, hentry]
    rfl
  have hlookup : t.entries.lookup place = some (.file content) := by
    cases place with
    | nil => cases hentry
    | cons name rest => exact hentry
  simp only [write?, hplace, hfile, Bool.false_eq_true, if_false, putAt, replace_of_lookup hlookup]

theorem entry?_of_write? (h : t.write? path content = some t') :
    t'.entry? path = some (.file content) := by
  obtain ⟨place, hplace, -, -⟩ := write?_eq_some h
  rw [FileTree.entry?, resolve_of_write? h, hplace, Option.bind_some, entryAt?_of_write? h hplace,
    if_pos rfl]

theorem isFolder_of_write? (h : t.write? path content = some t') (other : String) :
    t'.isFolder other = t.isFolder other := by
  rw [isFolder, isFolder, FileTree.entry?, FileTree.entry?, resolve_of_write? h]
  cases t.resolve other with
  | none => rfl
  | some place => exact isFolderAt_of_write? h place

/-- A write leaves alone what another path leads to. -/
theorem entry?_apart {other : String} (h : t.write? path content = some t')
    (hother : ∀ place, t.resolve path = some place → t.resolve other ≠ some place) :
    t'.entry? other = t.entry? other := by
  obtain ⟨place, hplace, -, -⟩ := write?_eq_some h
  rw [FileTree.entry?, FileTree.entry?, resolve_of_write? h]
  cases hfound : t.resolve other with
  | none => rfl
  | some found =>
      refine (entryAt?_of_write? h hplace found).trans (if_neg ?_)
      rintro rfl
      exact hother found hplace hfound

end FileTree

/-! ## The document's file and the manifest -/

theorem joinPath_append (folder name ending : String) :
    ∃ front, joinPath folder (name ++ ending) = front ++ ending := by
  rw [joinPath]
  split
  · exact ⟨name, rfl⟩
  · split
    · exact ⟨folder ++ name, (String.append_assoc ..).symm⟩
    · exact ⟨folder ++ "/" ++ name, (String.append_assoc ..).symm⟩

/-- The path of the manifest in a folder. -/
def Manifest.path (folder : String) : String :=
  joinPath folder Manifest.fileName

/-- The document as it is rendered: with its connections drawn, if asked. -/
def Document.prepared (d : Document) (options : SaveOptions) : Document :=
  if options.drawConnections then (Document.drawConnections d).2 else d

/-- The files are in no way of a save: the two paths lead somewhere, no folder stands
where the document's file goes, and a manifest that is there is text. -/
structure FileTree.Accepts (t : FileTree) (d : Document) (folder : String) : Prop where
  file : ∃ place, t.resolve (d.filePath folder) = some place ∧ t.isFolderAt place = false
  manifest : ∃ place, t.resolve (Manifest.path folder) = some place ∧
    ∀ entry, t.entryAt? place = some entry → ∃ text, entry = .file (.text text)

section

variable {t t' : FileTree} {d : Document} {folder text : String} {options : SaveOptions}
  {place : Place}

/-- The file of a document is not the manifest, whatever the document is called. -/
theorem file_apart (hfile : t.resolve (d.filePath folder) = some place) :
    t.resolve (Manifest.path folder) ≠ some place := by
  intro hmanifest
  obtain ⟨front, hfront⟩ := joinPath_append folder d.ident ".mo"
  obtain ⟨back, hback⟩ := joinPath_append folder "" Manifest.fileName
  rw [Document.filePath, hfront] at hfile
  rw [Manifest.path, ← String.empty_append (s := Manifest.fileName), hback] at hmanifest
  obtain ⟨name, hname, ho⟩ := FileTree.getLast?_of_resolve (by decide) rfl (by decide) hfile
  obtain ⟨other, hother, hr⟩ := FileTree.getLast?_of_resolve (by decide) rfl (by decide) hmanifest
  obtain rfl : name = other := Option.some.inj (hname.symm.trans hother)
  exact absurd (ho.symm.trans hr) (by decide)

/-! ## What a save does -/

theorem fileText_eq_ok :
    d.fileText options = .ok text ↔
      (options.drawConnections = true → ∃ count, (Document.drawConnections d).1 = .ok count) ∧
        render options.render (.document (d.prepared options)) = .ok text := by
  rw [Document.fileText, Document.drawnFor, Document.prepared]
  cases options.drawConnections with
  | false =>
      simp only [Bool.false_eq_true, if_false]
      cases render options.render (.document d) <;> simp
  | true =>
      rcases Document.drawConnections d with ⟨_ | count, drawn⟩
      · simp
      · simp only [if_true]
        cases render options.render (.document drawn) <;> simp

/-- All reasons to refuse a save are found before anything is written. -/
theorem save_of_refused
    (h : t.isFolder folder = false ∨
      (options.drawConnections = true ∧ ∃ e, (Document.drawConnections d).1 = .error e) ∨
      ∃ e, render options.render (.document (d.prepared options)) = .error e) :
    ∃ e, save d folder options t = (.error e, t) := by
  cases hfolder : t.isFolder folder with
  | false => exact ⟨.notFolder folder, by simp [save, hfolder]⟩
  | true =>
      cases htext : d.fileText options with
      | error e => exact ⟨e, by simp [save, hfolder, htext]⟩
      | ok text =>
          obtain ⟨hdrawn, hrender⟩ := fileText_eq_ok.1 htext
          rcases h with hno | ⟨hasked, e, hfails⟩ | ⟨e, hfails⟩
          · rw [hfolder] at hno
            cases hno
          · obtain ⟨count, hcount⟩ := hdrawn hasked
            rw [hfails] at hcount
            cases hcount
          · rw [hfails] at hrender
            cases hrender

/-- Once the text is written, the rest of a save is up to the manifest. -/
theorem save_eq {written : FileTree} (hfolder : t.isFolder folder = true)
    (htext : d.fileText options = .ok text)
    (hwrite : t.write? (d.filePath folder) (.text text) = some written) :
    save d folder options t =
      ((listInManifest (Manifest.path folder) d.ident written).1.map fun listed =>
          ⟨d.filePath folder, listed⟩,
        (listInManifest (Manifest.path folder) d.ident written).2) := by
  rw [Manifest.path]
  simp only [save, hfolder, if_true, htext, writeText, hwrite]
  rcases listInManifest (joinPath folder Manifest.fileName) d.ident written with ⟨_ | _, _⟩ <;> rfl

/-! ## What listing does -/

variable {path ident : String}

/-- Listing leaves the files alone or makes one write. -/
theorem listInManifest_cases (path ident : String) (t : FileTree) :
    (listInManifest path ident t).2 = t ∨
      ∃ content, manifestText t path = .ok content ∧
        t.write? path (.text (Manifest.ofLines (Text.lines content ++ [ident]))) =
          some (listInManifest path ident t).2 := by
  cases hcontent : manifestText t path with
  | error e => exact .inl (by simp [listInManifest, hcontent])
  | ok content =>
      cases hlists : Manifest.lists content ident with
      | true => exact .inl (by simp [listInManifest, hcontent, Manifest.extend?, hlists])
      | false =>
          cases hwrite : t.write? path
              (.text (Manifest.ofLines (Text.lines content ++ [ident]))) with
          | none =>
              exact .inl (by
                simp [listInManifest, hcontent, Manifest.extend?, hlists, writeText, hwrite])
          | some written =>
              refine .inr ⟨content, rfl, hwrite.trans ?_⟩
              simp [listInManifest, hcontent, Manifest.extend?, hlists, writeText, hwrite]

theorem resolve_of_list (path ident other : String) :
    (listInManifest path ident t).2.resolve other = t.resolve other := by
  rcases listInManifest_cases path ident t with hsame | ⟨content, -, hwrite⟩
  · rw [hsame]
  · exact FileTree.resolve_of_write? hwrite other

theorem isFolder_of_list (path ident other : String) :
    (listInManifest path ident t).2.isFolder other = t.isFolder other := by
  rcases listInManifest_cases path ident t with hsame | ⟨content, -, hwrite⟩
  · rw [hsame]
  · exact FileTree.isFolder_of_write? hwrite other

theorem entryAt?_of_list (h : t.resolve path ≠ some place) :
    (listInManifest path ident t).2.entryAt? place = t.entryAt? place := by
  rcases listInManifest_cases path ident t with hsame | ⟨content, -, hwrite⟩
  · rw [hsame]
  · obtain ⟨found, hfound, -, -⟩ := FileTree.write?_eq_some hwrite
    rw [FileTree.entryAt?_of_write? hwrite hfound, if_neg]
    rintro rfl
    exact h hfound

/-- Listing succeeds where the manifest can be read and written. -/
theorem listInManifest_succeeds (ident : String) (hplace : t.resolve path = some place)
    (hentry : ∀ entry, t.entryAt? place = some entry → ∃ text, entry = .file (.text text)) :
    ∃ listed, (listInManifest path ident t).1 = .ok listed := by
  have hfound : t.entry? path = t.entryAt? place := by
    rw [FileTree.entry?, hplace, Option.bind_some]
  have hcontent : ∃ content, manifestText t path = .ok content := by
    cases hat : t.entryAt? place with
    | none => exact ⟨"", by simp [manifestText, hfound, hat]⟩
    | some entry =>
        obtain ⟨text, rfl⟩ := hentry entry hat
        exact ⟨text, by simp [manifestText, FileTree.readText?, hfound, hat]⟩
  have hfile : t.isFolderAt place = false := by
    rw [FileTree.isFolderAt]
    refine beq_eq_false_iff_ne.2 fun hfolder => ?_
    obtain ⟨text, htext⟩ := hentry _ hfolder
    cases htext
  obtain ⟨content, hcontent⟩ := hcontent
  cases hlists : Manifest.lists content ident with
  | true => exact ⟨false, by simp [listInManifest, hcontent, Manifest.extend?, hlists]⟩
  | false =>
      exact ⟨true, by
        simp [listInManifest, hcontent, Manifest.extend?, hlists, writeText, FileTree.write?,
          hplace, hfile]⟩

/-- A name that was just listed is not listed again. -/
theorem listInManifest_again (path : String) (hident : Manifest.IsLine ident)
    (hreturn : ∀ content, t.readText? path = some content →
      ∀ line ∈ Text.lines content, line.toList.getLast? ≠ some '\r') :
    (listInManifest path ident (listInManifest path ident t).2).2 =
      (listInManifest path ident t).2 := by
  rcases listInManifest_cases path ident t with hsame | ⟨content, hcontent, hwrite⟩
  · rw [hsame, hsame]
  · have hlines : ∀ line ∈ Text.lines content, line.toList.getLast? ≠ some '\r' := by
      rw [manifestText] at hcontent
      split at hcontent
      · cases hcontent
        exact fun _ hline => absurd hline List.not_mem_nil
      · split at hcontent
        · next htext =>
            cases hcontent
            exact hreturn content htext
        · cases hcontent
    have hextended := Manifest.lines_extended hlines hident
    generalize (listInManifest path ident t).2 = after at hwrite ⊢
    generalize Manifest.ofLines (Text.lines content ++ [ident]) = extended at hextended hwrite
    have hentry := FileTree.entry?_of_write? hwrite
    have hread : manifestText after path = .ok extended := by
      simp [manifestText, FileTree.readText?, hentry]
    have hlisted : Manifest.lists extended ident = true := by
      rw [Manifest.lists_iff, hextended, List.map_append, List.map_singleton, hident.trim_eq]
      exact List.mem_append_right _ (List.mem_singleton.2 rfl)
    simp [listInManifest, hread, Manifest.extend?, hlisted]

/-! ## Saving again -/

/-- A save that does more than refuse has got as far as writing the text. -/
theorem save_cases (d : Document) (folder : String) (options : SaveOptions) (t : FileTree) :
    (save d folder options t).2 = t ∨
      ∃ text written, t.isFolder folder = true ∧ d.fileText options = .ok text ∧
        t.write? (d.filePath folder) (.text text) = some written := by
  cases hfolder : t.isFolder folder with
  | false => exact .inl (by simp [save, hfolder])
  | true =>
      cases htext : d.fileText options with
      | error e => exact .inl (by simp [save, hfolder, htext])
      | ok text =>
          cases hwrite : t.write? (d.filePath folder) (.text text) with
          | none => exact .inl (by simp [save, hfolder, htext, writeText, hwrite])
          | some written => exact .inr ⟨text, written, rfl, rfl, hwrite⟩

/-- The document's file is as it was written, whatever was listed afterwards. -/
theorem entry?_of_list {written : FileTree} (ident : String)
    (hwrite : t.write? (d.filePath folder) (.text text) = some written) :
    FileTree.entry? (listInManifest (Manifest.path folder) ident written).2 (d.filePath folder) =
      some (.file (.text text)) := by
  obtain ⟨place, hplace, -, -⟩ := FileTree.write?_eq_some hwrite
  have hwritten : written.resolve (d.filePath folder) = some place :=
    (FileTree.resolve_of_write? hwrite _).trans hplace
  have hentry := FileTree.entry?_of_write? hwrite
  rw [FileTree.entry?, hwritten, Option.bind_some] at hentry
  rw [FileTree.entry?, resolve_of_list, hwritten, Option.bind_some,
    entryAt?_of_list (file_apart hwritten), hentry]

theorem save_again (hident : Manifest.IsLine d.ident)
    (hreturn : ∀ content, t.readText? (Manifest.path folder) = some content →
      ∀ line ∈ Text.lines content, line.toList.getLast? ≠ some '\r') :
    (save d folder options (save d folder options t).2).2 = (save d folder options t).2 := by
  rcases save_cases d folder options t with hsame | ⟨text, written, hfolder, htext, hwrite⟩
  · rw [hsame, hsame]
  · have hmanifest : written.entry? (Manifest.path folder) = t.entry? (Manifest.path folder) :=
      FileTree.entry?_apart hwrite fun _ hplace => file_apart hplace
    have hlisted := listInManifest_again (t := written) (Manifest.path folder) hident (by
      intro content hcontent
      refine hreturn content ?_
      rwa [FileTree.readText?, ← hmanifest])
    rw [save_eq hfolder htext hwrite]
    -- the second save writes what is there and finds its name listed
    have hfile := entry?_of_list d.ident hwrite
    have hstill : (listInManifest (Manifest.path folder) d.ident written).2.isFolder folder =
        true := by
      rw [isFolder_of_list, FileTree.isFolder_of_write? hwrite, hfolder]
    rw [save_eq hstill htext (FileTree.write?_unchanged hfile)]
    exact hlisted

/-- A save that nothing refuses and nothing is in the way of: it succeeds, the file
holds the text, and no other place but that of the manifest has changed. -/
theorem save_of_accepts (hfolder : t.isFolder folder = true) (htext : d.fileText options = .ok text)
    (haccepts : t.Accepts d folder) :
    ∃ listed t', save d folder options t = (.ok ⟨d.filePath folder, listed⟩, t') ∧
      t'.readText? (d.filePath folder) = some text ∧
      (∀ path, t'.resolve path = t.resolve path) ∧
      ∀ place, t.resolve (d.filePath folder) ≠ some place →
        t.resolve (Manifest.path folder) ≠ some place → t'.entryAt? place = t.entryAt? place := by
  obtain ⟨file, hfile, hplain⟩ := haccepts.file
  obtain ⟨manifest, hmanifest, hreadable⟩ := haccepts.manifest
  obtain ⟨written, hwrite⟩ :
      ∃ written, t.write? (d.filePath folder) (.text text) = some written := by
    simp [FileTree.write?, hfile, hplain]
  have hkept := FileTree.entryAt?_of_write? hwrite hfile
  have hresolve := FileTree.resolve_of_write? hwrite
  have hapart : manifest ≠ file := by
    rintro rfl
    exact file_apart hfile hmanifest
  obtain ⟨listed, hlisted⟩ := listInManifest_succeeds d.ident
    ((hresolve _).trans hmanifest) (by rw [hkept, if_neg hapart]; exact hreadable)
  refine ⟨listed, (listInManifest (Manifest.path folder) d.ident written).2, ?_, ?_, ?_, ?_⟩
  · rw [save_eq hfolder htext hwrite, hlisted]
    rfl
  · rw [FileTree.readText?, entry?_of_list d.ident hwrite]
  · intro path
    rw [resolve_of_list, hresolve]
  · intro place hother hnot
    have hnot' : written.resolve (Manifest.path folder) ≠ some place := by rwa [hresolve]
    rw [entryAt?_of_list hnot', hkept, if_neg]
    rintro rfl
    exact hother hfile

/-- The two paths lead to two names in the folder, unless there are slashes in one. -/
theorem places_of_accepts (hfolder : t.isFolder folder = true) (haccepts : t.Accepts d folder)
    (hslash : '/' ∉ d.ident.toList) :
    ∃ home, t.resolve folder = some home ∧
      t.resolve (d.filePath folder) = some (home ++ [d.ident ++ ".mo"]) ∧
      t.resolve (Manifest.path folder) = some (home ++ [Manifest.fileName]) := by
  obtain ⟨home, hhome, -⟩ := Option.bind_eq_some_iff.1 (beq_iff_eq.1 hfolder)
  obtain ⟨file, hfile, -⟩ := haccepts.file
  obtain ⟨manifest, hmanifest, -⟩ := haccepts.manifest
  have hname := FileTree.resolve_joinPath hhome (FileTree.isEntryName_file hslash) hfile
  have hother := FileTree.resolve_joinPath hhome FileTree.isEntryName_manifest hmanifest
  exact ⟨home, hhome, hname ▸ hfile, hother ▸ hmanifest⟩

end

/-- A save that has no folder, or whose drawing or rendering fails, fails and leaves
every file as it was. Any other save, with nothing in its way, succeeds: the document's
file holds the rendered text, paths lead where they led, and nothing has changed but at
the places of that file and of the manifest, which are two names in the folder unless
the document's name has slashes. And saving again changes nothing, for a name that a
line of the manifest can hold and a manifest without carriage returns at its ends of
lines. -/
theorem save_renders_before_writing (d : Document) (folder : String) (options : SaveOptions)
    (t : FileTree) :
    let refused := t.isFolder folder = false ∨
      (options.drawConnections = true ∧ ∃ e, (Document.drawConnections d).1 = .error e) ∨
      ∃ e, render options.render (.document (d.prepared options)) = .error e
    (refused → ∃ e, save d folder options t = (.error e, t)) ∧
    (¬ refused → t.Accepts d folder →
      ∃ listed text t', save d folder options t = (.ok ⟨d.filePath folder, listed⟩, t') ∧
        render options.render (.document (d.prepared options)) = .ok text ∧
        t'.readText? (d.filePath folder) = some text ∧
        (∀ path, t'.resolve path = t.resolve path) ∧
        (∀ place, t.resolve (d.filePath folder) ≠ some place →
          t.resolve (Manifest.path folder) ≠ some place →
          t'.entryAt? place = t.entryAt? place) ∧
        ('/' ∉ d.ident.toList → ∃ home, t.resolve folder = some home ∧
          t.resolve (d.filePath folder) = some (home ++ [d.ident ++ ".mo"]) ∧
          t.resolve (Manifest.path folder) = some (home ++ [Manifest.fileName]))) ∧
    (Manifest.IsLine d.ident →
      (∀ content, t.readText? (Manifest.path folder) = some content →
        ∀ line ∈ Text.lines content, line.toList.getLast? ≠ some '\r') →
      (save d folder options (save d folder options t).2).2 = (save d folder options t).2) := by
  intro refused
  refine ⟨save_of_refused, fun hgoes haccepts => ?_, save_again⟩
  simp only [refused, not_or, Bool.not_eq_false] at hgoes
  obtain ⟨hfolder, hdrawn, hrendered⟩ := hgoes
  obtain ⟨text, htext⟩ : ∃ text,
      render options.render (.document (d.prepared options)) = .ok text := by
    cases hrender : render options.render (.document (d.prepared options)) with
    | error e => exact absurd ⟨e, hrender⟩ hrendered
    | ok text => exact ⟨text, rfl⟩
  have hdraws : options.drawConnections = true →
      ∃ count, (Document.drawConnections d).1 = .ok count := by
    intro hasked
    cases hdraw : (Document.drawConnections d).1 with
    | error e => exact absurd ⟨hasked, e, hdraw⟩ hdrawn
    | ok count => exact ⟨count, rfl⟩
  obtain ⟨listed, t', hsave, hread, hresolve, hkept⟩ :=
    save_of_accepts hfolder (fileText_eq_ok.2 ⟨hdraws, htext⟩) haccepts
  exact ⟨listed, text, t', hsave, htext, hread, hresolve, hkept,
    places_of_accepts hfolder haccepts⟩

namespace FileTree

/-- A folder with a manifest and an older file of the document. -/
def netTree : FileTree :=
  ((workspace "lib").putAt ["lib", Manifest.fileName] (.file (.text "A\n B"))).putAt
    ["lib", "Net.mo"] (.file (.text "old"))

/-- Two placed declarations and a connection between them. -/
def net : Document :=
  { ident := "Net"
    sections :=
      { publicPart :=
          [.declaration { typeName := "Part", ident := "a", annotations := placed 0 },
           .declaration { typeName := "Part", ident := "b", annotations := placed 20 }]
        equation := [.connection { a := "a.p", b := "b.n" }] }
    registry := [("a", ⟨.publicPart, 0⟩), ("b", ⟨.publicPart, 1⟩)] }
where
  /-- Annotations with an origin on the horizontal axis. -/
  placed (x : Int) : Modification :=
    ⟨[("Placement", .map ⟨[("transformation",
      .map ⟨[("origin", .point (.integer x) (.integer 0))]⟩)]⟩)]⟩

theorem netTree_accepts : netTree.Accepts net "." where
  file := ⟨["lib", "Net.mo"], by decide +kernel, by decide +kernel⟩
  manifest := by
    refine ⟨["lib", Manifest.fileName], by decide +kernel, fun entry hentry => ⟨"A\n B", ?_⟩⟩
    have hfound : netTree.entryAt? ["lib", Manifest.fileName] = some (.file (.text "A\n B")) := by
      decide +kernel
    exact Option.some.inj (hentry.symm.trans hfound)

end FileTree

theorem save_renders_before_writing_net :
    let options : SaveOptions := { drawConnections := true }
    ∃ listed text t',
      save FileTree.net "." options FileTree.netTree = (.ok ⟨"./Net.mo", listed⟩, t') ∧
      render {} (.document (FileTree.net.prepared options)) = .ok text ∧
      t'.readText? "./Net.mo" = some text ∧
      (save FileTree.net "." options t').2 = t' := by
  intro options
  obtain ⟨-, hgoes, hagain⟩ :=
    save_renders_before_writing FileTree.net "." options FileTree.netTree
  have hdraws : (Document.drawConnections FileTree.net).1 = .ok 1 := by decide +kernel
  have hrenders : (Node.document (FileTree.net.prepared options)).printout.error? = none := by
    decide +kernel
  obtain ⟨listed, text, t', hsave, hrender, hread, -⟩ := hgoes (by
    rintro (hfolder | ⟨-, e, hfails⟩ | ⟨e, hfails⟩)
    · exact absurd hfolder (by decide +kernel)
    · rw [hdraws] at hfails
      cases hfails
    · rw [render_eq_error, hrenders] at hfails
      cases hfails) FileTree.netTree_accepts
  refine ⟨listed, text, t', hsave, hrender, hread, ?_⟩
  have hline : Manifest.IsLine FileTree.net.ident :=
    ⟨by decide, fun c hc => by obtain rfl := Option.some.inj hc; decide,
      fun c hc => by obtain rfl := Option.some.inj hc; decide⟩
  have hmanifest : FileTree.netTree.readText? (Manifest.path ".") = some "A\n B" := by
    decide +kernel
  have hreturn : ∀ line ∈ Text.lines "A\n B", line.toList.getLast? ≠ some '\r' := by
    decide +kernel
  have htwice := hagain hline (by
    intro content hcontent
    obtain rfl := Option.some.inj (hmanifest.symm.trans hcontent)
    exact hreturn)
  rwa [hsave] at htwice

end ModelSource

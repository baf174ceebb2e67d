import ModelSource.Proofs.Places

/-!
# A manifest over a run of saves

Saving a document reads the manifest of the folder, compares its lines with the
name of the document and writes the manifest anew if the name is missing. Over any
run of saves into one folder the lines that were there stay where they are, and
behind them come the missing names, each once, in the order of their first save.

One save does one of two things to the manifest (`save_manifest`). Each leaves the
state fit for the next save: what was written is read back as the same lines, and
no line ends in a carriage return. The run lemma `saveAll_lines` is an induction on
the saves with that as its invariant.
-/

namespace ModelSource

namespace Manifest

variable {content ident : String}

/-- A name that a line of a manifest can hold. -/
structure IsLine (ident : String) : Prop where
  noBreak : '\n' ∉ ident.toList
  first : ∀ c ∈ ident.toList.head?, Text.isBlank c = false
  last : ∀ c ∈ ident.toList.getLast?, Text.isBlank c = false

/-- A name that a line of a manifest can hold and a file can have. -/
structure IsMember (ident : String) : Prop where
  noBreak : '\n' ∉ ident.toList
  noSlash : '/' ∉ ident.toList
  first : ∀ c ∈ ident.toList.head?, Text.isBlank c = false
  last : ∀ c ∈ ident.toList.getLast?, Text.isBlank c = false

/-- The names that a manifest does not list yet, each once. -/
def newMembers (content : String) (idents : List String) : List String :=
  (idents.filter fun ident => ident ∉ (Text.lines content).map Text.trim).eraseDups

theorem IsMember.isLine (h : IsMember ident) : IsLine ident :=
  ⟨h.noBreak, h.first, h.last⟩

theorem IsLine.trim_eq (h : IsLine ident) : Text.trim ident = ident :=
  Text.trim_eq_self h.first h.last

theorem IsLine.no_return (h : IsLine ident) : ident.toList.getLast? ≠ some '\r' := by
  intro hreturn
  have hblank := h.last '\r' hreturn
  exact absurd hblank (by decide)

theorem lists_iff : lists content ident = true ↔ ident ∈ (Text.lines content).map Text.trim := by
  rw [lists, List.any_eq_true, List.mem_map]
  simp only [beq_iff_eq]

theorem no_return_concat
    (hcontent : ∀ line ∈ Text.lines content, line.toList.getLast? ≠ some '\r')
    (hident : IsLine ident) :
    ∀ line ∈ Text.lines content ++ [ident], line.toList.getLast? ≠ some '\r' := by
  intro line hline
  rcases List.mem_append.1 hline with hold | hnew
  · exact hcontent line hold
  · rw [List.mem_singleton.1 hnew]
    exact hident.no_return

/-- The lines that were read and one more name are read back as they were written. -/
theorem lines_extended (hcontent : ∀ line ∈ Text.lines content, line.toList.getLast? ≠ some '\r')
    (hident : IsLine ident) :
    Text.lines (ofLines (Text.lines content ++ [ident])) = Text.lines content ++ [ident] := by
  have hbreak : ∀ line ∈ Text.lines content ++ [ident], '\n' ∉ line.toList := by
    intro line hline
    rcases List.mem_append.1 hline with hold | hnew
    · exact Text.not_mem_of_mem_lines hold
    · rw [List.mem_singleton.1 hnew]
      exact hident.noBreak
  have hreturn := no_return_concat hcontent hident
  have hlines : Text.lines content ++ [ident] ≠ [] := by simp
  obtain ⟨first, rest, hcons⟩ := List.exists_cons_of_ne_nil hlines
  rw [hcons] at hbreak hreturn ⊢
  exact Text.lines_ofLines hbreak hreturn

theorem newMembers_cons_of_lists (h : lists content ident = true) (idents : List String) :
    newMembers content (ident :: idents) = newMembers content idents := by
  rw [newMembers, newMembers, List.filter_cons_of_neg]
  simpa using lists_iff.1 h

/-- The first missing name comes first, and the others are measured against the manifest
that has it. -/
theorem newMembers_cons_of_not {longer : String} (h : lists content ident = false)
    (hident : Text.trim ident = ident)
    (hlonger : Text.lines longer = Text.lines content ++ [ident]) (idents : List String) :
    newMembers content (ident :: idents) = ident :: newMembers longer idents := by
  have hmissing : ident ∉ (Text.lines content).map Text.trim := by
    intro hmem
    rw [lists_iff.2 hmem] at h
    cases h
  rw [newMembers, newMembers, List.filter_cons_of_pos (by simpa using hmissing),
    List.eraseDups_cons, List.filter_filter, hlonger]
  congr 2
  refine List.filter_congr fun other _ => ?_
  rw [List.map_append, List.map_singleton, hident]
  simp only [List.mem_append, List.mem_singleton, not_or, Bool.decide_and, Bool.and_comm,
    decide_not]
  rfl

end Manifest

/-! ## One save -/

namespace FileTree

/-- The text of the manifest in a folder. One that is missing is empty; there is none
where something else stands in its place. -/
def manifestAt? (t : FileTree) (folder : Place) : Option String :=
  match t.entryAt? (folder ++ [Manifest.fileName]) with
  | none => some ""
  | some (.file (.text content)) => some content
  | some _ => none

theorem manifestAt?_congr {t t' : FileTree} {folder : Place}
    (h : t'.entryAt? (folder ++ [Manifest.fileName]) = t.entryAt? (folder ++ [Manifest.fileName])) :
    t'.manifestAt? folder = t.manifestAt? folder := by
  rw [manifestAt?, manifestAt?, h]

theorem manifestAt?_text {t : FileTree} {folder : Place} {content : String}
    (h : t.entryAt? (folder ++ [Manifest.fileName]) = some (.file (.text content))) :
    t.manifestAt? folder = some content := by
  rw [manifestAt?, h]

theorem isEntryName_manifest : IsEntryName Manifest.fileName :=
  ⟨by decide, by decide, by decide, by decide⟩

theorem getLast?_file (ident : String) : (ident ++ ".mo").toList.getLast? = some 'o' := by
  rw [String.toList_append, List.getLast?_append]
  rfl

/-- The last letter keeps the name of a document's file apart from the names that lead
nowhere new, and from the name of the manifest. -/
theorem file_ne_of_getLast? {ident other : String} (h : other.toList.getLast? ≠ some 'o') :
    ident ++ ".mo" ≠ other := by
  rintro rfl
  exact h (getLast?_file ident)

theorem isEntryName_file {ident : String} (h : '/' ∉ ident.toList) :
    IsEntryName (ident ++ ".mo") := by
  refine ⟨?_, file_ne_of_getLast? (by decide), file_ne_of_getLast? (by decide),
    file_ne_of_getLast? (by decide)⟩
  rw [String.toList_append, List.mem_append]
  exact not_or.2 ⟨h, by decide⟩

end FileTree

section

variable {t t' : FileTree} {d : Document} {folder path content ident : String} {place : Place}
  {options : SaveOptions} {report : SaveReport} {listed : Bool}

theorem manifestText_at (hpath : t.resolve path = some (place ++ [Manifest.fileName]))
    (h : manifestText t path = .ok content) : t.manifestAt? place = some content := by
  have hentry : t.entry? path = t.entryAt? (place ++ [Manifest.fileName]) := by
    rw [FileTree.entry?, hpath, Option.bind_some]
  rw [manifestText, FileTree.readText?, hentry] at h
  rw [FileTree.manifestAt?]
  cases hfound : t.entryAt? (place ++ [Manifest.fileName]) with
  | none =>
      rw [hfound] at h
      cases h
      rfl
  | some entry =>
      rw [hfound] at h
      match entry with
      | .file (.text _) => cases h; rfl
      | .file (.raw _) => cases h
      | .folder => cases h

theorem writeText_ok (h : writeText path content t = (.ok (), t')) :
    t.write? path (.text content) = some t' := by
  rw [writeText] at h
  split at h
  · rename_i written hwritten
    rw [hwritten, (Prod.mk.inj h).2]
  · cases h

theorem listInManifest_ok (h : listInManifest path ident t = (.ok listed, t')) :
    ∃ content, manifestText t path = .ok content ∧
      ((Manifest.lists content ident = true ∧ listed = false ∧ t' = t) ∨
       (Manifest.lists content ident = false ∧ listed = true ∧
         t.write? path (.text (Manifest.ofLines (Text.lines content ++ [ident]))) = some t')) := by
  rw [listInManifest] at h
  split at h
  · cases h
  · rename_i content hcontent
    refine ⟨content, hcontent, ?_⟩
    rw [Manifest.extend?] at h
    cases hlists : Manifest.lists content ident with
    | true =>
        rw [hlists] at h
        cases h
        exact .inl ⟨rfl, rfl, rfl⟩
    | false =>
        rw [hlists] at h
        refine .inr ⟨rfl, ?_⟩
        simp only [Bool.false_eq_true, if_false] at h
        split at h
        · rename_i written hwritten
          obtain ⟨hlisted, rfl⟩ := Prod.mk.inj h
          exact ⟨(Except.ok.inj hlisted).symm, writeText_ok hwritten⟩
        · cases h

theorem save_ok (h : save d folder options t = (.ok report, t')) :
    ∃ text written, t.write? (d.filePath folder) (.text text) = some written ∧
      listInManifest (joinPath folder Manifest.fileName) d.ident written =
        (.ok report.listed, t') := by
  rw [save] at h
  split at h
  · split at h
    · cases h
    · rename_i text htext
      split at h
      · cases h
      · rename_i written hwritten
        split at h
        · cases h
        · rename_i listed final hlisted
          obtain ⟨hreport, rfl⟩ := Prod.mk.inj h
          rw [← Except.ok.inj hreport]
          exact ⟨text, written, writeText_ok hwritten, hlisted⟩
  · cases h

/-- Saving moves nothing: every path leads where it led before. -/
theorem resolve_of_save (h : save d folder options t = (.ok report, t')) (path : String) :
    t'.resolve path = t.resolve path := by
  obtain ⟨text, written, hfile, hmanifest⟩ := save_ok h
  obtain ⟨content, -, ⟨-, -, rfl⟩ | ⟨-, -, hwrite⟩⟩ := listInManifest_ok hmanifest
  · exact FileTree.resolve_of_write? hfile path
  · rw [FileTree.resolve_of_write? hwrite, FileTree.resolve_of_write? hfile]

/-- The file of a document stands beside the manifest, not in its place. -/
theorem manifest_beside_file {text : Content}
    (h : t.write? (d.filePath folder) text = some t') (hplace : t.resolve folder = some place)
    (hslash : '/' ∉ d.ident.toList) :
    t'.entryAt? (place ++ [Manifest.fileName]) = t.entryAt? (place ++ [Manifest.fileName]) := by
  obtain ⟨file, hresolve, -, -⟩ := FileTree.write?_eq_some h
  obtain rfl : file = place ++ [d.ident ++ ".mo"] :=
    FileTree.resolve_joinPath hplace (FileTree.isEntryName_file hslash) hresolve
  rw [FileTree.entryAt?_of_write? h hresolve, if_neg]
  intro heq
  have hname := List.cons.inj (List.append_cancel_left heq)
  exact FileTree.file_ne_of_getLast? (by decide) hname.1.symm

/-- The manifest that is read and written is the one in the folder. -/
theorem listInManifest_at
    (h : listInManifest (joinPath folder Manifest.fileName) ident t = (.ok listed, t'))
    (hplace : t.resolve folder = some place) (hcontent : t.manifestAt? place = some content) :
    (Manifest.lists content ident = true ∧ listed = false ∧ t' = t) ∨
    (Manifest.lists content ident = false ∧ listed = true ∧
      t'.entryAt? (place ++ [Manifest.fileName]) =
        some (.file (.text (Manifest.ofLines (Text.lines content ++ [ident]))))) := by
  obtain ⟨read, hread, hcases⟩ := listInManifest_ok h
  have hsame : ∀ {found}, t.resolve (joinPath folder Manifest.fileName) = some found →
      found = place ++ [Manifest.fileName] ∧ read = content := by
    intro found hfound
    obtain rfl := FileTree.resolve_joinPath hplace FileTree.isEntryName_manifest hfound
    have hat := manifestText_at hfound hread
    rw [hcontent] at hat
    exact ⟨rfl, (Option.some.inj hat).symm⟩
  rcases hcases with ⟨hlists, hlisted, rfl⟩ | ⟨hlists, hlisted, hwrite⟩
  · -- a manifest that cannot be reached is read as empty, and lists nothing
    cases hfound : t'.resolve (joinPath folder Manifest.fileName) with
    | none =>
        rw [manifestText, FileTree.entry?, hfound] at hread
        cases hread
        cases hlists
    | some found =>
        rw [(hsame hfound).2] at hlists
        exact .inl ⟨hlists, hlisted, rfl⟩
  · obtain ⟨found, hfound, -, -⟩ := FileTree.write?_eq_some hwrite
    obtain ⟨rfl, rfl⟩ := hsame hfound
    refine .inr ⟨hlists, hlisted, ?_⟩
    rw [FileTree.entryAt?_of_write? hwrite hfound, if_pos rfl]

/-- The two things a save can do to the manifest of its folder. -/
theorem save_manifest (h : save d folder options t = (.ok report, t'))
    (hplace : t.resolve folder = some place) (hslash : '/' ∉ d.ident.toList)
    (hcontent : t.manifestAt? place = some content) :
    (Manifest.lists content d.ident = true ∧ report.listed = false ∧
      t'.entryAt? (place ++ [Manifest.fileName]) = t.entryAt? (place ++ [Manifest.fileName])) ∨
    (Manifest.lists content d.ident = false ∧ report.listed = true ∧
      t'.entryAt? (place ++ [Manifest.fileName]) =
        some (.file (.text (Manifest.ofLines (Text.lines content ++ [d.ident]))))) := by
  obtain ⟨text, written, hfile, hmanifest⟩ := save_ok h
  have hbeside := manifest_beside_file hfile hplace hslash
  have hfolder : written.resolve folder = some place := by
    rw [FileTree.resolve_of_write? hfile, hplace]
  have hbefore : written.manifestAt? place = some content := by
    rw [FileTree.manifestAt?_congr hbeside, hcontent]
  rcases listInManifest_at hmanifest hfolder hbefore with
    ⟨hlists, hlisted, rfl⟩ | hextended
  · exact .inl ⟨hlists, hlisted, hbeside⟩
  · exact .inr hextended

end

/-! ## A run of saves -/

/-- One call that saves a document. -/
structure SaveCall where
  document : Document
  folder : String
  options : SaveOptions := {}

namespace SaveCall

def run (call : SaveCall) : FileEdit SaveReport :=
  save call.document call.folder call.options

/-- The name that the call puts into the manifest. -/
def ident (call : SaveCall) : String :=
  call.document.ident

end SaveCall

/-- Makes one call after another, up to the first that fails. -/
def saveAll : List SaveCall → FileEdit (List SaveReport)
  | [] => fun t => (.ok [], t)
  | call :: rest => fun t =>
    match call.run t with
    | (.error e, t) => (.error e, t)
    | (.ok report, t) =>
      match saveAll rest t with
      | (.error e, t) => (.error e, t)
      | (.ok reports, t) => (.ok (report :: reports), t)

/-- What a run of saves relies on: the manifest is text in which no line ends in a
carriage return, and every save goes to its folder under a name that a line can hold. -/
structure SavesInto (t : FileTree) (place : Place) (content : String) (calls : List SaveCall) :
    Prop where
  manifest : t.manifestAt? place = some content
  noReturn : ∀ line ∈ Text.lines content, line.toList.getLast? ≠ some '\r'
  folder : ∀ call ∈ calls, t.resolve call.folder = some place
  member : ∀ call ∈ calls, Manifest.IsMember call.ident

section

variable {t t' : FileTree} {calls before after : List SaveCall} {call : SaveCall}
  {report : SaveReport} {reports : List SaveReport} {place : Place} {content : String}

theorem saveAll_cons_ok (h : saveAll (call :: calls) t = (.ok reports, t')) :
    ∃ report more middle, call.run t = (.ok report, middle) ∧
      saveAll calls middle = (.ok more, t') ∧ reports = report :: more := by
  simp only [saveAll] at h
  split at h
  · cases h
  · rename_i report middle hcall
    split at h
    · cases h
    · rename_i more final hrest
      cases h
      exact ⟨report, more, middle, hcall, hrest, rfl⟩

theorem saveAll_append_ok (h : saveAll (before ++ after) t = (.ok reports, t')) :
    ∃ first second middle, saveAll before t = (.ok first, middle) ∧
      saveAll after middle = (.ok second, t') ∧ reports = first ++ second := by
  induction before generalizing t reports with
  | nil => exact ⟨[], reports, t, rfl, h, rfl⟩
  | cons call rest ih =>
      obtain ⟨report, more, next, hcall, hrest, rfl⟩ := saveAll_cons_ok h
      obtain ⟨first, second, middle, hfirst, hsecond, rfl⟩ := ih hrest
      refine ⟨report :: first, second, middle, ?_, hsecond, rfl⟩
      simp only [saveAll, hcall, hfirst]

theorem saveAll_of_listed {flags : List Bool}
    (h : (saveAll calls t).1.toOption.map (List.map SaveReport.listed) = some flags) :
    ∃ reports t', saveAll calls t = (.ok reports, t') ∧
      reports.map SaveReport.listed = flags := by
  rcases hrun : saveAll calls t with ⟨_ | reports, t'⟩
  · rw [hrun] at h
    cases h
  · rw [hrun] at h
    exact ⟨reports, t', rfl, Option.some.inj h⟩

/-- One save leaves the folder fit for the saves after it. Either the name was listed and
the manifest stays as it is, or the name is the new last line. -/
theorem SavesInto.step (h : SavesInto t place content (call :: calls))
    (hcall : call.run t = (.ok report, t')) :
    ∃ next, SavesInto t' place next calls ∧
      ((Manifest.lists content call.ident = true ∧ report.listed = false ∧ next = content ∧
        t'.entryAt? (place ++ [Manifest.fileName]) = t.entryAt? (place ++ [Manifest.fileName])) ∨
      (Manifest.lists content call.ident = false ∧ report.listed = true ∧
        Text.lines next = Text.lines content ++ [call.ident])) := by
  have hident := h.member call List.mem_cons_self
  have hfolder : ∀ other ∈ calls, t'.resolve other.folder = some place := by
    intro other hother
    rw [resolve_of_save hcall]
    exact h.folder other (List.mem_cons_of_mem _ hother)
  have hmember : ∀ other ∈ calls, Manifest.IsMember other.ident := fun other hother =>
    h.member other (List.mem_cons_of_mem _ hother)
  rcases save_manifest hcall (h.folder call List.mem_cons_self) hident.noSlash h.manifest with
    ⟨hlists, hlisted, hentry⟩ | ⟨hlists, hlisted, hentry⟩
  · have hmanifest : t'.manifestAt? place = some content := by
      rw [FileTree.manifestAt?_congr hentry, h.manifest]
    exact ⟨content, ⟨hmanifest, h.noReturn, hfolder, hmember⟩,
      .inl ⟨hlists, hlisted, rfl, hentry⟩⟩
  · have hlines := Manifest.lines_extended h.noReturn hident.isLine
    refine ⟨_, ⟨FileTree.manifestAt?_text hentry, ?_, hfolder, hmember⟩,
      .inr ⟨hlists, hlisted, hlines⟩⟩
    intro line hline
    exact Manifest.no_return_concat h.noReturn hident.isLine line (hlines ▸ hline)

/-- The manifest after the first saves of a run: its lines as they were, followed by the
names that were missing. -/
theorem SavesInto.run (h : SavesInto t place content (before ++ after))
    (hrun : saveAll before t = (.ok reports, t')) :
    ∃ next, SavesInto t' place next after ∧
      Text.lines next =
        Text.lines content ++ Manifest.newMembers content (before.map SaveCall.ident) := by
  induction before generalizing t content reports with
  | nil =>
      cases hrun
      exact ⟨content, h, (List.append_nil _).symm⟩
  | cons call rest ih =>
      obtain ⟨report, more, middle, hcall, hrest, -⟩ := saveAll_cons_ok hrun
      obtain ⟨next, hnext, hstep⟩ := h.step hcall
      obtain ⟨final, hfinal, hlines⟩ := ih hnext hrest
      refine ⟨final, hfinal, ?_⟩
      rw [hlines, List.map_cons]
      rcases hstep with ⟨hlists, -, rfl, -⟩ | ⟨hlists, -, hlonger⟩
      · rw [Manifest.newMembers_cons_of_lists hlists]
      · have htrim := (h.member call List.mem_cons_self).isLine.trim_eq
        rw [Manifest.newMembers_cons_of_not hlists htrim hlonger, hlonger, List.append_assoc,
          List.singleton_append]

/-- Over a run of saves into one folder the manifest keeps its lines and gets the missing
names behind them, each once and in the order of their first save. Each save tells
whether it added its name; one that did not leaves the manifest as it was. -/
theorem saveAll_manifest_append_only (h : SavesInto t place content calls)
    (hrun : saveAll calls t = (.ok reports, t')) :
    (∃ final, t'.manifestAt? place = some final ∧
      Text.lines final =
        Text.lines content ++ Manifest.newMembers content (calls.map SaveCall.ident)) ∧
    ∀ before call after, calls = before ++ call :: after →
      ∃ first report second t₁ t₂ old new,
        saveAll before t = (.ok first, t₁) ∧ call.run t₁ = (.ok report, t₂) ∧
        saveAll after t₂ = (.ok second, t') ∧ reports = first ++ report :: second ∧
        t₁.manifestAt? place = some old ∧ t₂.manifestAt? place = some new ∧
        (report.listed = true ↔ Text.lines new = Text.lines old ++ [call.ident]) ∧
        (report.listed = false →
          t₂.entryAt? (place ++ [Manifest.fileName]) =
            t₁.entryAt? (place ++ [Manifest.fileName])) := by
  constructor
  · rw [← List.append_nil calls] at h
    obtain ⟨final, hfinal, hlines⟩ := h.run hrun
    exact ⟨final, hfinal.manifest, hlines⟩
  · rintro before call after rfl
    obtain ⟨first, later, t₁, hfirst, hlater, rfl⟩ := saveAll_append_ok hrun
    obtain ⟨report, second, t₂, hcall, hsecond, rfl⟩ := saveAll_cons_ok hlater
    obtain ⟨old, hold, -⟩ := h.run hfirst
    obtain ⟨new, hnew, hstep⟩ := hold.step hcall
    refine ⟨first, report, second, t₁, t₂, old, new, hfirst, hcall, hsecond, rfl, hold.manifest,
      hnew.manifest, ?_⟩
    rcases hstep with ⟨-, hlisted, rfl, hentry⟩ | ⟨-, hlisted, hlines⟩
    · refine ⟨⟨fun htrue => ?_, fun hlonger => ?_⟩, fun _ => hentry⟩
      · rw [hlisted] at htrue
        cases htrue
      · exact absurd hlonger.symm (by simp)
    · refine ⟨⟨fun _ => hlines, fun _ => hlisted⟩, fun hfalse => ?_⟩
      rw [hlisted] at hfalse
      cases hfalse

end

namespace SavesInto

/-- A folder whose manifest lacks its last line feed and has an empty and a padded line. -/
def sampleTree : FileTree :=
  (FileTree.workspace "lib").putAt ["lib", Manifest.fileName] (.file (.text "A\n\n B "))

/-- Saves of a listed document, of a new one along another path, and of that one again. -/
def sampleCalls : List SaveCall :=
  [⟨{ ident := "B" }, ".", {}⟩, ⟨{ ident := "C" }, "/lib/", {}⟩, ⟨{ ident := "C" }, ".", {}⟩]

theorem sample : SavesInto sampleTree ["lib"] "A\n\n B " sampleCalls where
  manifest := by decide +kernel
  noReturn := by decide +kernel
  folder := by decide +kernel
  member := by
    intro call hcall
    simp only [sampleCalls, List.mem_cons, List.not_mem_nil, or_false] at hcall
    rcases hcall with rfl | rfl | rfl <;>
      exact ⟨by decide, by decide, fun c hc => by obtain rfl := Option.some.inj hc; decide,
        fun c hc => by obtain rfl := Option.some.inj hc; decide⟩

end SavesInto

theorem saveAll_manifest_append_only_three :
    ∃ reports t', saveAll SavesInto.sampleCalls SavesInto.sampleTree = (.ok reports, t') ∧
      reports.map SaveReport.listed = [false, true, false] ∧
      ∃ final, t'.manifestAt? ["lib"] = some final ∧
        Text.lines final = Text.lines "A\n\n B " ++ ["C"] := by
  have hlisted : (saveAll SavesInto.sampleCalls SavesInto.sampleTree).1.toOption.map
      (List.map SaveReport.listed) = some [false, true, false] := by
    decide +kernel
  have hnew : Manifest.newMembers "A\n\n B " (SavesInto.sampleCalls.map SaveCall.ident) =
      ["C"] := by
    decide +kernel
  obtain ⟨reports, t', hrun, hreports⟩ := saveAll_of_listed hlisted
  obtain ⟨hfinal, -⟩ := saveAll_manifest_append_only SavesInto.sample hrun
  rw [hnew] at hfinal
  exact ⟨reports, t', hrun, hreports, hfinal⟩

end ModelSource

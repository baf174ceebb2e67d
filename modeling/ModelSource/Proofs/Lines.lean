import ModelSource.Package.Save

/-!
# Splitting a manifest undoes joining it

A manifest is read into lines, and it is written by putting its lines together
again. Neither step undoes the other on every text: a last line may lack its line
feed, and a line that ends in a carriage return loses it when it is joined to a
line feed and read once more. On lines without line feeds and without a carriage
return at the end the two agree (`lines_ofLines`), and the lines of any text have
no line feeds to begin with.

Both facts come from one equation on `pieces`: a text that is cut at a separator
falls into the pieces before and the pieces after it.
-/

namespace ModelSource

namespace Text

variable {p : Char → Bool}

theorem pieces_ne_nil (p : Char → Bool) (cs : List Char) : pieces p cs ≠ [] := by
  cases cs with
  | nil => exact nofun
  | cons c rest =>
      rw [pieces]
      split
      · exact nofun
      · split <;> exact nofun

theorem pieces_cons_of_not {c : Char} {rest first : List Char} {more : List (List Char)}
    (hc : p c = false) (hrest : pieces p rest = first :: more) :
    pieces p (c :: rest) = (c :: first) :: more := by
  simp only [pieces, hc, hrest, Bool.false_eq_true, if_false]

/-- A text falls into the pieces before a separator and those after it. -/
theorem pieces_append_cons {sep : Char} (hsep : p sep = true) (xs ys : List Char) :
    pieces p (xs ++ sep :: ys) = pieces p xs ++ pieces p ys := by
  induction xs with
  | nil => simp [pieces, hsep]
  | cons x rest ih =>
      rw [List.cons_append]
      cases hx : p x with
      | true => simp [pieces, hx, ih]
      | false =>
          obtain ⟨first, more, hrest⟩ := List.exists_cons_of_ne_nil (pieces_ne_nil p rest)
          have hlong : pieces p (rest ++ sep :: ys) = first :: (more ++ pieces p ys) := by
            rw [ih, hrest, List.cons_append]
          rw [pieces_cons_of_not hx hlong, pieces_cons_of_not hx hrest, List.cons_append]

theorem pieces_of_forall {cs : List Char} (h : ∀ c ∈ cs, p c = false) : pieces p cs = [cs] := by
  induction cs with
  | nil => rfl
  | cons c rest ih =>
      rw [List.forall_mem_cons] at h
      exact pieces_cons_of_not h.1 (ih h.2)

theorem pieces_of_not_mem {sep : Char} {cs : List Char} (h : sep ∉ cs) :
    pieces (· == sep) cs = [cs] := by
  refine pieces_of_forall fun c hc => beq_eq_false_iff_ne.2 ?_
  rintro rfl
  exact h hc

theorem not_of_mem_pieces {cs piece : List Char} {c : Char} (hpiece : piece ∈ pieces p cs)
    (hc : c ∈ piece) : p c = false := by
  induction cs generalizing piece with
  | nil =>
      obtain rfl : piece = [] := List.mem_singleton.1 hpiece
      cases hc
  | cons x rest ih =>
      cases hx : p x with
      | true =>
          simp only [pieces, hx, if_true, List.mem_cons] at hpiece
          rcases hpiece with rfl | hpiece
          · cases hc
          · exact ih hpiece hc
      | false =>
          obtain ⟨first, more, hrest⟩ := List.exists_cons_of_ne_nil (pieces_ne_nil p rest)
          rw [pieces_cons_of_not hx hrest, List.mem_cons] at hpiece
          rw [hrest] at ih
          rcases hpiece with rfl | hpiece
          · rcases List.mem_cons.1 hc with rfl | hc
            · exact hx
            · exact ih List.mem_cons_self hc
          · exact ih (List.mem_cons_of_mem _ hpiece) hc

/-! ## Lines -/

theorem linesOf_cons {next : List (List Char)} (h : next ≠ []) (line : List Char) :
    linesOf (line :: next) = dropReturn line :: linesOf next := by
  obtain ⟨first, more, rfl⟩ := List.exists_cons_of_ne_nil h
  rw [linesOf]

/-- Where the last run is empty, every run before it is a line. -/
theorem linesOf_concat_nil (runs : List (List Char)) :
    linesOf (runs ++ [[]]) = runs.map dropReturn := by
  induction runs with
  | nil => rfl
  | cons run rest ih =>
      have hnext : rest ++ [[]] ≠ [] := by simp
      rw [List.cons_append, linesOf_cons hnext, ih, List.map_cons]

theorem dropReturn_subset (line : List Char) : dropReturn line ⊆ line := by
  unfold dropReturn
  split
  · exact List.dropLast_subset line
  · exact List.Subset.refl line

theorem mem_linesOf {runs : List (List Char)} {line : List Char} (h : line ∈ linesOf runs) :
    ∃ run ∈ runs, line ⊆ run := by
  induction runs with
  | nil => cases h
  | cons run rest ih =>
      cases rest with
      | nil =>
          rw [linesOf] at h
          split at h
          · cases h
          · exact ⟨line, h, List.Subset.refl line⟩
      | cons next more =>
          rw [linesOf_cons (List.cons_ne_nil next more)] at h
          rcases List.mem_cons.1 h with rfl | h
          · exact ⟨run, List.mem_cons_self, dropReturn_subset run⟩
          · obtain ⟨other, hmem, hsub⟩ := ih h
            exact ⟨other, List.mem_cons_of_mem _ hmem, hsub⟩

theorem not_mem_of_mem_lines {text line : String} (h : line ∈ lines text) :
    '\n' ∉ line.toList := by
  obtain ⟨chars, hchars, rfl⟩ := List.mem_map.1 h
  obtain ⟨run, hrun, hsub⟩ := mem_linesOf hchars
  intro hbreak
  rw [String.toList_ofList] at hbreak
  have hnot := not_of_mem_pieces hrun (hsub hbreak)
  exact absurd hnot (by decide)

/-! ## Joined lines -/

theorem toList_ofLines {first : String} {rest : List String} :
    (Manifest.ofLines (first :: rest)).toList =
      first.toList ++ '\n' :: rest.flatMap fun line => line.toList ++ ['\n'] := by
  induction rest generalizing first with
  | nil => simp [Manifest.ofLines, String.intercalate_singleton]
  | cons second more ih =>
      have hsecond := @ih second
      rw [Manifest.ofLines, String.toList_append] at hsecond
      rw [Manifest.ofLines, String.intercalate_cons_cons, String.toList_append,
        String.toList_append, String.toList_append, List.append_assoc, List.append_assoc, hsecond]
      simp

theorem pieces_joined {lines : List String} (h : ∀ line ∈ lines, '\n' ∉ line.toList) :
    pieces (· == '\n') (lines.flatMap fun line => line.toList ++ ['\n']) =
      lines.map String.toList ++ [[]] := by
  induction lines with
  | nil => rfl
  | cons line rest ih =>
      rw [List.forall_mem_cons] at h
      rw [List.flatMap_cons, List.append_assoc, List.singleton_append,
        pieces_append_cons (by decide), pieces_of_not_mem h.1, ih h.2]
      rfl

theorem dropReturn_of_ne {line : List Char} (h : line.getLast? ≠ some '\r') :
    dropReturn line = line :=
  if_neg h

/-- Splitting undoes joining where no line holds a line feed or ends in a carriage
return. -/
theorem lines_ofLines {first : String} {rest : List String}
    (hbreak : ∀ line ∈ first :: rest, '\n' ∉ line.toList)
    (hreturn : ∀ line ∈ first :: rest, line.toList.getLast? ≠ some '\r') :
    lines (Manifest.ofLines (first :: rest)) = first :: rest := by
  have hchars : (Manifest.ofLines (first :: rest)).toList =
      (first :: rest).flatMap fun line => line.toList ++ ['\n'] := by
    rw [toList_ofLines, List.flatMap_cons, List.append_assoc]
    rfl
  have hkept : ((first :: rest).map String.toList).map dropReturn =
      (first :: rest).map String.toList := by
    rw [List.map_map]
    refine List.map_congr_left fun line hmem => ?_
    exact dropReturn_of_ne (hreturn line hmem)
  rw [lines, hchars, pieces_joined hbreak, linesOf_concat_nil, hkept, List.map_map]
  have hid : String.ofList ∘ String.toList = id := by
    funext line
    exact String.ofList_toList
  rw [hid, List.map_id]

/-! ## Blanks around a name -/

/-- A text that neither starts nor ends with a blank is its own trimmed form. -/
theorem trim_eq_self {text : String} (hfirst : ∀ c, text.toList.head? = some c → isBlank c = false)
    (hlast : ∀ c, text.toList.getLast? = some c → isBlank c = false) : trim text = text := by
  have hfront : text.toList.dropWhile isBlank = text.toList := by
    cases hchars : text.toList with
    | nil => rfl
    | cons c rest =>
        rw [hchars] at hfirst
        rw [List.dropWhile_cons_of_neg]
        simp [hfirst c rfl]
  have hback : text.toList.reverse.dropWhile isBlank = text.toList.reverse := by
    cases hchars : text.toList.reverse with
    | nil => rfl
    | cons c rest =>
        have hc : text.toList.getLast? = some c := by
          rw [← List.head?_reverse, hchars]
          rfl
        rw [List.dropWhile_cons_of_neg]
        simp [hlast c hc]
  rw [trim, hfront, hback, List.reverse_reverse, String.ofList_toList]

end Text

end ModelSource

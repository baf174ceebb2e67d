import Mathlib.Data.List.Nodup
import ModelSource.Document.Build
import ModelSource.Proofs.Canonical
import ModelSource.Proofs.Lines

/-!
# What a set of flags holds

A set keeps its flags in the order in which they came, and there are several ways for them to
come: one at a time, as a list, as a text of keywords, or as a text on top of flags that are
already there. Whatever the ways, a set holds the flags that it was given (`Gathers`), and two
sets are equal when they hold the same flags. Nothing else of the insertions is left: the list
and the tree of a set are filtered out of the canonical order, in which every flag stands once.

A text of keywords is read up to the first word that is none. The keywords of a set are words
themselves, so a text that is made of them is read back to the flags that they belong to.
-/

namespace ModelSource

/-! ## Words -/

/-- A text that is read as one word. -/
def Text.IsWord (text : String) : Prop :=
  text ≠ "" ∧ text.toList.any Text.isBlank = false

namespace Text

instance (text : String) : Decidable (IsWord text) :=
  inferInstanceAs (Decidable (_ ∧ _))

theorem words_of_isWord {word : String} (h : IsWord word) : words word = [word] := by
  have hne : word.toList ≠ [] := fun hnil => h.1 (String.toList_eq_nil_iff.1 hnil)
  have hblank : ∀ c ∈ word.toList, isBlank c = false := fun c hc =>
    Bool.eq_false_iff.2 (List.any_eq_false.1 h.2 c hc)
  rw [words, pieces_of_forall hblank]
  simp [hne]

theorem words_cons_space {word : String} (h : IsWord word) (rest : String) :
    words (word ++ " " ++ rest) = word :: words rest := by
  have hcut : pieces isBlank (word ++ " " ++ rest).toList =
      pieces isBlank word.toList ++ pieces isBlank rest.toList := by
    rw [String.toList_append, String.toList_append, List.append_assoc]
    exact pieces_append_cons (by decide) word.toList rest.toList
  have hword := words_of_isWord h
  rw [words] at hword ⊢
  rw [hcut, List.filter_append, List.map_append, hword]
  rfl

theorem words_intercalate {ws : List String} (h : ∀ word ∈ ws, IsWord word) :
    words (String.intercalate " " ws) = ws := by
  induction ws with
  | nil => rfl
  | cons word rest ih =>
      rw [List.forall_mem_cons] at h
      cases rest with
      | nil => rw [String.intercalate_singleton, words_of_isWord h.1]
      | cons next more =>
          rw [String.intercalate_cons_cons, words_cons_space h.1, ih h.2]

end Text

/-! ## Keywords -/

/-- No flag stands twice in the canonical order, and every keyword is one word. -/
class FlagKind.Lawful (F : Type) [FlagKind F] : Prop extends FlagKind.Complete F where
  nodup_all : (FlagKind.all : List F).Nodup
  isWord_keyword : ∀ f : F, Text.IsWord (FlagKind.keyword f)

instance : FlagKind.Lawful DocumentFlag where
  nodup_all := by decide
  isWord_keyword f := by cases f <;> decide

instance : FlagKind.Lawful DeclarationFlag where
  nodup_all := by decide
  isWord_keyword f := by cases f <;> decide

instance : FlagKind.Lawful AssignFlag where
  nodup_all := by decide
  isWord_keyword f := by cases f <;> decide

namespace FlagKind

variable {F : Type} [FlagKind F]

/-- The word is the keyword of a flag of this kind. -/
def IsKeyword (F : Type) [FlagKind F] (word : String) : Prop :=
  ∃ f : F, keyword f = word

/-- What is said of a word that is no keyword. -/
def unknown (F : Type) [FlagKind F] (word : String) : Error :=
  .unknownFlag word (context F) ((all : List F).map keyword)

variable [Complete F]

theorem ofKeyword?_eq_some_iff {word : String} {f : F} :
    ofKeyword? word = some f ↔ keyword f = word := by
  have hfound : ∀ {word : String} {g : F}, ofKeyword? word = some g → keyword g = word := by
    intro word g hg
    rw [ofKeyword?] at hg
    simpa using List.find?_some hg
  constructor
  · exact hfound
  · rintro rfl
    -- Something is found, and there is only one flag that it can be.
    obtain ⟨g, hg⟩ : ∃ g : F, ofKeyword? (keyword f) = some g :=
      Option.isSome_iff_exists.1 (List.find?_isSome.2 ⟨f, Complete.mem_all f, beq_self_eq_true _⟩)
    rw [hg, Complete.keyword_injective g f (hfound hg)]

theorem parse_keyword (f : F) : FlagKind.parse (keyword f) = .ok f := by
  rw [FlagKind.parse, ofKeyword?_eq_some_iff.2 rfl]

theorem parse_of_not_isKeyword {word : String} (h : ¬ IsKeyword F word) :
    (FlagKind.parse word : Except Error F) = .error (unknown F word) := by
  have hnone : (ofKeyword? word : Option F) = none :=
    Option.eq_none_iff_forall_ne_some.2 fun f hf => h ⟨f, ofKeyword?_eq_some_iff.1 hf⟩
  rw [FlagKind.parse, hnone, unknown]

/-- The flags whose keywords the text holds, as it holds them. -/
def flagsIn (F : Type) [FlagKind F] (text : String) : List F :=
  (Text.words text).filterMap ofKeyword?

theorem mem_flagsIn {text : String} {g : F} : g ∈ flagsIn F text ↔ keyword g ∈ Text.words text := by
  rw [flagsIn, List.mem_filterMap]
  constructor
  · rintro ⟨word, hword, hg⟩
    rwa [ofKeyword?_eq_some_iff.1 hg]
  · intro hword
    exact ⟨keyword g, hword, ofKeyword?_eq_some_iff.2 rfl⟩

end FlagKind

namespace FlagSet

open FlagKind

variable {F : Type} [DecidableEq F]

/-! ## Insertions -/

@[simp] theorem contains_insert (set : FlagSet F) (f g : F) :
    (set.insert f).contains g = true ↔ set.contains g = true ∨ g = f := by
  rw [insert]
  split
  case isTrue hf =>
      constructor
      · exact Or.inl
      · rintro (hg | rfl)
        · exact hg
        · exact hf
  case isFalse => simp [contains]

theorem contains_foldl_insert (set : FlagSet F) (flags : List F) (g : F) :
    (flags.foldl insert set).contains g = true ↔ set.contains g = true ∨ g ∈ flags := by
  induction flags generalizing set with
  | nil => simp
  | cons f rest ih => rw [List.foldl_cons, ih, contains_insert, List.mem_cons, or_assoc]

theorem contains_empty (g : F) : (empty : FlagSet F).contains g = false :=
  rfl

theorem contains_ofList (flags : List F) (g : F) :
    (ofList flags).contains g = true ↔ g ∈ flags := by
  rw [ofList, contains_foldl_insert, contains_empty]
  simp

variable [FlagKind F]

theorem beq_iff_toList_eq {first second : FlagSet F} :
    (first == second) = true ↔ first.toList = second.toList :=
  beq_iff_eq (α := List F)

section Complete

variable [Complete F]

@[simp] theorem mem_toList (set : FlagSet F) (g : F) : g ∈ set.toList ↔ set.contains g = true := by
  simp [toList, among, Complete.mem_all]

theorem contains_union (set more : FlagSet F) (g : F) :
    (set.union more).contains g = true ↔ set.contains g = true ∨ more.contains g = true := by
  rw [union, contains_foldl_insert, mem_toList]

/-! ## Texts of keywords -/

theorem insertWords_keyword_cons (set : FlagSet F) (f : F) (rest : List String) :
    set.insertWords (keyword f :: rest) = (set.insert f).insertWords rest := by
  rw [insertWords, parse_keyword]

theorem insertWords_cons_of_not {word : String} (h : ¬ IsKeyword F word) (set : FlagSet F)
    (rest : List String) : set.insertWords (word :: rest) = .error (unknown F word) := by
  rw [insertWords, parse_of_not_isKeyword h]

/-- Keywords are taken in, all of them. -/
theorem insertWords_eq_ok {ws : List String} (h : ∀ word ∈ ws, IsKeyword F word)
    (set : FlagSet F) :
    ∃ result, set.insertWords ws = .ok result ∧
      ∀ g, result.contains g = true ↔ set.contains g = true ∨ keyword g ∈ ws := by
  induction ws generalizing set with
  | nil => exact ⟨set, rfl, by simp⟩
  | cons word rest ih =>
      rw [List.forall_mem_cons] at h
      obtain ⟨⟨f, rfl⟩, hrest⟩ := h
      obtain ⟨result, hresult, hcontains⟩ := ih hrest (set.insert f)
      refine ⟨result, by rw [insertWords_keyword_cons, hresult], fun g => ?_⟩
      have hkeyword : keyword g = keyword f ↔ g = f :=
        ⟨Complete.keyword_injective g f, congrArg keyword⟩
      rw [hcontains, contains_insert, List.mem_cons, hkeyword, or_assoc]

theorem insertWords_eq_error {before : List String} (hbefore : ∀ word ∈ before, IsKeyword F word)
    {word : String} (hword : ¬ IsKeyword F word) (after : List String) (set : FlagSet F) :
    set.insertWords (before ++ word :: after) = .error (unknown F word) := by
  induction before generalizing set with
  | nil => exact insertWords_cons_of_not hword set after
  | cons first rest ih =>
      rw [List.forall_mem_cons] at hbefore
      obtain ⟨⟨f, rfl⟩, hrest⟩ := hbefore
      rw [List.cons_append, insertWords_keyword_cons, ih hrest]

/-- The words are keywords, or there is a first that is none. -/
theorem isKeyword_or_first_unknown (F : Type) [FlagKind F] (ws : List String) :
    (∀ word ∈ ws, IsKeyword F word) ∨
      ∃ before word after, ws = before ++ word :: after ∧
        (∀ other ∈ before, IsKeyword F other) ∧ ¬ IsKeyword F word := by
  induction ws with
  | nil => exact .inl (List.forall_mem_nil _)
  | cons first rest ih =>
      by_cases hfirst : IsKeyword F first
      · rcases ih with hrest | ⟨before, word, after, rfl, hbefore, hword⟩
        · exact .inl (List.forall_mem_cons.2 ⟨hfirst, hrest⟩)
        · exact .inr ⟨first :: before, word, after, rfl,
            List.forall_mem_cons.2 ⟨hfirst, hbefore⟩, hword⟩
      · exact .inr ⟨[], first, rest, rfl, List.forall_mem_nil _, hfirst⟩

/-- A text is read exactly if all of its words are keywords. -/
theorem parse_eq_ok_iff (text : String) :
    (∃ set : FlagSet F, parse text = .ok set) ↔ ∀ word ∈ Text.words text, IsKeyword F word := by
  constructor
  · rintro ⟨set, hset⟩
    rcases isKeyword_or_first_unknown F (Text.words text) with
      hall | ⟨before, word, after, hsplit, hbefore, hword⟩
    · exact hall
    · rw [parse, hsplit, insertWords_eq_error hbefore hword] at hset
      cases hset
  · intro hall
    obtain ⟨set, hset, -⟩ := insertWords_eq_ok hall empty
    exact ⟨set, hset⟩

theorem contains_of_parse {text : String} {set : FlagSet F} (h : parse text = .ok set) (g : F) :
    set.contains g = true ↔ keyword g ∈ Text.words text := by
  obtain ⟨result, hresult, hcontains⟩ := insertWords_eq_ok ((parse_eq_ok_iff text).1 ⟨set, h⟩) empty
  obtain rfl : set = result := Except.ok.inj (h.symm.trans hresult)
  rw [hcontains, contains_empty]
  simp

/-- The error names the first word that is no keyword. -/
theorem parse_eq_error_iff (text : String) (e : Error) :
    (parse text : Except Error (FlagSet F)) = .error e ↔
      ∃ before word after, Text.words text = before ++ word :: after ∧
        (∀ other ∈ before, IsKeyword F other) ∧ ¬ IsKeyword F word ∧ e = unknown F word := by
  constructor
  · intro h
    rcases isKeyword_or_first_unknown F (Text.words text) with
      hall | ⟨before, word, after, hsplit, hbefore, hword⟩
    · obtain ⟨set, hset⟩ := (parse_eq_ok_iff text).2 hall
      rw [hset] at h
      cases h
    · rw [parse, hsplit, insertWords_eq_error hbefore hword] at h
      exact ⟨before, word, after, hsplit, hbefore, hword, (Except.error.inj h).symm⟩
  · rintro ⟨before, word, after, hsplit, hbefore, hword, rfl⟩
    rw [parse, hsplit, insertWords_eq_error hbefore hword]

/-! ## What insertions leave -/

/-- The set is what these flags make when they are put in one after the other, in one of the
ways that there are. -/
inductive Gathers : List F → FlagSet F → Prop where
  | empty : Gathers [] FlagSet.empty
  | ofList (flags : List F) : Gathers flags (FlagSet.ofList flags)
  | parse {text : String} {set : FlagSet F} (h : FlagSet.parse text = .ok set) :
      Gathers (flagsIn F text) set
  | insert {given : List F} {set : FlagSet F} (h : Gathers given set) (f : F) :
      Gathers (given ++ [f]) (set.insert f)
  /-- A text on top of what is there. -/
  | addWords {given : List F} {set more : FlagSet F} {text : String} (h : Gathers given set)
      (hmore : FlagSet.parse text = .ok more) : Gathers (given ++ flagsIn F text) (set.union more)

/-- Of a sequence of insertions nothing is left but which flags were in it. -/
theorem Gathers.contains_iff {given : List F} {set : FlagSet F} (h : Gathers given set) (g : F) :
    set.contains g = true ↔ g ∈ given := by
  induction h with
  | empty => simp [contains_empty]
  | ofList flags => exact contains_ofList flags g
  | parse h => rw [contains_of_parse h, mem_flagsIn]
  | insert _ f ih => rw [contains_insert, ih, List.mem_append, List.mem_singleton]
  | addWords _ hmore ih =>
      rw [contains_union, ih, contains_of_parse hmore, List.mem_append, mem_flagsIn]

/-! ## Equality -/

theorem beq_iff_contains_eq {first second : FlagSet F} :
    (first == second) = true ↔ ∀ g, first.contains g = second.contains g := by
  rw [beq_iff_toList_eq]
  constructor
  · intro h g
    rw [Bool.eq_iff_iff, ← mem_toList, ← mem_toList, h]
  · intro h
    exact List.filter_congr fun g _ => h g

theorem isEmpty_eq_of_beq {first second : FlagSet F} (h : (first == second) = true) :
    first.isEmpty = second.isEmpty := by
  have hempty : ∀ set : FlagSet F, set.isEmpty = true ↔ ∀ g, set.contains g = false := by
    intro set
    rw [isEmpty, List.isEmpty_iff, List.eq_nil_iff_forall_not_mem]
    simp [contains]
  rw [Bool.eq_iff_iff, hempty, hempty]
  simp only [beq_iff_contains_eq.1 h]

end Complete

variable [Lawful F]

/-- The list of a set goes along the canonical order and never stays where it is. -/
theorem pairwise_toList (set : FlagSet F) :
    set.toList.Pairwise fun f g => (all : List F).idxOf f < (all : List F).idxOf g := by
  have hall : (all : List F).Pairwise fun f g =>
      (all : List F).idxOf f < (all : List F).idxOf g := by
    rw [List.pairwise_iff_getElem]
    intro i j hi hj hij
    rwa [Lawful.nodup_all.idxOf_getElem i hi, Lawful.nodup_all.idxOf_getElem j hj]
  exact hall.sublist List.filter_sublist

/-- The keywords of a set are read back to it. -/
theorem parse_keywords (set : FlagSet F) :
    ∃ result, parse (String.intercalate " " set.keywords) = .ok result ∧
      (result == set) = true := by
  have hwords : Text.words (String.intercalate " " set.keywords) = set.keywords := by
    refine Text.words_intercalate (List.forall_mem_map.2 fun f _ => ?_)
    exact Lawful.isWord_keyword f
  obtain ⟨result, hresult⟩ : ∃ result : FlagSet F,
      parse (String.intercalate " " set.keywords) = .ok result := by
    rw [parse_eq_ok_iff, hwords]
    exact List.forall_mem_map.2 fun f _ => ⟨f, rfl⟩
  refine ⟨result, hresult, beq_iff_contains_eq.2 fun g => ?_⟩
  have hinjective : Function.Injective (keyword : F → String) := fun f f' =>
    Complete.keyword_injective f f'
  rw [Bool.eq_iff_iff, contains_of_parse hresult, hwords, keywords,
    List.mem_map_of_injective hinjective, mem_toList]

end FlagSet

end ModelSource

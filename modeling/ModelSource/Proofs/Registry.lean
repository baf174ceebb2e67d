import Mathlib.Data.List.Nodup
import ModelSource.Proofs.Reachable

/-!
# The registry is exact

The registry remembers a section and a position for every declared name, and
the sections grow underneath it. Nothing ties the two together but the fact that
everything grows through `push`, and `push` itself would overwrite an entry
without a word. What keeps the registry right is that both ways to add a
declaration ask first whether its name is free.

The invariant is `Indexed`: a name is looked up at a place exactly when the
element there declares it. It speaks of names only, so an operation that revises
elements where they stand cannot disturb it, and an element pushed at the end of
its section changes what is declared at that one place and nowhere else.
-/

namespace ModelSource

theorem Ordered.lookup_eq_some_iff_mem {entries : List (String × α)} {name : String} {value : α}
    (h : (entries.map Prod.fst).Nodup) :
    entries.lookup name = some value ↔ (name, value) ∈ entries := by
  induction entries with
  | nil => simp
  | cons entry rest ih =>
      obtain ⟨key, old⟩ := entry
      rw [List.map_cons, List.nodup_cons] at h
      by_cases hk : name = key
      · subst hk
        have hrest : (name, value) ∉ rest := fun hmem =>
          h.1 (List.mem_map.2 ⟨(name, value), hmem, rfl⟩)
        simp [hrest, eq_comm]
      · rw [List.lookup_cons, beq_eq_false_iff_ne.2 hk, ih h.2]
        simp [hk]

theorem Element.declaration?_eq_some {e : Element} {d : Declaration} :
    e.declaration? = some d ↔ e = .declaration d := by
  cases e <;> simp [Element.declaration?]

theorem Section.isDeclarative_iff {target : Section} :
    target.isDeclarative = true ↔ target = .publicPart ∨ target = .protectedPart := by
  cases target <;> simp [Section.isDeclarative]

namespace Document

/-- The name declared at a place. -/
def nameAt? (d : Document) (place : Location) : Option String :=
  (d.elements place.target)[place.index]?.bind Element.declares?

/-- Every declaration of the document, section by section. -/
def allDeclarations (d : Document) : List Declaration :=
  Section.all.flatMap fun target => (d.elements target).filterMap Element.declaration?

/-- The registry has every name once, and finds it where it is declared. -/
structure Indexed (d : Document) : Prop where
  nodup : (d.registry.map Prod.fst).Nodup
  exact : ∀ ident place, d.registry.lookup ident = some place ↔ d.nameAt? place = some ident

theorem nameAt?_eq_some {d : Document} {place : Location} {ident : String} :
    d.nameAt? place = some ident ↔
      ∃ declaration, d.declarationAt? place = some declaration ∧ declaration.ident = ident := by
  rw [nameAt?, Option.bind_eq_some_iff]
  constructor
  · rintro ⟨element, hat, hname⟩
    cases element with
    | declaration declaration =>
        exact ⟨declaration, declarationAt?_eq_some.2 hat, by simpa [Element.declares?] using hname⟩
    | equation | connection | algorithm | importClause | extendsClause | text | construct =>
        cases hname
  · rintro ⟨declaration, hat, rfl⟩
    exact ⟨.declaration declaration, declarationAt?_eq_some.1 hat, rfl⟩

/-! ## What a step does to names -/

theorem declares?_getElem?_of_revised {before after : List Element}
    (h : List.Forall₂ Element.Revised before after) (index : Nat) :
    after[index]?.bind Element.declares? = before[index]?.bind Element.declares? := by
  induction h generalizing index with
  | nil => rfl
  | cons hrev _ ih =>
      cases index with
      | zero => exact hrev.declares?_eq
      | succ i => simpa using ih i

theorem nameAt?_end (d : Document) (target : Section) :
    d.nameAt? ⟨target, (d.elements target).length⟩ = none := by
  simp [nameAt?]

theorem nameAt?_push (d : Document) (target : Section) (element : Element) (place : Location) :
    (d.push target element).nameAt? place =
      if place = ⟨target, (d.elements target).length⟩ then element.declares?
      else d.nameAt? place := by
  obtain ⟨section_, index⟩ := place
  simp only [nameAt?, elements_push, Location.mk.injEq]
  by_cases hs : section_ = target
  · subst hs
    simp only [if_true, true_and]
    rcases Nat.lt_trichotomy index (d.elements section_).length with hlt | heq | hgt
    · rw [if_neg (by omega), List.getElem?_append_left hlt]
    · subst heq
      simp
    · rw [if_neg (by omega), List.getElem?_eq_none (by simp; omega),
        List.getElem?_eq_none (by omega)]
  · simp [hs]

theorem registry_push (d : Document) (target : Section) (element : Element) :
    (d.push target element).registry =
      match element.declares? with
      | some ident => Ordered.put ident ⟨target, (d.elements target).length⟩ d.registry
      | none => d.registry := by
  cases element <;> rfl

/-- A name that is admitted is free. -/
theorem lookup_of_admits {d : Document} {element : Element} {target : Section} {ident : String}
    (h : d.admits element target = .ok ()) (hname : element.declares? = some ident) :
    d.registry.lookup ident = none := by
  cases element with
  | declaration declaration =>
      have hident : declaration.ident = ident := by simpa [Element.declares?] using hname
      subst hident
      unfold Document.admits at h
      split at h
      · simp only [Document.checkUnique] at h
        split at h
        · cases h
        · next hnone => exact hnone
      · cases h
  | equation | connection | algorithm | importClause | extendsClause | text | construct =>
      cases hname

theorem Indexed.revised {d after : Document} (h : d.Indexed)
    (hregistry : after.registry = d.registry)
    (helements : ∀ target,
      List.Forall₂ Element.Revised (d.elements target) (after.elements target)) :
    after.Indexed := by
  refine ⟨hregistry ▸ h.nodup, fun ident place => ?_⟩
  have hname : after.nameAt? place = d.nameAt? place :=
    declares?_getElem?_of_revised (helements place.target) place.index
  rw [hregistry, hname]
  exact h.exact ident place

theorem Indexed.pushed {d : Document} (h : d.Indexed) {target : Section} {element : Element}
    (hadmits : d.admits element target = .ok ()) :
    (d.push target element).Indexed ∧
      (d.push target element).registry.map Prod.fst =
        d.registry.map Prod.fst ++ element.declares?.toList := by
  have hend := nameAt?_end d target
  rw [registry_push]
  cases hname : element.declares? with
  | none =>
      refine ⟨⟨?_, fun ident place => ?_⟩, by simp⟩
      · rw [registry_push, hname]
        exact h.nodup
      · rw [registry_push, hname, nameAt?_push, hname, h.exact]
        split
        · next hplace => rw [hplace, hend]
        · rfl
  | some name =>
      have hfree := lookup_of_admits hadmits hname
      have hkeys : name ∉ d.registry.map Prod.fst := by
        intro hmem
        obtain ⟨⟨_, place⟩, hentry, rfl⟩ := List.mem_map.1 hmem
        rw [(Ordered.lookup_eq_some_iff_mem h.nodup).2 hentry] at hfree
        cases hfree
      have hfst : (Ordered.put name (⟨target, (d.elements target).length⟩ : Location)
          d.registry).map Prod.fst = d.registry.map Prod.fst ++ [name] := by
        rw [Ordered.map_fst_put, if_neg hkeys]
      refine ⟨⟨?_, fun ident place => ?_⟩, hfst⟩
      · rw [registry_push, hname]
        simp only [hfst]
        rw [List.nodup_append]
        refine ⟨h.nodup, List.nodup_singleton name, ?_⟩
        rintro key hkey _ hsingle rfl
        rw [List.mem_singleton.1 hsingle] at hkey
        exact hkeys hkey
      · -- the new name answers with the new place, and nothing else has moved
        rw [registry_push, hname, nameAt?_push, hname]
        simp only [Ordered.lookup_put]
        by_cases hplace : place = ⟨target, (d.elements target).length⟩
        · subst hplace
          have hother : d.registry.lookup ident ≠ some ⟨target, (d.elements target).length⟩ := by
            rw [ne_eq, h.exact, hend]
            simp
          by_cases hident : ident = name
          · simp [hident]
          · simp [hident, hother, Ne.symm hident]
        · by_cases hident : ident = name
          · subst hident
            have hnot : d.nameAt? place ≠ some ident := by
              rw [ne_eq, ← h.exact, hfree]
              simp
            simp [hplace, hnot, Ne.symm hplace]
          · simp [hplace, hident, h.exact]

theorem Step.indexed {d after : Document} {name : Option String} (hstep : Step d name after)
    (h : d.Indexed) :
    after.Indexed ∧ after.registry.map Prod.fst = d.registry.map Prod.fst ++ name.toList := by
  cases hstep with
  | revised hregistry helements =>
      exact ⟨h.revised hregistry helements, by simp [hregistry]⟩
  | pushed target element _ hadmits => exact h.pushed hadmits

/-- A run adds its names to the registry in the order in which it adds them. -/
theorem run_indexed (ops : List Operation) {d : Document} (h : d.Indexed) :
    (d.run ops).Indexed ∧
      (d.run ops).registry.map Prod.fst = d.registry.map Prod.fst ++ d.additions ops := by
  induction ops generalizing d with
  | nil => exact ⟨h, by simp [run, additions]⟩
  | cons op rest ih =>
      obtain ⟨hindexed, hnames⟩ := (op.step d).indexed h
      obtain ⟨hrun, hrest⟩ := ih hindexed
      refine ⟨hrun, ?_⟩
      rw [run, additions, hrest, hnames, List.append_assoc]

theorem indexed_start (ident : String) : Indexed { ident } := by
  refine ⟨List.nodup_nil, fun name place => ?_⟩
  obtain ⟨target, index⟩ := place
  cases target <;> simp [nameAt?, elements, Sections.get]

/-! ## What an exact registry gives -/

theorem Indexed.place_unique {d : Document} (h : d.Indexed) {p q : Location}
    {a b : Declaration} (hp : d.declarationAt? p = some a) (hq : d.declarationAt? q = some b)
    (hident : a.ident = b.ident) : p = q := by
  have hlookup := (h.exact b.ident p).2 (nameAt?_eq_some.2 ⟨a, hp, hident⟩)
  rw [(h.exact b.ident q).2 (nameAt?_eq_some.2 ⟨b, hq, rfl⟩)] at hlookup
  exact (Option.some.inj hlookup).symm

theorem Indexed.declaration?_eq {d : Document} (h : d.Indexed) {ident : String}
    {place : Location} (hlookup : d.registry.lookup ident = some place) :
    ∃ declaration, d.declarationAt? place = some declaration ∧ declaration.ident = ident ∧
      d.declaration? ident = some declaration := by
  obtain ⟨declaration, hat, hident⟩ := nameAt?_eq_some.1 ((h.exact ident place).1 hlookup)
  refine ⟨declaration, hat, hident, ?_⟩
  rw [declaration?, locate?_eq_some.2 ⟨hlookup, hat⟩]
  rfl

theorem mem_section_declarations {elements : List Element} {declaration : Declaration} :
    declaration ∈ elements.filterMap Element.declaration? ↔
      ∃ index : Nat, elements[index]? = some (.declaration declaration) := by
  rw [List.mem_filterMap]
  constructor
  · rintro ⟨element, hmem, hdecl⟩
    obtain rfl := Element.declaration?_eq_some.1 hdecl
    exact List.mem_iff_getElem?.1 hmem
  · rintro ⟨index, hat⟩
    exact ⟨_, List.mem_of_getElem? hat, rfl⟩

theorem mem_allDeclarations {d : Document} {declaration : Declaration} :
    declaration ∈ d.allDeclarations ↔ ∃ place, d.declarationAt? place = some declaration := by
  simp only [allDeclarations, List.mem_flatMap, mem_section_declarations]
  constructor
  · rintro ⟨target, -, index, hat⟩
    exact ⟨⟨target, index⟩, declarationAt?_eq_some.2 hat⟩
  · rintro ⟨⟨target, index⟩, hat⟩
    exact ⟨target, Section.mem_all target, index, declarationAt?_eq_some.1 hat⟩

theorem Indexed.nodup_allDeclarations {d : Document} (h : d.Indexed) :
    d.allDeclarations.Nodup := by
  rw [allDeclarations, List.nodup_flatMap]
  constructor
  · intro target _
    rw [List.Nodup, List.pairwise_filterMap, List.pairwise_iff_getElem]
    rintro i j hi hj hlt a ha _ hb rfl
    -- the same declaration at two places of one section
    have hplaceAt : ∀ {k : Nat} (hk : k < (d.elements target).length),
        (d.elements target)[k].declaration? = some a →
        d.declarationAt? ⟨target, k⟩ = some a := by
      intro k hk hdecl
      rw [declarationAt?_eq_some, List.getElem?_eq_getElem hk,
        Element.declaration?_eq_some.1 hdecl]
    have hplace := h.place_unique (hplaceAt hi ha) (hplaceAt hj hb) rfl
    rw [Location.mk.injEq] at hplace
    omega
  · refine List.Pairwise.imp ?_ (show Section.all.Pairwise (· ≠ ·) by decide)
    intro s t hst declaration hs ht
    obtain ⟨i, hi⟩ := mem_section_declarations.1 hs
    obtain ⟨j, hj⟩ := mem_section_declarations.1 ht
    have hplace : (⟨s, i⟩ : Location) = ⟨t, j⟩ :=
      h.place_unique (declarationAt?_eq_some.2 hi) (declarationAt?_eq_some.2 hj) rfl
    rw [Location.mk.injEq] at hplace
    exact hst hplace.1

/-- No entry of the registry leads nowhere, so none is left out of the list. -/
theorem Indexed.map_ident_declarations {d : Document} (h : d.Indexed) :
    d.declarations.map Declaration.ident = d.registry.map Prod.fst := by
  have hfound : ∀ entry ∈ d.registry,
      (d.declaration? entry.1).map Declaration.ident = some entry.1 := by
    rintro ⟨ident, place⟩ hentry
    have hlookup := (Ordered.lookup_eq_some_iff_mem h.nodup).2 hentry
    obtain ⟨declaration, -, hident, hfind⟩ := h.declaration?_eq hlookup
    rw [hfind, Option.map_some, hident]
  rw [declarations, List.map_filterMap, ← List.filterMap_eq_map]
  exact List.filterMap_congr hfound

theorem Indexed.mem_declarations {d : Document} (h : d.Indexed) {declaration : Declaration} :
    declaration ∈ d.declarations ↔ ∃ place, d.declarationAt? place = some declaration := by
  rw [declarations, List.mem_filterMap]
  constructor
  · rintro ⟨⟨ident, place⟩, hentry, hfind⟩
    have hlookup := (Ordered.lookup_eq_some_iff_mem h.nodup).2 hentry
    obtain ⟨found, hat, -, hfound⟩ := h.declaration?_eq hlookup
    simp only [hfound, Option.some.injEq] at hfind
    exact ⟨place, hfind ▸ hat⟩
  · rintro ⟨place, hat⟩
    have hlookup := (h.exact declaration.ident place).2 (nameAt?_eq_some.2 ⟨declaration, hat, rfl⟩)
    obtain ⟨found, hat', -, hfound⟩ := h.declaration?_eq hlookup
    rw [hat] at hat'
    have hentry := (Ordered.lookup_eq_some_iff_mem h.nodup).1 hlookup
    exact ⟨(declaration.ident, place), hentry, hfound.trans hat'.symm⟩

theorem Indexed.declarations_perm {d : Document} (h : d.Indexed) :
    d.declarations.Perm d.allDeclarations := by
  have hnodup : d.declarations.Nodup := by
    refine List.Nodup.of_map Declaration.ident ?_
    rw [h.map_ident_declarations]
    exact h.nodup
  rw [List.perm_ext_iff_of_nodup hnodup h.nodup_allDeclarations]
  intro declaration
  rw [h.mem_declarations, mem_allDeclarations]

/-- Declarations are never found outside the declarative sections. -/
theorem run_declarative (ident : String) (ops : List Operation) {target : Section}
    {declaration : Declaration}
    (h : .declaration declaration ∈ (run { ident } ops).elements target) :
    target.isDeclarative = true := by
  have hall := run_elements (P := fun target e => e.declares?.isSome = true →
      target.isDeclarative = true)
    (fun hrev hbefore hsome => hbefore (hrev.declares?_eq ▸ hsome))
    (fun {target e} _ hallowed hsome => by
      cases e with
      | declaration => exact hallowed
      | equation | connection | algorithm | importClause | extendsClause | text | construct =>
          cases hsome) ident ops
  exact hall target _ h rfl

/-- The registry of every document that a run makes is exact. It finds a name at
a place exactly when that place is in a declarative section and holds the
declaration of that name, so names are declared once and where they belong, a
registered name always leads to its declaration, and the list of declarations is
all of them, each once, in the order in which the run added them. What a push
puts at the end of a section is what is found there. -/
theorem run_registry_exact (ident : String) (ops : List Operation) :
    let d := run { ident } ops
    (∀ name place, d.registry.lookup name = some place ↔
      (place.target = .publicPart ∨ place.target = .protectedPart) ∧
        ∃ declaration, (d.elements place.target)[place.index]? = some (.declaration declaration) ∧
          declaration.ident = name) ∧
    (d.registry.map Prod.fst).Nodup ∧
    (∀ (p q : Location) (a b : Declaration),
      (d.elements p.target)[p.index]? = some (.declaration a) →
      (d.elements q.target)[q.index]? = some (.declaration b) → a.ident = b.ident → p = q) ∧
    (∀ target declaration, .declaration declaration ∈ d.elements target →
      target = .publicPart ∨ target = .protectedPart) ∧
    (∀ name place, d.registry.lookup name = some place →
      ∃ declaration, (d.elements place.target)[place.index]? = some (.declaration declaration) ∧
        d.locate? name = some (place, declaration) ∧ d.declaration? name = some declaration) ∧
    (∀ target element,
      ((d.push target element).elements target)[(d.elements target).length]? = some element) ∧
    d.declarations.Perm d.allDeclarations ∧
    d.declarations.map Declaration.ident = additions { ident } ops := by
  intro d
  obtain ⟨hindexed, hnames⟩ : d.Indexed ∧ _ := run_indexed ops (indexed_start ident)
  have hdeclarative : ∀ target declaration, .declaration declaration ∈ d.elements target →
      target = .publicPart ∨ target = .protectedPart := fun target declaration hmem =>
    Section.isDeclarative_iff.1 (run_declarative ident ops hmem)
  refine ⟨fun name place => ?_, hindexed.nodup, ?_, hdeclarative, ?_, ?_,
    hindexed.declarations_perm, ?_⟩
  · rw [hindexed.exact, nameAt?_eq_some]
    simp only [declarationAt?_eq_some]
    constructor
    · rintro ⟨declaration, hat, hname⟩
      exact ⟨hdeclarative _ _ (List.mem_of_getElem? hat), declaration, hat, hname⟩
    · rintro ⟨-, hat⟩
      exact hat
  · intro p q a b hp hq
    exact hindexed.place_unique (declarationAt?_eq_some.2 hp) (declarationAt?_eq_some.2 hq)
  · intro name place hlookup
    obtain ⟨declaration, hat, -, hfind⟩ := hindexed.declaration?_eq hlookup
    exact ⟨declaration, declarationAt?_eq_some.1 hat, locate?_eq_some.2 ⟨hlookup, hat⟩, hfind⟩
  · intro target element
    rw [elements_push, if_pos rfl]
    simp
  · rw [hindexed.map_ident_declarations, hnames]
    rfl

end Document

end ModelSource

/-!
# Ordered maps

A list of named values that keeps the order in which names first came up. A name
is looked up from the front and replaced where it stands, so a list built by
`put` has every name once.
-/

namespace ModelSource.Ordered

/-- Gives `name` a value: in the place where it stands, or else at the end. -/
def put (name : String) (value : α) : List (String × α) → List (String × α)
  | [] => [(name, value)]
  | (key, old) :: rest =>
    if key = name then (key, value) :: rest else (key, old) :: put name value rest

/-- `put` makes the name answer with the value and leaves all other names alone. -/
theorem lookup_put (name : String) (value : α) (entries : List (String × α)) (other : String) :
    (put name value entries).lookup other =
      if other = name then some value else entries.lookup other := by
  induction entries with
  | nil => by_cases h : other = name <;> simp [put, List.lookup_cons, h, beq_eq_false_iff_ne.2]
  | cons entry rest ih =>
    obtain ⟨key, old⟩ := entry
    by_cases hk : key = name
    · subst hk
      by_cases ho : other = key <;> simp [put, List.lookup_cons, ho, beq_eq_false_iff_ne.2]
    · by_cases ho : other = key
      · have : ¬ other = name := fun h => hk (ho ▸ h)
        simp [put, hk, ho]
      · simp [put, hk, List.lookup_cons, ho, beq_eq_false_iff_ne.2, ih]

/-- The names stay as they are, or get the new one at the end. -/
theorem map_fst_put (name : String) (value : α) (entries : List (String × α)) :
    (put name value entries).map Prod.fst =
      if name ∈ entries.map Prod.fst then entries.map Prod.fst
      else entries.map Prod.fst ++ [name] := by
  induction entries with
  | nil => simp [put]
  | cons entry rest ih =>
    obtain ⟨key, old⟩ := entry
    by_cases hk : key = name
    · simp [put, hk]
    · have hk' : ¬ name = key := fun h => hk h.symm
      simp only [put, hk, if_false, List.map_cons, ih, List.mem_cons, hk', false_or]
      split <;> rfl

end ModelSource.Ordered

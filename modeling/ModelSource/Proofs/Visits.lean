import ModelSource.Printer.Document

/-!
# Where a document can fail to have a text

Most of a document has a text whatever it says. What may lack one are values, and
this file lists the places where they are met, in the order in which they are
written: `visits`. A visit is a demand on a value, that it be a finite literal,
say, or a row of a list of rows, and the path that leads to the value.

`Visit.Refused` says which demands cannot be met and with which error. There are
nine of them. Nothing here prints anything, and nothing stops at the first visit
that is refused.
-/

namespace ModelSource

/-- What is met on the way through a document. -/
inductive Demand where
  /-- A literal that is written. -/
  | literal (scalar : Scalar)
  /-- An entry that is an assignment. -/
  | assignment (assignment : Assign)
  /-- A list that starts with this item. -/
  | listFrom (first : Value)
  /-- An item of a list that starts with a map. -/
  | record (item : Value)
  /-- An item of a list that starts with a list or a tuple. -/
  | row (item : Value)
  /-- A member of a row, or an item of a list that starts with a literal. -/
  | member (item : Value)
  /-- The value of a declaration. -/
  | binding (value : Value)

/-- A demand and the names that lead to it. -/
structure Visit where
  path : List String
  demand : Demand

namespace Visit

/-- The demands that cannot be met, and what is reported. -/
inductive Refused : Visit → Error → Prop
  | nonFinite {path : List String} {x : Binary64} (h : x.isFinite = false) :
      Refused ⟨path, .literal (.real x)⟩ (.unsupported (.nonFinite x) path)
  | typeWithoutRedeclare {path : List String} {a : Assign} {typeName : String}
      (typed : a.typeName = some typeName) (plain : a.flags.contains .redeclare = false) :
      Refused ⟨path, .assignment a⟩ (.violation (.typeWithoutRedeclare typeName))
  | assignList {path : List String} {a : Assign} :
      Refused ⟨path, .listFrom (.assign a)⟩ (.unsupported (.listOf .assign) path)
  | recordShape {path : List String} {item : Value} (h : item.shape ≠ .map) :
      Refused ⟨path, .record item⟩ (.unsupported (.mapListHolding item.shape) path)
  | recordSize {path : List String} {entries : Modification} (h : entries.size ≠ 1) :
      Refused ⟨path, .record (.map entries)⟩ (.unsupported (.mapListEntries entries.size) path)
  | rowShape {path : List String} {item : Value} (list : item.shape ≠ .list)
      (tuple : item.shape ≠ .tuple) :
      Refused ⟨path, .row item⟩ (.unsupported (.rowListHolding item.shape) path)
  | memberShape {path : List String} {item : Value} (h : item.shape ≠ .scalar) :
      Refused ⟨path, .member item⟩ (.unsupported (.rowHolding item.shape) path)
  | listBinding {path : List String} {items : List Value} :
      Refused ⟨path, .binding (.list items)⟩ (.unsupported (.bindingOf .list) path)
  | emptyBinding {path : List String} {a : Assign} (h : a.literal = none) :
      Refused ⟨path, .binding (.assign a)⟩ (.unsupported .missingLiteral path)

end Visit

/-! ## The visits in order -/

/-- Literals, all at one place. -/
def literalVisits (path : List String) (scalars : List Scalar) : List Visit :=
  scalars.map fun scalar => ⟨path, .literal scalar⟩

/-- A member of a row. -/
def memberVisits (path : List String) (item : Value) : List Visit :=
  ⟨path, .member item⟩ ::
    match item with
    | .scalar scalar => literalVisits path [scalar]
    | _ => []

/-- A row and its members. -/
def rowVisits (path : List String) (item : Value) : List Visit :=
  ⟨path, .row item⟩ ::
    match item with
    | .list items => items.flatMap (memberVisits path)
    | .tuple scalars => literalVisits path scalars
    | _ => []

/-- The value of a declaration. -/
def bindingVisits (path : List String) (value : Value) : List Visit :=
  ⟨path, .binding value⟩ ::
    match value with
    | .scalar scalar => literalVisits path [scalar]
    | .tuple scalars => literalVisits path scalars
    | .assign a => literalVisits path a.literal.toList
    | _ => []

mutual

/-- The entries of a map one after the other, each below its own name. -/
def Modification.visits (path : List String) : Modification → List Visit
  | ⟨entries⟩ => entryVisits path entries

def entryVisits (path : List String) : List (String × Value) → List Visit
  | [] => []
  | (key, value) :: rest => value.visits (path ++ [key]) ++ entryVisits path rest

def Value.visits (path : List String) : Value → List Visit
  | .scalar scalar => literalVisits path [scalar]
  | .tuple scalars => literalVisits path scalars
  | .map entries => entries.visits path
  | .assign assignment => assignment.visits path
  | .list [] => []
  | .list (first :: rest) =>
    ⟨path, .listFrom first⟩ ::
      match first.shape with
      | .map => recordVisits path 0 (first :: rest)
      | .list | .tuple => (first :: rest).flatMap (rowVisits path)
      | .scalar => (first :: rest).flatMap (memberVisits path)
      | .assign => []

/-- The flags and the type, the nested map, the literal, the annotations. -/
def Assign.visits (path : List String) : Assign → List Visit
  | ⟨literal, modifications, flags, about, annotations, typeName, precision⟩ =>
    ⟨path, .assignment ⟨literal, modifications, flags, about, annotations, typeName, precision⟩⟩
      :: modifications.visits path ++ literalVisits path literal.toList
      ++ annotations.visits (path ++ ["annotation"])

/-- Records, the first of them at the given index. -/
def recordVisits (path : List String) (index : Nat) : List Value → List Visit
  | [] => []
  | .map entries :: rest =>
    ⟨path, .record (.map entries)⟩ :: entries.visits (path ++ [Printer.itemSegment index])
      ++ recordVisits path (index + 1) rest
  | item :: rest => ⟨path, .record item⟩ :: recordVisits path (index + 1) rest

end

theorem Modification.visits_of_isEmpty {m : Modification} (h : m.isEmpty = true)
    (path : List String) : m.visits path = [] := by
  obtain ⟨entries⟩ := m
  obtain rfl : entries = [] := List.isEmpty_iff.1 h
  rw [Modification.visits, entryVisits]

/-- The annotations of a statement. -/
def annotationVisits (path : List String) (annotations : Modification) : List Visit :=
  annotations.visits (path ++ ["annotation"])

/-- The modifications, the value, the annotations. -/
def Declaration.visits (path : List String) (d : Declaration) : List Visit :=
  d.modifications.visits path ++ d.value.toList.flatMap (bindingVisits (path ++ ["value"]))
    ++ annotationVisits path d.annotations

mutual

/-- The body, the further branches by their index, the else. -/
def Construct.visits (path : List String) : Construct → List Visit
  | ⟨kind, _, _, _, body, branches, orelse⟩ =>
    clauseVisits path body
      ++ kind.branchKeyword.toList.flatMap (fun word => branchVisits path word 0 branches)
      ++ elseVisits path orelse

def elseVisits (path : List String) : Option (List Clause) → List Visit
  | none => []
  | some last => clauseVisits (path ++ ["else"]) last

def branchVisits (path : List String) (word : String) (index : Nat) : List Branch → List Visit
  | [] => []
  | ⟨_, body⟩ :: rest =>
    clauseVisits (path ++ [word ++ Printer.itemSegment index]) body
      ++ branchVisits path word (index + 1) rest

def clauseVisits (path : List String) : List Clause → List Visit
  | [] => []
  | clause :: rest => clause.visits path ++ clauseVisits path rest

def Clause.visits (path : List String) : Clause → List Visit
  | .equation e | .algorithm e => annotationVisits path e.annotations
  | .connection c => annotationVisits path c.annotations
  | .statement _ | .expression _ => []
  | .construct c => c.visits path

end

def Element.visits (path : List String) : Element → List Visit
  | .declaration d => d.visits path
  | .equation e | .algorithm e => annotationVisits path e.annotations
  | .connection c => annotationVisits path c.annotations
  | .importClause _ | .text _ => []
  | .extendsClause e => e.modifications.visits path
  | .construct c => c.visits path

namespace Document

/-- The elements of a section one after the other, each below its own segment. -/
def sectionVisits (d : Document) (target : Section) : List Visit :=
  (d.elements target).zipIdx.flatMap fun (e, index) =>
    e.visits [d.ident, target.keyword, Printer.elementSegment index e]

/-- All visits of a document: its sections in order and its annotations. -/
def visits (d : Document) : List Visit :=
  Section.all.flatMap d.sectionVisits ++ d.annotations.visits [d.ident, "annotation"]

end Document

/-! ## The first error

Being refused can be decided, and the error of the first visit that is refused
is found by a search. It distributes over `++` as the fault of a printout does,
so that printing and visiting can be compared part by part. -/

/-- The error of a visit that is refused. -/
def Visit.error? (v : Visit) : Option Error :=
  match v.demand with
  | .literal (.real x) =>
    if x.isFinite then none else some (.unsupported (.nonFinite x) v.path)
  | .assignment a =>
    match a.typeName with
    | some typeName =>
      if a.flags.contains .redeclare then none
      else some (.violation (.typeWithoutRedeclare typeName))
    | none => none
  | .listFrom (.assign _) => some (.unsupported (.listOf .assign) v.path)
  | .record (.map entries) =>
    if entries.size = 1 then none else some (.unsupported (.mapListEntries entries.size) v.path)
  | .record item => some (.unsupported (.mapListHolding item.shape) v.path)
  | .row item =>
    if item.shape = .list ∨ item.shape = .tuple then none
    else some (.unsupported (.rowListHolding item.shape) v.path)
  | .member item =>
    if item.shape = .scalar then none else some (.unsupported (.rowHolding item.shape) v.path)
  | .binding (.list _) => some (.unsupported (.bindingOf .list) v.path)
  | .binding (.assign a) =>
    if a.literal = none then some (.unsupported .missingLiteral v.path) else none
  | _ => none

theorem Value.shape_ne_map {item : Value} :
    item.shape ≠ .map ↔ ∀ entries, item ≠ .map entries := by
  cases item <;> simp [shape]

theorem Visit.Refused.error?_eq {v : Visit} {e : Error} (h : v.Refused e) : v.error? = some e := by
  cases h with
  | nonFinite h => simp [error?, h]
  | typeWithoutRedeclare typed plain => simp [error?, typed, plain]
  | assignList => rfl
  | recordShape h =>
      unfold error?
      split <;> simp_all [Value.shape_ne_map]
  | recordSize h => simp [error?, h]
  | rowShape list tuple => simp [error?, list, tuple]
  | memberShape h => simp [error?, h]
  | listBinding => rfl
  | emptyBinding h => simp [error?, h]

theorem Visit.error?_eq_some {v : Visit} {e : Error} : v.error? = some e ↔ v.Refused e := by
  refine ⟨fun h => ?_, Refused.error?_eq⟩
  unfold error? at h
  obtain ⟨path, demand⟩ := v
  split at h
  · next x hdemand =>
      obtain rfl : demand = .literal (.real x) := hdemand
      split at h
      · cases h
      · next hfinite =>
          cases h
          exact .nonFinite (Bool.eq_false_iff.2 hfinite)
  · next a hdemand =>
      obtain rfl : demand = .assignment a := hdemand
      split at h
      · next typeName typed =>
          split at h
          · cases h
          · next plain =>
              cases h
              exact .typeWithoutRedeclare typed (Bool.eq_false_iff.2 plain)
      · cases h
  · next a hdemand =>
      obtain rfl : demand = .listFrom (.assign a) := hdemand
      cases h
      exact .assignList
  · next entries hdemand =>
      obtain rfl : demand = .record (.map entries) := hdemand
      split at h
      · cases h
      · next hsize =>
          cases h
          exact .recordSize hsize
  · next item hother hdemand =>
      obtain rfl : demand = .record item := hdemand
      cases h
      exact .recordShape (Value.shape_ne_map.2 fun entries heq => hother entries (heq ▸ rfl))
  · next item hdemand =>
      obtain rfl : demand = .row item := hdemand
      split at h
      · cases h
      · next hshape =>
          cases h
          exact .rowShape (fun hlist => hshape (.inl hlist)) (fun htuple => hshape (.inr htuple))
  · next item hdemand =>
      obtain rfl : demand = .member item := hdemand
      split at h
      · cases h
      · next hshape =>
          cases h
          exact .memberShape hshape
  · next items hdemand =>
      obtain rfl : demand = .binding (.list items) := hdemand
      cases h
      exact .listBinding
  · next a hdemand =>
      obtain rfl : demand = .binding (.assign a) := hdemand
      split at h
      · next hnone =>
          cases h
          exact .emptyBinding hnone
      · cases h
  · cases h

/-- The error of the first visit that is refused. -/
def firstError (visits : List Visit) : Option Error :=
  visits.findSome? Visit.error?

@[simp] theorem firstError_nil : firstError [] = none :=
  rfl

@[simp] theorem firstError_append (first second : List Visit) :
    firstError (first ++ second) = (firstError first).or (firstError second) :=
  List.findSome?_append

theorem firstError_cons (v : Visit) (rest : List Visit) :
    firstError (v :: rest) = v.error?.or (firstError rest) := by
  rw [firstError, List.findSome?_cons]
  cases v.error? <;> rfl

end ModelSource

import ModelSource.Proofs.Canonical
import ModelSource.Proofs.Registry
import ModelSource.Proofs.TreeText

/-!
# The tree of a document loses nothing

The text of a tree tells the tree (`TreeText.lean`), and a tree tells its node up to the
order of flags (`Canonical.lean`). Two things are left. The first is that the one way in
which a tree can fail to be told by its text, a real without digits, is a matter of the
reals in the document: they are the reals in its tree, at every depth and in order
(`reals_toTree`).

The second is the registry, of which the tree shows nothing. It is made up for by the
invariant of all runs: the registry finds a name where it is declared, so documents that
declare the same names at the same places have the same registry, but for its order.
-/

namespace ModelSource

/-! ## The reals of a document -/

def Scalar.reals : Scalar → List Binary64
  | .real x => [x]
  | .bool _ | .integer _ | .text _ => []

mutual

/-- The reals in a value, at every depth. -/
def Value.reals : Value → List Binary64
  | .scalar value => value.reals
  | .tuple items => items.flatMap Scalar.reals
  | .map entries => entries.reals
  | .assign assignment => assignment.reals
  | .list items => itemReals items

def itemReals : List Value → List Binary64
  | [] => []
  | item :: rest => item.reals ++ itemReals rest

def Modification.reals : Modification → List Binary64
  | ⟨entries⟩ => entryReals entries

def entryReals : List (String × Value) → List Binary64
  | [] => []
  | (_, value) :: rest => value.reals ++ entryReals rest

def Assign.reals : Assign → List Binary64
  | ⟨literal, modifications, _, _, annotations, _, _⟩ =>
    literal.toList.flatMap Scalar.reals ++ modifications.reals ++ annotations.reals

end

mutual

/-- The reals in a construct, at every depth. -/
def Construct.reals : Construct → List Binary64
  | ⟨_, _, _, _, body, branches, orelse⟩ =>
    clauseReals body ++ branchReals branches ++ elseReals orelse

def elseReals : Option (List Clause) → List Binary64
  | none => []
  | some clauses => clauseReals clauses

def branchReals : List Branch → List Binary64
  | [] => []
  | ⟨_, body⟩ :: rest => clauseReals body ++ branchReals rest

def clauseReals : List Clause → List Binary64
  | [] => []
  | clause :: rest => clause.reals ++ clauseReals rest

def Clause.reals : Clause → List Binary64
  | .equation e | .algorithm e => e.annotations.reals
  | .connection c => c.annotations.reals
  | .statement _ | .expression _ => []
  | .construct c => c.reals

end

def Element.reals : Element → List Binary64
  | .declaration d =>
    d.value.toList.flatMap Value.reals ++ d.modifications.reals ++ d.annotations.reals
  | .equation e | .algorithm e => e.annotations.reals
  | .connection c => c.annotations.reals
  | .importClause _ | .text _ => []
  | .extendsClause e => e.modifications.reals
  | .construct c => c.reals

/-- The reals in a document: in its annotations and in every section. -/
def Document.reals (d : Document) : List Binary64 :=
  d.annotations.reals ++ Section.all.flatMap fun target => (d.elements target).flatMap Element.reals

/-! ## No real of a tree is lost or made up -/

namespace Tree

@[simp] theorem reals_text (value : String) : (text value).reals = [] :=
  rfl

@[simp] theorem reals_bool (value : Bool) : (bool value).reals = [] :=
  rfl

@[simp] theorem reals_integer (value : Int) : (integer value).reals = [] :=
  rfl

@[simp] theorem reals_ofOption (f : α → Tree) (a : Option α) :
    (ofOption f a).reals = a.toList.flatMap fun a => (f a).reals := by
  cases a with
  | none => rfl
  | some a => simp [ofOption]

@[simp] theorem reals_ofText (text : Option String) : (ofText text).reals = [] := by
  simp [ofText]

end Tree

@[simp] theorem FlagSet.reals_toTree {F : Type} [DecidableEq F] [FlagKind F] (flags : FlagSet F) :
    flags.toTree.reals = [] := by
  simp [FlagSet.toTree, List.flatMap_map]

@[simp] theorem Scalar.reals_toTree (s : Scalar) : s.toTree.reals = s.reals := by
  cases s <;> rfl

mutual

theorem Value.reals_toTree (v : Value) : v.toTree.reals = v.reals := by
  match v with
  | .scalar a => simp [Value.toTree, Value.reals]
  | .tuple items => simp [Value.toTree, Value.reals, List.flatMap_map]
  | .map entries => simp [Value.toTree, Value.reals, Modification.reals_modificationTree entries]
  | .assign a => simp [Value.toTree, Value.reals, Assign.reals_assignTree a]
  | .list items => simp [Value.toTree, Value.reals, reals_itemTrees items]

theorem reals_itemTrees (items : List Value) :
    (Value.itemTrees items).flatMap Tree.reals = itemReals items := by
  match items with
  | [] => rfl
  | item :: rest =>
      rw [Value.itemTrees, List.flatMap_cons, itemReals, Value.reals_toTree item,
        reals_itemTrees rest]

theorem Modification.reals_modificationTree (m : Modification) :
    (Value.modificationTree m).reals = m.reals := by
  match m with
  | ⟨entries⟩ => simp [Value.modificationTree, Modification.reals, reals_entryTrees entries]

theorem reals_entryTrees (entries : List (String × Value)) :
    ((Value.entryTrees entries).flatMap fun member => member.2.reals) = entryReals entries := by
  match entries with
  | [] => rfl
  | (name, value) :: rest =>
      rw [Value.entryTrees, List.flatMap_cons, entryReals, Value.reals_toTree value,
        reals_entryTrees rest]

theorem Assign.reals_assignTree (a : Assign) : (Value.assignTree a).reals = a.reals := by
  match a with
  | ⟨literal, modifications, flags, description, annotations, typeName, precision⟩ =>
      simp [Value.assignTree, Assign.reals, Modification.reals_modificationTree modifications,
        Modification.reals_modificationTree annotations]

end

@[simp] theorem Modification.reals_toTree (m : Modification) : m.toTree.reals = m.reals :=
  m.reals_modificationTree

@[simp] theorem Equation.reals_toTree (e : Equation) : e.toTree.reals = e.annotations.reals := by
  simp [Equation.toTree]

@[simp] theorem Connection.reals_toTree (c : Connection) :
    c.toTree.reals = c.annotations.reals := by
  simp [Connection.toTree]

mutual

theorem Construct.reals_toTree (c : Construct) : c.toTree.reals = c.reals := by
  match c with
  | ⟨kind, bodyKind, test, indices, body, branches, orelse⟩ =>
      simp [Construct.toTree_eq, Construct.reals, List.flatMap_map, reals_clauseTrees body,
        reals_branchTrees branches, reals_elseTree orelse]

theorem reals_elseTree (orelse : Option (List Clause)) :
    (Construct.elseTree orelse).reals = elseReals orelse := by
  match orelse with
  | none => rfl
  | some clauses => simp [Construct.elseTree, elseReals, reals_clauseTrees clauses]

theorem reals_branchTrees (branches : List Branch) :
    (Construct.branchTrees branches).flatMap Tree.reals = branchReals branches := by
  match branches with
  | [] => rfl
  | ⟨test, body⟩ :: rest =>
      simp [Construct.branchTrees, branchReals, reals_clauseTrees body, reals_branchTrees rest]

theorem reals_clauseTrees (clauses : List Clause) :
    (Construct.clauseTrees clauses).flatMap Tree.reals = clauseReals clauses := by
  match clauses with
  | [] => rfl
  | clause :: rest =>
      simp [Construct.clauseTrees, clauseReals, Clause.reals_clauseTree clause,
        reals_clauseTrees rest]

theorem Clause.reals_clauseTree (clause : Clause) :
    (Construct.clauseTree clause).reals = clause.reals := by
  match clause with
  | .equation e => simp [Construct.clauseTree, Clause.reals]
  | .connection c => simp [Construct.clauseTree, Clause.reals]
  | .algorithm step => simp [Construct.clauseTree, Clause.reals]
  | .statement text => simp [Construct.clauseTree, Clause.reals]
  | .expression text => simp [Construct.clauseTree, Clause.reals]
  | .construct c => simp [Construct.clauseTree, Clause.reals, Construct.reals_toTree c]

end

theorem Element.reals_toTree (e : Element) : e.toTree.reals = e.reals := by
  cases e with
  | declaration d =>
      have hnone : ∀ {α : Type} (names : List α),
          names.flatMap (fun _ => ([] : List Binary64)) = [] :=
        fun _ => List.flatMap_eq_nil_iff.2 fun _ _ => rfl
      simp [Element.toTree, Element.reals, Declaration.toTree, List.flatMap_map,
        Value.reals_toTree, hnone]
  | equation e => simp [Element.toTree, Element.reals]
  | connection c => simp [Element.toTree, Element.reals]
  | algorithm step => simp [Element.toTree, Element.reals]
  | importClause i =>
      cases i <;> simp [Element.toTree, Element.reals, Import.toTree, List.flatMap_map]
  | extendsClause e => simp [Element.toTree, Element.reals, Extends.toTree]
  | text t => simp [Element.toTree, Element.reals, RawText.toTree, List.flatMap_map]
  | construct c => simp [Element.toTree, Element.reals, Construct.reals_toTree]

theorem Document.reals_toTree (d : Document) : d.toTree.reals = d.reals := by
  simp [Document.toTree, Document.reals, Sections.toTree, Document.elements, List.flatMap_map,
    Element.reals_toTree]

/-! ## Documents -/

theorem Element.declares?_canonical (e : Element) : e.canonical.declares? = e.declares? := by
  cases e <;> rfl

theorem Element.map_canonical_eq {first second : List Element}
    (h : first.map Element.toTree = second.map Element.toTree) :
    first.map Element.canonical = second.map Element.canonical := by
  induction first generalizing second with
  | nil =>
      cases second with
      | nil => rfl
      | cons => cases h
  | cons e rest ih =>
      cases second with
      | nil => cases h
      | cons e' others =>
          obtain ⟨hhead, htail⟩ := List.cons.inj h
          rw [List.map_cons, List.map_cons, Element.canonical_eq_of_toTree_eq hhead, ih htail]

namespace Document

/-- What two documents with one tree have in common. -/
theorem parts_eq_of_toTree_eq {first second : Document} (h : first.toTree = second.toTree) :
    first.ident = second.ident ∧ first.description = second.description ∧
      first.within = second.within ∧
      (∀ flag, first.flags.contains flag = second.flags.contains flag) ∧
      first.annotations.canonical = second.annotations.canonical ∧
      ∀ target, (first.elements target).map Element.canonical =
        (second.elements target).map Element.canonical := by
  simp only [Document.toTree, Tree.object.injEq, List.cons.injEq, Prod.mk.injEq, true_and,
    and_true, Tree.text.injEq] at h
  obtain ⟨hident, hdescription, hwithin, hflags, hannotations, hsections⟩ := h
  refine ⟨hident, Tree.ofText_injective hdescription, ?_, ?_, ?_, fun target => ?_⟩
  · refine Tree.ofOption_injective nofun (fun {a b} hab => ?_) hwithin
    obtain ⟨name⟩ := a
    obtain ⟨name'⟩ := b
    simp only [Tree.object.injEq, List.cons.injEq, Prod.mk.injEq, true_and, and_true] at hab
    rw [Tree.ofText_injective hab]
  · exact FlagSet.contains_eq_of_canonical_eq (FlagSet.canonical_eq_of_toTree_eq hflags)
  · exact Modification.canonical_eq_of_toTree_eq hannotations
  · have htargets := List.map_inj_left.1 (Tree.object.inj hsections) target (Section.mem_all target)
    exact Element.map_canonical_eq (Tree.array.inj (Prod.mk.inj htargets).2)

/-- Where the sections are the same but for the order of flags, so are the names in them,
and then a registry that finds every name finds it at the same place. -/
theorem Indexed.lookup_eq {first second : Document} (hfirst : first.Indexed)
    (hsecond : second.Indexed)
    (h : ∀ target, (first.elements target).map Element.canonical =
      (second.elements target).map Element.canonical) (name : String) :
    first.registry.lookup name = second.registry.lookup name := by
  have hnames : ∀ place, first.nameAt? place = second.nameAt? place := by
    intro place
    have hat := congrArg (·[place.index]?) (h place.target)
    simp only [List.getElem?_map] at hat
    have hcanonical : ∀ d : Document, d.nameAt? place =
        ((d.elements place.target)[place.index]?.map Element.canonical).bind Element.declares? := by
      intro d
      rw [nameAt?, Option.bind_map]
      congr 1
      exact funext fun e => e.declares?_canonical.symm
    rw [hcanonical, hcanonical, hat]
  refine Option.ext fun place => ?_
  rw [hfirst.exact, hsecond.exact, hnames]

end Document

/-- The text of a document's tree tells all of the document. For the documents that runs
make, with no real in them that has no digits: if the texts are the same, so are name,
description, package, flags, annotations and all six sections, down to every node and in
the same order, but for the order in which flags were given. The registry, of which the
tree shows nothing, finds every name at the same place. -/
theorem tree_text_lossless (ident ident' : String) (ops ops' : List Operation)
    (hfinite : ∀ x ∈ (Document.run { ident } ops).reals, x.isFinite = true)
    (hfinite' : ∀ x ∈ (Document.run { ident := ident' } ops').reals, x.isFinite = true)
    (h : (Document.run { ident } ops).toTree.compact =
      (Document.run { ident := ident' } ops').toTree.compact) :
    let d := Document.run { ident } ops
    let d' := Document.run { ident := ident' } ops'
    d.ident = d'.ident ∧ d.description = d'.description ∧ d.within = d'.within ∧
      (∀ flag, d.flags.contains flag = d'.flags.contains flag) ∧
      d.annotations.canonical = d'.annotations.canonical ∧
      (∀ target, (d.elements target).map Element.canonical =
        (d'.elements target).map Element.canonical) ∧
      ∀ name, d.registry.lookup name = d'.registry.lookup name := by
  intro d d'
  have htree : d.toTree = d'.toTree := by
    refine Tree.compact_injective ?_ ?_ h
    · rwa [Tree.Finite, Document.reals_toTree]
    · rwa [Tree.Finite, Document.reals_toTree]
  obtain ⟨hident, hdescription, hwithin, hflags, hannotations, helements⟩ :=
    Document.parts_eq_of_toTree_eq htree
  exact ⟨hident, hdescription, hwithin, hflags, hannotations, helements,
    (Document.run_indexed ops (Document.indexed_start ident)).1.lookup_eq
      (Document.run_indexed ops' (Document.indexed_start ident')).1 helements⟩

/-- Two ways to one tree: the flags and the declarations come in different orders, and the
second declaration goes to another section. -/
theorem tree_text_lossless_pair :
    let flagged : Modification := ⟨[("start", .real ⟨0x3ff8000000000000⟩)]⟩
    let a (flags : List DeclarationFlag) : Operation :=
      .addDeclaration "Real" "a" { flags := .ofList flags, modifications := flagged }
    let b : Operation := .addDeclaration "Real" "b" { target := some .protectedPart }
    let ops : List Operation := [.addFlag .final, .addFlag .incomplete, a [.inner, .outer], b]
    let ops' : List Operation := [b, a [.outer, .inner], .addFlag .incomplete, .addFlag .final]
    let d := Document.run { ident := "M" } ops
    let d' := Document.run { ident := "M" } ops'
    d.registry.map Prod.fst ≠ d'.registry.map Prod.fst ∧
      (∀ x ∈ d.reals, x.isFinite = true) ∧ d.toTree.compact = d'.toTree.compact ∧
      d.registry.lookup "b" = d'.registry.lookup "b" := by
  intro flagged a b ops ops' d d'
  have hfinite : ∀ x ∈ d.reals, x.isFinite = true := by decide +kernel
  have hfinite' : ∀ x ∈ d'.reals, x.isFinite = true := by decide +kernel
  have htree : d.toTree = d'.toTree := rfl
  obtain ⟨-, -, -, -, -, -, hregistry⟩ :=
    tree_text_lossless "M" "M" ops ops' hfinite hfinite' (congrArg Tree.compact htree)
  exact ⟨by decide +kernel, hfinite, congrArg Tree.compact htree, hregistry "b"⟩

end ModelSource

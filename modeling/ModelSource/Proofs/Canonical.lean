import Mathlib.Data.List.Basic
import ModelSource.Document.Basic

/-!
# Nodes are told by their trees

A tree shows of a set of flags which flags are in it, in canonical order, and nothing of
the order in which they came. Beyond that it shows everything: two nodes with one tree
are the same node once all flags inside them are put in canonical order (`canonical`).

The tree of a node names what the node is, except for scalars, whose trees are what they
stand for; so the proofs go along the nodes, constructor against constructor, and of a
field that may be missing one has to know that its tree is never `null`.
-/

namespace ModelSource

/-! ## Flags as sets -/

/-- The canonical order leaves no flag out, and no two flags have one keyword. -/
class FlagKind.Complete (F : Type) [FlagKind F] : Prop where
  mem_all : ∀ f : F, f ∈ (FlagKind.all : List F)
  keyword_injective : ∀ f g : F, FlagKind.keyword f = FlagKind.keyword g → f = g

instance : FlagKind.Complete DocumentFlag where
  mem_all f := by cases f <;> decide
  keyword_injective f g := by cases f <;> cases g <;> decide

instance : FlagKind.Complete DeclarationFlag where
  mem_all f := by cases f <;> decide
  keyword_injective f g := by cases f <;> cases g <;> decide

instance : FlagKind.Complete AssignFlag where
  mem_all f := by cases f <;> decide
  keyword_injective f g := by cases f <;> cases g <;> decide

namespace FlagSet

variable {F : Type} [DecidableEq F] [FlagKind F]

/-- The flags in canonical order, each of them once. -/
def canonical (flags : FlagSet F) : FlagSet F :=
  ⟨flags.toList⟩

variable [FlagKind.Complete F] {first second : FlagSet F}

theorem contains_eq_of_canonical_eq (h : first.canonical = second.canonical) (f : F) :
    first.contains f = second.contains f := by
  have hlist : first.toList = second.toList := congrArg members h
  have hmem : ∀ flags : FlagSet F, flags.contains f = decide (f ∈ flags.toList) := by
    intro flags
    simp [toList, among, FlagKind.Complete.mem_all]
  rw [hmem, hmem, hlist]

theorem canonical_eq_of_toTree_eq (h : first.toTree = second.toTree) :
    first.canonical = second.canonical := by
  have hwords : first.keywords = second.keywords :=
    List.map_injective_iff.2 (fun _ _ => Tree.text.inj) (Tree.array.inj h)
  have hlist : first.toList = second.toList :=
    List.map_injective_iff.2 FlagKind.Complete.keyword_injective hwords
  rw [canonical, canonical, hlist]

end FlagSet

/-! ## Nodes with their flags in canonical order -/

mutual

/-- The value with all flags inside it in canonical order. -/
def Value.canonical : Value → Value
  | .scalar value => .scalar value
  | .tuple items => .tuple items
  | .map entries => .map entries.canonical
  | .assign assignment => .assign assignment.canonical
  | .list items => .list (canonicalItems items)

def canonicalItems : List Value → List Value
  | [] => []
  | item :: rest => item.canonical :: canonicalItems rest

def Modification.canonical : Modification → Modification
  | ⟨entries⟩ => ⟨canonicalEntries entries⟩

def canonicalEntries : List (String × Value) → List (String × Value)
  | [] => []
  | (name, value) :: rest => (name, value.canonical) :: canonicalEntries rest

def Assign.canonical : Assign → Assign
  | ⟨literal, modifications, flags, description, annotations, typeName, precision⟩ =>
    ⟨literal, modifications.canonical, flags.canonical, description, annotations.canonical,
      typeName, precision⟩

end

def Equation.canonical (e : Equation) : Equation :=
  { e with annotations := e.annotations.canonical }

def Connection.canonical (c : Connection) : Connection :=
  { c with annotations := c.annotations.canonical }

def Extends.canonical (e : Extends) : Extends :=
  { e with modifications := e.modifications.canonical }

def Declaration.canonical (d : Declaration) : Declaration :=
  { d with
    modifications := d.modifications.canonical
    annotations := d.annotations.canonical
    value := d.value.map Value.canonical
    flags := d.flags.canonical }

mutual

def Clause.canonical : Clause → Clause
  | .equation e => .equation e.canonical
  | .connection c => .connection c.canonical
  | .statement text => .statement text
  | .algorithm step => .algorithm step.canonical
  | .expression text => .expression text
  | .construct c => .construct c.canonical

def canonicalClauses : List Clause → List Clause
  | [] => []
  | clause :: rest => clause.canonical :: canonicalClauses rest

def canonicalBranches : List Branch → List Branch
  | [] => []
  | ⟨test, body⟩ :: rest => ⟨test, canonicalClauses body⟩ :: canonicalBranches rest

def canonicalElse : Option (List Clause) → Option (List Clause)
  | none => none
  | some clauses => some (canonicalClauses clauses)

def Construct.canonical : Construct → Construct
  | ⟨kind, bodyKind, test, indices, body, branches, orelse⟩ =>
    ⟨kind, bodyKind, test, indices, canonicalClauses body, canonicalBranches branches,
      canonicalElse orelse⟩

end

def Element.canonical : Element → Element
  | .declaration d => .declaration d.canonical
  | .equation e => .equation e.canonical
  | .connection c => .connection c.canonical
  | .algorithm step => .algorithm step.canonical
  | .importClause i => .importClause i
  | .extendsClause e => .extendsClause e.canonical
  | .text t => .text t
  | .construct c => .construct c.canonical

/-! ## Parts of trees -/

namespace Tree

/-- A missing value is told from one that is there, if no value is `null`. -/
theorem map_eq_of_ofOption_eq {f : α → Tree} {g : α → β} (hnull : ∀ a, f a ≠ .null)
    (h : ∀ {a b}, f a = f b → g a = g b) {first second : Option α}
    (htree : ofOption f first = ofOption f second) : first.map g = second.map g := by
  cases first with
  | none =>
      cases second with
      | none => rfl
      | some b => exact absurd htree.symm (hnull b)
  | some a =>
      cases second with
      | none => exact absurd htree (hnull a)
      | some b => exact congrArg some (h htree)

theorem ofOption_injective {f : α → Tree} (hnull : ∀ a, f a ≠ .null)
    (hf : ∀ {a b}, f a = f b → a = b) {first second : Option α}
    (h : ofOption f first = ofOption f second) : first = second := by
  have hid := map_eq_of_ofOption_eq (g := id) hnull hf h
  rwa [Option.map_id] at hid

theorem ofText_injective {first second : Option String} (h : ofText first = ofText second) :
    first = second :=
  ofOption_injective nofun Tree.text.inj h

end Tree

theorem Scalar.toTree_injective {first second : Scalar} (h : first.toTree = second.toTree) :
    first = second := by
  cases first <;> cases second <;> simp_all [Scalar.toTree]

/-! ## Nodes are told by their trees -/

theorem Scalar.toTree_ne_null (s : Scalar) : s.toTree ≠ .null := by
  cases s <;> exact nofun

mutual

theorem Value.canonical_eq_of_toTree_eq {v w : Value} (h : v.toTree = w.toTree) :
    v.canonical = w.canonical := by
  match v with
  | .scalar a =>
      cases w with
      | scalar b =>
          have hscalar : a.toTree = b.toTree := by simpa [Value.toTree] using h
          rw [Scalar.toTree_injective hscalar]
      | tuple | map | assign | list => simp [Value.toTree] at h
  | .tuple a =>
      cases w with
      | tuple b =>
          have hitems : a.map Scalar.toTree = b.map Scalar.toTree := by
            simpa [Value.toTree] using h
          rw [List.map_injective_iff.2 (fun _ _ => Scalar.toTree_injective) hitems]
      | scalar | map | assign | list => simp [Value.toTree] at h
  | .map a =>
      cases w with
      | map b =>
          have hentries : Value.modificationTree a = Value.modificationTree b := by
            simpa [Value.toTree] using h
          rw [Value.canonical, Value.canonical, Modification.canonical_eq_of_toTree_eq hentries]
      | scalar | tuple | assign | list => simp [Value.toTree] at h
  | .assign a =>
      cases w with
      | assign b =>
          have hassign : Value.assignTree a = Value.assignTree b := by
            simpa [Value.toTree] using h
          rw [Value.canonical, Value.canonical, Assign.canonical_eq_of_toTree_eq hassign]
      | scalar | tuple | map | list => simp [Value.toTree] at h
  | .list a =>
      cases w with
      | list b =>
          have hitems : Value.itemTrees a = Value.itemTrees b := by
            simpa [Value.toTree] using h
          rw [Value.canonical, Value.canonical, canonicalItems_eq_of_itemTrees_eq hitems]
      | scalar | tuple | map | assign => simp [Value.toTree] at h

theorem canonicalItems_eq_of_itemTrees_eq {first second : List Value}
    (h : Value.itemTrees first = Value.itemTrees second) :
    canonicalItems first = canonicalItems second := by
  match first with
  | [] =>
      cases second with
      | nil => rfl
      | cons => simp [Value.itemTrees] at h
  | a :: rest =>
      cases second with
      | nil => simp [Value.itemTrees] at h
      | cons b others =>
          rw [Value.itemTrees, Value.itemTrees] at h
          obtain ⟨hhead, htail⟩ := List.cons.inj h
          rw [canonicalItems, canonicalItems, Value.canonical_eq_of_toTree_eq hhead,
            canonicalItems_eq_of_itemTrees_eq htail]

theorem Modification.canonical_eq_of_toTree_eq {m n : Modification}
    (h : Value.modificationTree m = Value.modificationTree n) : m.canonical = n.canonical := by
  match m with
  | ⟨a⟩ =>
      obtain ⟨b⟩ := n
      rw [Value.modificationTree, Value.modificationTree] at h
      rw [Modification.canonical, Modification.canonical,
        canonicalEntries_eq_of_entryTrees_eq (Tree.object.inj h)]

theorem canonicalEntries_eq_of_entryTrees_eq {first second : List (String × Value)}
    (h : Value.entryTrees first = Value.entryTrees second) :
    canonicalEntries first = canonicalEntries second := by
  match first with
  | [] =>
      cases second with
      | nil => rfl
      | cons => simp [Value.entryTrees] at h
  | (name, value) :: rest =>
      cases second with
      | nil => simp [Value.entryTrees] at h
      | cons other others =>
          obtain ⟨name', value'⟩ := other
          rw [Value.entryTrees, Value.entryTrees] at h
          obtain ⟨hhead, htail⟩ := List.cons.inj h
          obtain ⟨rfl, hvalue⟩ := Prod.mk.inj hhead
          rw [canonicalEntries, canonicalEntries, Value.canonical_eq_of_toTree_eq hvalue,
            canonicalEntries_eq_of_entryTrees_eq htail]

theorem Assign.canonical_eq_of_toTree_eq {a b : Assign}
    (h : Value.assignTree a = Value.assignTree b) : a.canonical = b.canonical := by
  match a with
  | ⟨literal, modifications, flags, description, annotations, typeName, precision⟩ =>
      obtain ⟨literal', modifications', flags', description', annotations', typeName',
        precision'⟩ := b
      simp only [Value.assignTree, Tree.object.injEq, List.cons.injEq, Prod.mk.injEq, true_and,
        and_true] at h
      obtain ⟨hliteral, hmodifications, hflags, hdescription, hannotations, htype, hprecision⟩ := h
      have hnumber : ∀ {n m : Nat}, Tree.integer n = Tree.integer m → n = m := fun heq =>
        Int.ofNat.inj (Tree.integer.inj heq)
      rw [Assign.canonical, Assign.canonical,
        Tree.ofOption_injective Scalar.toTree_ne_null Scalar.toTree_injective hliteral,
        Modification.canonical_eq_of_toTree_eq hmodifications,
        FlagSet.canonical_eq_of_toTree_eq hflags, Tree.ofText_injective hdescription,
        Modification.canonical_eq_of_toTree_eq hannotations, Tree.ofText_injective htype,
        Tree.ofOption_injective nofun hnumber hprecision]

end

theorem Equation.canonical_eq_of_toTree_eq {first second : Equation}
    (h : first.toTree = second.toTree) : first.canonical = second.canonical := by
  simp only [Equation.toTree, Tree.object.injEq, List.cons.injEq, Prod.mk.injEq, true_and,
    and_true, Tree.text.injEq] at h
  obtain ⟨hleft, hright, hdescription, hannotations⟩ := h
  rw [Equation.canonical, Equation.canonical, hleft, hright, Tree.ofText_injective hdescription,
    Modification.canonical_eq_of_toTree_eq hannotations]

theorem Connection.canonical_eq_of_toTree_eq {first second : Connection}
    (h : first.toTree = second.toTree) : first.canonical = second.canonical := by
  simp only [Connection.toTree, Tree.object.injEq, List.cons.injEq, Prod.mk.injEq, true_and,
    and_true, Tree.text.injEq] at h
  obtain ⟨ha, hb, hdescription, hannotations⟩ := h
  rw [Connection.canonical, Connection.canonical, ha, hb, Tree.ofText_injective hdescription,
    Modification.canonical_eq_of_toTree_eq hannotations]

theorem Extends.canonical_eq_of_toTree_eq {first second : Extends}
    (h : first.toTree = second.toTree) : first.canonical = second.canonical := by
  simp only [Extends.toTree, Tree.object.injEq, List.cons.injEq, Prod.mk.injEq, true_and,
    and_true, Tree.text.injEq] at h
  rw [Extends.canonical, Extends.canonical, h.1, Modification.canonical_eq_of_toTree_eq h.2]

theorem texts_injective : Function.Injective fun texts : List String => texts.map Tree.text :=
  List.map_injective_iff.2 fun _ _ => Tree.text.inj

theorem Import.toTree_injective {first second : Import} (h : first.toTree = second.toTree) :
    first = second := by
  cases first with
  | qualified path =>
      cases second with
      | qualified path' =>
          have hpath : path = path' := by simpa [Import.toTree] using h
          rw [hpath]
      | multi | named => simp [Import.toTree] at h
  | multi path names =>
      cases second with
      | multi path' names' =>
          simp only [Import.toTree, Tree.object.injEq, List.cons.injEq, Prod.mk.injEq, true_and,
            and_true, Tree.text.injEq, Tree.array.injEq] at h
          rw [h.1, texts_injective h.2]
      | qualified | named => simp [Import.toTree] at h
  | named shortName path =>
      cases second with
      | named shortName' path' =>
          simp only [Import.toTree, Tree.object.injEq, List.cons.injEq, Prod.mk.injEq, true_and,
            and_true, Tree.text.injEq] at h
          rw [h.1, h.2]
      | qualified | multi => simp [Import.toTree] at h

theorem RawText.toTree_injective {first second : RawText} (h : first.toTree = second.toTree) :
    first = second := by
  obtain ⟨lines, indented⟩ := first
  obtain ⟨lines', indented'⟩ := second
  simp only [RawText.toTree, Tree.object.injEq, List.cons.injEq, Prod.mk.injEq, true_and,
    and_true, Tree.array.injEq, Tree.bool.injEq] at h
  rw [texts_injective h.1, h.2]

theorem Value.toTree_ne_null (v : Value) : v.toTree ≠ .null := by
  cases v <;> simp [Value.toTree]

/-- Names that are told apart as text are told apart in an optional field. -/
theorem Tree.ofOption_text_injective {f : α → String} (hf : ∀ {a b}, f a = f b → a = b)
    {first second : Option α}
    (h : Tree.ofOption (fun a => .text (f a)) first = Tree.ofOption (fun a => .text (f a)) second) :
    first = second :=
  Tree.ofOption_injective nofun (fun heq => hf (Tree.text.inj heq)) h

theorem Variability.keyword_injective {v w : Variability} (h : v.keyword = w.keyword) : v = w := by
  revert h
  cases v <;> cases w <;> decide

theorem Causality.keyword_injective {c d : Causality} (h : c.keyword = d.keyword) : c = d := by
  revert h
  cases c <;> cases d <;> decide

theorem FlowKind.keyword_injective {k l : FlowKind} (h : k.keyword = l.keyword) : k = l := by
  revert h
  cases k <;> cases l <;> decide

theorem Declaration.canonical_eq_of_toTree_eq {first second : Declaration}
    (h : first.toTree = second.toTree) : first.canonical = second.canonical := by
  simp only [Declaration.toTree, Tree.object.injEq, List.cons.injEq, Prod.mk.injEq, true_and,
    and_true, Tree.text.injEq, Tree.array.injEq] at h
  obtain ⟨htype, hident, hvalue, hmodifications, hvariability, hcausality, hflow, hflags,
    hsubscripts, hcondition, hdescription, hannotations⟩ := h
  rw [Declaration.canonical, Declaration.canonical, htype, hident,
    Tree.map_eq_of_ofOption_eq Value.toTree_ne_null Value.canonical_eq_of_toTree_eq hvalue,
    Modification.canonical_eq_of_toTree_eq hmodifications,
    Tree.ofOption_text_injective Variability.keyword_injective hvariability,
    Tree.ofOption_text_injective Causality.keyword_injective hcausality,
    Tree.ofOption_text_injective FlowKind.keyword_injective hflow,
    FlagSet.canonical_eq_of_toTree_eq hflags, texts_injective hsubscripts,
    Tree.ofText_injective hcondition, Tree.ofText_injective hdescription,
    Modification.canonical_eq_of_toTree_eq hannotations]

theorem ConstructKind.keyword_injective {k l : ConstructKind} (h : k.keyword = l.keyword) :
    k = l := by
  revert h
  cases k <;> cases l <;> decide

theorem BodyKind.name_injective {k l : BodyKind} (h : k.name = l.name) : k = l := by
  revert h
  cases k <;> cases l <;> decide

theorem indices_injective {first second : List ForIndex}
    (h : first.map (fun i => Tree.object [("ident", .text i.ident), ("range", .text i.range)]) =
      second.map fun i => Tree.object [("ident", .text i.ident), ("range", .text i.range)]) :
    first = second := by
  refine List.map_injective_iff.2 (fun i j hij => ?_) h
  obtain ⟨ident, range⟩ := i
  obtain ⟨ident', range'⟩ := j
  simpa using hij

/-- The clauses of an else, if there is one. -/
def Construct.elseTree (orelse : Option (List Clause)) : Tree :=
  .ofOption (fun clauses => .array (clauseTrees clauses)) orelse

theorem Construct.toTree_eq (kind : ConstructKind) (bodyKind : BodyKind)
    (test : Option Expression) (indices : List ForIndex) (body : List Clause)
    (branches : List Branch) (orelse : Option (List Clause)) :
    Construct.toTree ⟨kind, bodyKind, test, indices, body, branches, orelse⟩ =
      .object
        [("kind", .text kind.keyword), ("body_kind", .text bodyKind.name), ("test", .ofText test),
         ("indices", .array (indices.map fun i =>
            .object [("ident", .text i.ident), ("range", .text i.range)])),
         ("body", .array (clauseTrees body)), ("branches", .array (branchTrees branches)),
         ("orelse", elseTree orelse)] := by
  cases orelse <;> rfl

mutual

theorem Construct.canonical_eq_of_toTree_eq {first second : Construct}
    (h : first.toTree = second.toTree) : first.canonical = second.canonical := by
  match first with
  | ⟨kind, bodyKind, test, indices, body, branches, orelse⟩ =>
      obtain ⟨kind', bodyKind', test', indices', body', branches', orelse'⟩ := second
      simp only [Construct.toTree_eq, Tree.object.injEq, List.cons.injEq, Prod.mk.injEq, true_and,
        and_true, Tree.text.injEq, Tree.array.injEq] at h
      obtain ⟨hkind, hbodyKind, htest, hindices, hbody, hbranches, horelse⟩ := h
      rw [Construct.canonical, Construct.canonical, ConstructKind.keyword_injective hkind,
        BodyKind.name_injective hbodyKind, Tree.ofText_injective htest,
        indices_injective hindices, canonicalClauses_eq_of_clauseTrees_eq hbody,
        canonicalBranches_eq_of_branchTrees_eq hbranches, canonicalElse_eq_of_elseTree_eq horelse]

theorem canonicalElse_eq_of_elseTree_eq {first second : Option (List Clause)}
    (h : Construct.elseTree first = Construct.elseTree second) :
    canonicalElse first = canonicalElse second := by
  match first with
  | none =>
      cases second with
      | none => rfl
      | some => cases h
  | some clauses =>
      cases second with
      | none => cases h
      | some clauses' =>
          rw [canonicalElse, canonicalElse,
            canonicalClauses_eq_of_clauseTrees_eq (Tree.array.inj h)]

theorem canonicalClauses_eq_of_clauseTrees_eq {first second : List Clause}
    (h : Construct.clauseTrees first = Construct.clauseTrees second) :
    canonicalClauses first = canonicalClauses second := by
  match first with
  | [] =>
      cases second with
      | nil => rfl
      | cons => simp [Construct.clauseTrees] at h
  | a :: rest =>
      cases second with
      | nil => simp [Construct.clauseTrees] at h
      | cons b others =>
          rw [Construct.clauseTrees, Construct.clauseTrees] at h
          obtain ⟨hhead, htail⟩ := List.cons.inj h
          rw [canonicalClauses, canonicalClauses, Clause.canonical_eq_of_toTree_eq hhead,
            canonicalClauses_eq_of_clauseTrees_eq htail]

theorem canonicalBranches_eq_of_branchTrees_eq {first second : List Branch}
    (h : Construct.branchTrees first = Construct.branchTrees second) :
    canonicalBranches first = canonicalBranches second := by
  match first with
  | [] =>
      cases second with
      | nil => rfl
      | cons other others =>
          obtain ⟨test, body⟩ := other
          simp [Construct.branchTrees] at h
  | ⟨test, body⟩ :: rest =>
      cases second with
      | nil => simp [Construct.branchTrees] at h
      | cons other others =>
          obtain ⟨test', body'⟩ := other
          simp only [Construct.branchTrees, Tree.object.injEq, List.cons.injEq, Prod.mk.injEq,
            true_and, and_true, Tree.text.injEq, Tree.array.injEq] at h
          obtain ⟨⟨htest, hbody⟩, hrest⟩ := h
          rw [canonicalBranches, canonicalBranches, htest,
            canonicalClauses_eq_of_clauseTrees_eq hbody,
            canonicalBranches_eq_of_branchTrees_eq hrest]

theorem Clause.canonical_eq_of_toTree_eq {first second : Clause}
    (h : Construct.clauseTree first = Construct.clauseTree second) :
    first.canonical = second.canonical := by
  match first with
  | .equation e =>
      cases second with
      | equation e' =>
          have htree : e.toTree = e'.toTree := by simpa [Construct.clauseTree] using h
          rw [Clause.canonical, Clause.canonical, Equation.canonical_eq_of_toTree_eq htree]
      | connection | statement | algorithm | expression | construct =>
          simp [Construct.clauseTree] at h
  | .connection c =>
      cases second with
      | connection c' =>
          have htree : c.toTree = c'.toTree := by simpa [Construct.clauseTree] using h
          rw [Clause.canonical, Clause.canonical, Connection.canonical_eq_of_toTree_eq htree]
      | equation | statement | algorithm | expression | construct =>
          simp [Construct.clauseTree] at h
  | .statement text =>
      cases second with
      | statement text' =>
          have htext : text = text' := by simpa [Construct.clauseTree] using h
          rw [htext]
      | equation | connection | algorithm | expression | construct =>
          simp [Construct.clauseTree] at h
  | .algorithm step =>
      cases second with
      | algorithm step' =>
          have htree : step.toTree = step'.toTree := by simpa [Construct.clauseTree] using h
          rw [Clause.canonical, Clause.canonical, Equation.canonical_eq_of_toTree_eq htree]
      | equation | connection | statement | expression | construct =>
          simp [Construct.clauseTree] at h
  | .expression text =>
      cases second with
      | expression text' =>
          have htext : text = text' := by simpa [Construct.clauseTree] using h
          rw [htext]
      | equation | connection | statement | algorithm | construct =>
          simp [Construct.clauseTree] at h
  | .construct c =>
      cases second with
      | construct c' =>
          have htree : c.toTree = c'.toTree := by simpa [Construct.clauseTree] using h
          rw [Clause.canonical, Clause.canonical, Construct.canonical_eq_of_toTree_eq htree]
      | equation | connection | statement | algorithm | expression =>
          simp [Construct.clauseTree] at h

end

theorem Element.canonical_eq_of_toTree_eq {first second : Element}
    (h : first.toTree = second.toTree) : first.canonical = second.canonical := by
  cases first with
  | declaration d =>
      cases second with
      | declaration d' =>
          have htree : d.toTree = d'.toTree := by simpa [Element.toTree] using h
          rw [Element.canonical, Element.canonical, Declaration.canonical_eq_of_toTree_eq htree]
      | equation | connection | algorithm | importClause | extendsClause | text | construct =>
          simp [Element.toTree] at h
  | equation e =>
      cases second with
      | equation e' =>
          have htree : e.toTree = e'.toTree := by simpa [Element.toTree] using h
          rw [Element.canonical, Element.canonical, Equation.canonical_eq_of_toTree_eq htree]
      | declaration | connection | algorithm | importClause | extendsClause | text | construct =>
          simp [Element.toTree] at h
  | connection c =>
      cases second with
      | connection c' =>
          have htree : c.toTree = c'.toTree := by simpa [Element.toTree] using h
          rw [Element.canonical, Element.canonical, Connection.canonical_eq_of_toTree_eq htree]
      | declaration | equation | algorithm | importClause | extendsClause | text | construct =>
          simp [Element.toTree] at h
  | algorithm step =>
      cases second with
      | algorithm step' =>
          have htree : step.toTree = step'.toTree := by simpa [Element.toTree] using h
          rw [Element.canonical, Element.canonical, Equation.canonical_eq_of_toTree_eq htree]
      | declaration | equation | connection | importClause | extendsClause | text | construct =>
          simp [Element.toTree] at h
  | importClause i =>
      cases second with
      | importClause i' =>
          have htree : i.toTree = i'.toTree := by simpa [Element.toTree] using h
          rw [Import.toTree_injective htree]
      | declaration | equation | connection | algorithm | extendsClause | text | construct =>
          simp [Element.toTree] at h
  | extendsClause e =>
      cases second with
      | extendsClause e' =>
          have htree : e.toTree = e'.toTree := by simpa [Element.toTree] using h
          rw [Element.canonical, Element.canonical, Extends.canonical_eq_of_toTree_eq htree]
      | declaration | equation | connection | algorithm | importClause | text | construct =>
          simp [Element.toTree] at h
  | text t =>
      cases second with
      | text t' =>
          have htree : t.toTree = t'.toTree := by simpa [Element.toTree] using h
          rw [RawText.toTree_injective htree]
      | declaration | equation | connection | algorithm | importClause | extendsClause
        | construct =>
          simp [Element.toTree] at h
  | construct c =>
      cases second with
      | construct c' =>
          have htree : c.toTree = c'.toTree := by simpa [Element.toTree] using h
          rw [Element.canonical, Element.canonical, Construct.canonical_eq_of_toTree_eq htree]
      | declaration | equation | connection | algorithm | importClause | extendsClause | text =>
          simp [Element.toTree] at h

end ModelSource

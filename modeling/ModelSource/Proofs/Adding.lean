import ModelSource.Proofs.Reachable

/-!
# Every way to add is the checked one

A document has one operation that checks what it is given, `add`, and nine that
make an element and push it. None of the nine asks what `add` asks in the order in
which `add` asks it: `addDeclaration` and `addParameter` ask for the section and the
name before there is a declaration at all, and the others ask for neither. This file
shows that it makes no difference. Whatever one of them does, making the element
first and handing it to `add` does too, down to the registry.

There are two reasons. A declaration has the name that it was asked for, so it does
not matter whether the name is looked up before or after it is made
(`prepare_eq_ok_iff`, in `Reachable.lean`). And an element that declares nothing is
admitted wherever its kind may stand (`add_of_undeclaring`), so what is left to see
is that the section is one of those.
-/

namespace ModelSource

namespace Document

/-- The connection that a list of references stands for. -/
inductive Connects : List String → Connection → Prop
  | references (a b : String) : Connects [a, b] { a, b }
  | connectors (owner connector otherOwner otherConnector : String) :
      Connects [owner, connector, otherOwner, otherConnector]
        { a := owner ++ "." ++ connector, b := otherOwner ++ "." ++ otherConnector }

/-- The clause that a path and names stand for. A list names something. -/
inductive Imports (path : String) : ImportNames → Import → Prop
  | alone : Imports path .none (.qualified path)
  | several {names : List String} (h : names ≠ []) : Imports path (.list names) (.multi path names)
  | renamed (name : String) : Imports path (.shortName name) (.named name path)

theorem connectionOf_eq_ok {refs : List String} {connection : Connection} :
    connectionOf refs = .ok connection ↔ Connects refs connection := by
  constructor
  · intro h
    unfold connectionOf at h
    split at h
    · cases h; exact .references _ _
    · cases h; exact .connectors _ _ _ _
    · cases h
  · rintro (_ | _) <;> rfl

theorem importOf_eq_ok {path : String} {names : ImportNames} {clause : Import} :
    importOf path names = .ok clause ↔ Imports path names clause := by
  constructor
  · intro h
    unfold importOf at h
    split at h
    · cases h; exact .alone
    · cases h
    · next hsome => cases h; exact .several fun hnone => hsome (by rw [hnone])
    · cases h; exact .renamed _
  · intro h
    cases h with
    | alone => rfl
    | renamed name => rfl
    | @several names hne =>
        obtain ⟨first, more, rfl⟩ := List.exists_cons_of_ne_nil hne
        rfl

/-! ## What is asked before a push -/

theorem add_eq_ok_iff {element : Element} {target : Section} {d after : Document} :
    add element target d = (.ok (), after) ↔
      d.admits element target = .ok () ∧ d.push target element = after := by
  unfold add
  split
  · next hadmits => rw [Prod.mk.injEq, hadmits]
  · next e hrefused =>
      rw [Prod.mk.injEq, hrefused]
      simp

/-- An element without a name is admitted wherever it may stand. -/
theorem add_of_undeclaring {element : Element} {target : Section}
    (hname : element.declares? = none) (hallowed : element.allowedIn target = true)
    (d : Document) : add element target d = (.ok (), d.push target element) := by
  refine add_eq_ok_iff.2 ⟨?_, rfl⟩
  unfold admits
  rw [if_pos hallowed]
  cases element with
  | declaration => cases hname
  | equation | connection | algorithm | importClause | extendsClause | text | construct => rfl

theorem add_connection (connection : Connection) (d : Document) :
    add (.connection connection) .equation d =
      (.ok (), d.push .equation (.connection connection)) :=
  add_of_undeclaring rfl rfl d

theorem add_importClause (clause : Import) (d : Document) :
    add (.importClause clause) .publicPart d =
      (.ok (), d.push .publicPart (.importClause clause)) :=
  add_of_undeclaring rfl rfl d

theorem addDeclaration_eq_ok_iff {typeName ident : String} {options : DeclarationOptions}
    {declaration : Declaration} {d after : Document} :
    addDeclaration typeName ident options d = (.ok declaration, after) ↔
      Declaration.ofOptions typeName ident options = .ok declaration ∧
        add (.declaration declaration) options.targetSection d = (.ok (), after) := by
  -- Both orders of the checks come down to the same conjunction.
  rw [add_eq_ok_iff, ← and_assoc, ← prepare_eq_ok_iff, addDeclaration_eq]
  split
  · next made hmade =>
      rw [hmade, Prod.mk.injEq, Except.ok.injEq]
      refine and_congr_right fun hsame => ?_
      rw [hsame]
  · next e hrefused =>
      rw [Prod.mk.injEq, hrefused]
      simp

theorem addConnection_eq_ok_iff {refs : List String} {position : Nat} {d after : Document} :
    addConnection refs d = (.ok position, after) ↔
      position = (d.elements .equation).length ∧ ∃ connection, Connects refs connection ∧
        add (.connection connection) .equation d = (.ok (), after) := by
  rw [addConnection_eq]
  constructor
  · intro h
    split at h
    · next connection hmade =>
        cases h
        exact ⟨rfl, connection, connectionOf_eq_ok.1 hmade, add_connection connection d⟩
    · cases h
  · rintro ⟨rfl, connection, hconnects, hadd⟩
    rw [add_connection] at hadd
    cases hadd
    rw [connectionOf_eq_ok.2 hconnects]

theorem addImport_eq_ok_iff {path : String} {names : ImportNames} {clause : Import}
    {d after : Document} :
    addImport path names d = (.ok clause, after) ↔
      Imports path names clause ∧ add (.importClause clause) .publicPart d = (.ok (), after) := by
  rw [addImport_eq]
  constructor
  · intro h
    split at h
    · next made hmade =>
        cases h
        exact ⟨importOf_eq_ok.1 hmade, add_importClause clause d⟩
    · cases h
  · rintro ⟨himports, hadd⟩
    rw [add_importClause] at hadd
    cases hadd
    rw [importOf_eq_ok.2 himports]

/-- Every way to add gives the document that `add` gives for the element it makes, in the
section where it puts it. A declaration is added if and only if its options make one and
`add` takes it; a parameter is a declaration whose variability is overwritten; a connection
or an import is added if and only if what it was given stands for one. An element that is
not a declaration is never refused where these operations put it. -/
theorem adders_agree_with_add (d : Document) :
    (∀ typeName ident options declaration after,
      addDeclaration typeName ident options d = (.ok declaration, after) ↔
        Declaration.ofOptions typeName ident options = .ok declaration ∧
          add (.declaration declaration) (options.target.getD .publicPart) d = (.ok (), after)) ∧
    (∀ typeName ident options,
      addParameter typeName ident options d =
        addDeclaration typeName ident { options with variability := some .parameter } d) ∧
    (∀ left right options,
      add (.equation { left, right, description := options.description,
                       annotations := options.annotations })
          (if options.initial then .initialEquation else .equation) d =
        (.ok (), addEquation left right options d)) ∧
    (∀ left right options,
      add (.algorithm { left, right, description := options.description,
                        annotations := options.annotations })
          (if options.initial then .initialAlgorithm else .algorithm) d =
        (.ok (), addAlgorithm left right options d)) ∧
    (∀ name modifications,
      add (.extendsClause { name, modifications }) .publicPart d =
        (.ok (), addExtends name modifications d)) ∧
    (∀ lines indented target,
      add (.text { lines, indented }) target d = (.ok (), addText lines indented target d)) ∧
    (∀ lines style indented target,
      add (.text (.comment lines style indented)) target d =
        (.ok (), addComment lines style indented target d)) ∧
    (∀ refs after,
      (∃ position, addConnection refs d = (.ok position, after)) ↔
        ∃ connection, Connects refs connection ∧
          add (.connection connection) .equation d = (.ok (), after)) ∧
    (∀ connection, (add (.connection connection) .equation d).1 = .ok ()) ∧
    (∀ path names clause after,
      addImport path names d = (.ok clause, after) ↔
        Imports path names clause ∧
          add (.importClause clause) .publicPart d = (.ok (), after)) ∧
    ∀ clause, (add (.importClause clause) .publicPart d).1 = .ok () := by
  refine ⟨?_, ?_, ?_, ?_, ?_, ?_, ?_, ?_, ?_, ?_, ?_⟩
  · intro typeName ident options declaration after
    exact addDeclaration_eq_ok_iff
  · intro typeName ident options
    rfl
  · intro left right options
    refine add_of_undeclaring rfl ?_ d
    cases options.initial <;> rfl
  · intro left right options
    refine add_of_undeclaring rfl ?_ d
    cases options.initial <;> rfl
  · intro name modifications
    exact add_of_undeclaring rfl rfl d
  · intro lines indented target
    exact add_of_undeclaring rfl rfl d
  · intro lines style indented target
    exact add_of_undeclaring rfl rfl d
  · intro refs after
    simp only [addConnection_eq_ok_iff, exists_eq_left]
  · intro connection
    rw [add_connection]
  · intro path names clause after
    exact addImport_eq_ok_iff
  · intro clause
    rw [add_importClause]

/-- Which of several faults is reported does depend on the way. Here the name is taken, and
the options say twice what the modifications are. -/
example :
    let d := run { ident := "M" } [.addDeclaration "Real" "x" {}]
    let options : DeclarationOptions :=
      { value := some (.map ∅), modifications := ⟨[("min", .integer 0)]⟩ }
    (addDeclaration "Real" "x" options d).1 = .error (.duplicateIdentifier "x" "M") ∧
      Declaration.ofOptions "Real" "x" options =
        .error (.violation (.mapValueWithModifications "x" 0)) :=
  ⟨rfl, rfl⟩

end Document

end ModelSource

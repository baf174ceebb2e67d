import Mathlib.Data.List.Forall2
import ModelSource.Construct.Builder
import ModelSource.Document.Annotations
import ModelSource.Document.Build
import ModelSource.Document.Drawing

/-!
# What a run of operations can make of a document

Every law about documents is a law about runs: a document starts with a name
and nothing else, and from there on the public operations are all that happens
to it. This file says what an operation is, with everything a caller can pass
it, and then says once what any of them can do.

Two things a caller cannot make up. A construct comes out of a builder, and so
does every construct that was handed to that builder; a declaration comes out
of options, and what can be edited on it afterwards are its attributes. An
operation that takes an element therefore takes it with the proof that it was
made, and a list of operations is a run that could really happen. Handles that
an operation hands out are covered by operations of their own, which run any
edit at all on what the handle shows.

The load-bearing statement is `Operation.step`. An operation, failed or not,
either adds one element at the end of one section, and then that element was
admitted there, or it leaves the registry alone and revises elements where they
stand. Every invariant below is an induction over a run with these two cases.
-/

namespace ModelSource

/-- The four ways to open a construct. -/
inductive ConstructBuilder.Fresh : ConstructBuilder → Prop
  | openIf (test : Expression) : Fresh (openIf test)
  | openWhen (test : Expression) : Fresh (openWhen test)
  | openFor (indices : List ForIndex) : Fresh (openFor indices)
  | openWhile (test : Expression) : Fresh (openWhile test)

/-- The clauses that a call hands over. -/
def BuilderCall.clauses : BuilderCall → List Clause
  | .thenDo clauses | .repeatDo clauses | .orelse clauses => clauses
  | .elseif _ | .elsewhen _ => []

/-- A construct that came out of a builder, as did every construct that went
into it. -/
inductive Construct.Built : Construct → Prop
  | close {start last : ConstructBuilder} {calls : List BuilderCall} {c : Construct}
      (fresh : start.Fresh)
      (nested : ∀ call ∈ calls, ∀ inner, .construct inner ∈ call.clauses → Built inner)
      (filled : start.applyAll calls = .ok last) (closed : last.close = .ok c) : Built c

/-- A declaration that options describe, but for its attributes. -/
def Declaration.Made (d : Declaration) : Prop :=
  ∃ typeName ident options made, Declaration.ofOptions typeName ident options = .ok made ∧
    d = { made with toAttributes := d.toAttributes }

namespace Element

/-- An element that a caller can have. -/
def Made : Element → Prop
  | .declaration d => d.Made
  | .construct c => c.Built
  | _ => True

/-- The name that the element declares. -/
def declares? : Element → Option String
  | .declaration d => some d.ident
  | _ => none

/-- The same element after edits: a declaration keeps all but its attributes, a
connection stays a connection, and nothing else can be edited. -/
inductive Revised : Element → Element → Prop
  | same (e : Element) : Revised e e
  | attributes (d : Declaration) (a : Attributes) :
      Revised (.declaration d) (.declaration { d with toAttributes := a })
  | connection (before after : Connection) : Revised (.connection before) (.connection after)

theorem Revised.declares?_eq {e e' : Element} (h : Revised e e') :
    e'.declares? = e.declares? := by
  cases h <;> rfl

theorem Revised.made {e e' : Element} (h : Revised e e') (he : e.Made) : e'.Made := by
  cases h with
  | same => exact he
  | connection => trivial
  | attributes d a =>
      obtain ⟨typeName, ident, options, made, hmade, hd⟩ := he
      refine ⟨typeName, ident, options, made, hmade, ?_⟩
      rw [hd]

end Element

/-- Anything a caller can do to a document. Edits through a handle are any edits
of what the handle shows. -/
inductive Operation where
  | describe (text : String)
  | putWithin (name : String)
  | addFlag (flag : DocumentFlag)
  | addFlags (words : String)
  | setAnnotations (annotations : Modification)
  | addDeclaration (typeName ident : String) (options : DeclarationOptions)
  | addParameter (typeName ident : String) (options : DeclarationOptions)
  | addEquation (left right : Expression) (options : EquationOptions)
  | addAlgorithm (left right : Expression) (options : EquationOptions)
  | addConnection (refs : List String)
  | editConnection (index : Nat) (edit : Connection → Connection)
  | addImport (path : String) (names : ImportNames)
  | addExtends (name : String) (modifications : Modification)
  | addText (lines : List String) (indented : Bool) (target : Section)
  | addComment (lines : List String) (style : CommentStyle) (indented : Bool) (target : Section)
  | add (element : Element) (made : element.Made) (target : Section)
  | addTo (element : Element) (made : element.Made) (name : String)
  | editDeclaration (ident : String) (edit : Edit Attributes Unit)
  | editAnnotations (edit : Edit Modification Unit)
  | setExperiment (experiment : Experiment)
  | setExtent (lower upper : Point) (layer : Layer)
  | addAnnotations (path : List String) (replacing : Bool) (edit : Edit Modification Unit)
  | drawConnections

/-- An operation that cannot fail. -/
def Edit.always (f : σ → σ) : Edit σ Unit :=
  fun state => (.ok (), f state)

/-- The operation without what it answers. -/
def Edit.silent (edit : Edit σ α) : Edit σ Unit :=
  fun state =>
    let (result, state) := edit state
    (result.map fun _ => (), state)

theorem map_eq_ok {f : α → β} {result : Except ε α} {b : β} :
    result.map f = .ok b ↔ ∃ a, result = .ok a ∧ f a = b := by
  cases result <;> simp [Except.map]

/-- Options never change the name. -/
theorem Declaration.ident_of_ofOptions {typeName ident : String} {options : DeclarationOptions}
    {declaration : Declaration} (h : ofOptions typeName ident options = .ok declaration) :
    declaration.ident = ident := by
  rw [ofOptions] at h
  split at h
  · cases h
  · obtain ⟨annotations, -, rfl⟩ := map_eq_ok.1 h
    rfl

namespace Operation

/-- Carries the operation out. -/
def apply : Operation → Edit Document Unit
  | .describe text => Edit.always (Document.describe text)
  | .putWithin name => Edit.always (Document.putWithin name)
  | .addFlag flag => Edit.always (Document.addFlag flag)
  | .addFlags words => Document.addFlags words
  | .setAnnotations annotations => Edit.always (Document.setAnnotations annotations)
  | .addDeclaration typeName ident options =>
    Edit.silent (Document.addDeclaration typeName ident options)
  | .addParameter typeName ident options =>
    Edit.silent (Document.addParameter typeName ident options)
  | .addEquation left right options => Edit.always (Document.addEquation left right options)
  | .addAlgorithm left right options => Edit.always (Document.addAlgorithm left right options)
  | .addConnection refs => Edit.silent (Document.addConnection refs)
  | .editConnection index edit => Edit.always (Document.editConnection index edit)
  | .addImport path names => Edit.silent (Document.addImport path names)
  | .addExtends name modifications => Edit.always (Document.addExtends name modifications)
  | .addText lines indented target => Edit.always (Document.addText lines indented target)
  | .addComment lines style indented target =>
    Edit.always (Document.addComment lines style indented target)
  | .add element _ target => Document.add element target
  | .addTo element _ name => Document.addTo element name
  | .editDeclaration ident edit => Edit.silent (Document.editDeclaration ident edit)
  | .editAnnotations edit => Document.editAnnotations edit
  | .setExperiment experiment => Document.setExperiment experiment
  | .setExtent lower upper layer => Document.setExtent lower upper layer
  | .addAnnotations path replacing edit => Document.addAnnotations path replacing edit
  | .drawConnections => Edit.silent Document.drawConnections

/-- The document afterwards, whether or not the operation failed. -/
def run (op : Operation) (d : Document) : Document :=
  (op.apply d).2

/-- The name of the declaration that the operation is to add, if it is to add one. -/
def declares? : Operation → Option String
  | .addDeclaration _ ident _ | .addParameter _ ident _ => some ident
  | .add element _ _ | .addTo element _ _ => element.declares?
  | _ => none

/-- The name of the declaration that the operation did add. -/
def added? (op : Operation) (d : Document) : Option String :=
  match (op.apply d).1 with
  | .ok () => op.declares?
  | .error _ => none

end Operation

namespace Document

/-- Operations one after the other, whatever each of them answers. -/
def run : Document → List Operation → Document
  | d, [] => d
  | d, op :: rest => (op.run d).run rest

/-- The names of the declarations that a run adds, in the order in which it adds
them. -/
def additions : Document → List Operation → List String
  | _, [] => []
  | d, op :: rest => (op.added? d).toList ++ (op.run d).additions rest

/-- What an operation can make of a document, and the name it adds on the way. -/
inductive Step (d : Document) : Option String → Document → Prop
  | revised {after : Document} (registry : after.registry = d.registry)
      (elements : ∀ target,
        List.Forall₂ Element.Revised (d.elements target) (after.elements target)) :
      Step d none after
  | pushed (target : Section) (element : Element) (made : element.Made)
      (admitted : d.admits element target = .ok ()) :
      Step d element.declares? (d.push target element)

theorem forall₂_revised_refl (elements : List Element) :
    List.Forall₂ Element.Revised elements elements :=
  List.forall₂_same.2 fun e _ => .same e

theorem forall₂_revised_set {elements : List Element} {index : Nat} {e e' : Element}
    (h : elements[index]? = some e) (hrev : Element.Revised e e') :
    List.Forall₂ Element.Revised elements (elements.set index e') := by
  induction elements generalizing index with
  | nil => simp at h
  | cons first rest ih =>
      cases index with
      | zero =>
          have hfirst : first = e := by simpa using h
          subst hfirst
          exact .cons hrev (forall₂_revised_refl rest)
      | succ i =>
          have hrest : rest[i]? = some e := by simpa using h
          exact .cons (.same first) (ih hrest)

theorem Step.kept {d after : Document} (hr : after.registry = d.registry)
    (hs : after.sections = d.sections) : Step d none after := by
  refine .revised hr fun target => ?_
  rw [Document.elements, Document.elements, hs]
  exact forall₂_revised_refl _

theorem replaceAt_step {d : Document} {place : Location} {e e' : Element}
    (h : (d.elements place.target)[place.index]? = some e) (hrev : Element.Revised e e') :
    Step d none (d.replaceAt place e') := by
  refine .revised rfl fun target => ?_
  simp only [Document.elements, Document.replaceAt, Sections.get_modify]
  split
  · next ht =>
      subst ht
      exact forall₂_revised_set h hrev
  · exact forall₂_revised_refl _

theorem declarationAt?_eq_some {d : Document} {place : Location} {declaration : Declaration} :
    d.declarationAt? place = some declaration ↔
      (d.elements place.target)[place.index]? = some (.declaration declaration) := by
  rw [Document.declarationAt?]
  split
  · next found hfound => simp [hfound]
  · next hnone =>
      constructor
      · intro h; cases h
      · intro h; exact absurd h (hnone declaration)

theorem locate?_eq_some {d : Document} {ident : String} {place : Location}
    {declaration : Declaration} :
    d.locate? ident = some (place, declaration) ↔
      d.registry.lookup ident = some place ∧ d.declarationAt? place = some declaration := by
  rw [Document.locate?]
  split
  · next found hfound =>
      simp only [Option.map_eq_some_iff, Prod.mk.injEq, hfound, Option.some.injEq]
      constructor
      · rintro ⟨_, hat, rfl, rfl⟩; exact ⟨rfl, hat⟩
      · rintro ⟨rfl, hat⟩; exact ⟨declaration, hat, rfl, rfl⟩
  · next hnone => simp [hnone]

/-! ## The operations that revise -/

theorem editDeclaration_step (ident : String) (edit : Edit Attributes α) (d : Document) :
    Step d none (Document.editDeclaration ident edit d).2 := by
  rw [Document.editDeclaration]
  split
  · exact .kept rfl rfl
  · next place declaration hloc =>
      have hat := declarationAt?_eq_some.1 (locate?_eq_some.1 hloc).2
      exact replaceAt_step hat (.attributes declaration _)

theorem editConnection_step (index : Nat) (edit : Connection → Connection) (d : Document) :
    Step d none (d.editConnection index edit) := by
  rw [Document.editConnection]
  split
  · next connection hat => exact replaceAt_step hat (.connection connection _)
  · exact .kept rfl rfl

theorem setExtents_keeps (value : Value) (layers : List String) :
    ∀ d : Document, (Document.setExtents value layers d).2.registry = d.registry ∧
      (Document.setExtents value layers d).2.sections = d.sections := by
  induction layers with
  | nil => intro d; exact ⟨rfl, rfl⟩
  | cons layer rest ih =>
      intro d
      have hlayer : (Document.setLayerExtent value layer d).2.registry = d.registry ∧
          (Document.setLayerExtent value layer d).2.sections = d.sections := ⟨rfl, rfl⟩
      rw [Document.setExtents, Edit.bind_apply]
      split
      · next after heq =>
          rw [heq] at hlayer
          rw [(ih after).1, (ih after).2]
          exact hlayer
      · next e after heq =>
          rw [heq] at hlayer
          exact hlayer

theorem drawElements_revised (origin : String → Option (Scalar × Scalar))
    (elements : List Element) :
    List.Forall₂ Element.Revised elements (Document.drawElements origin elements).2 := by
  induction elements with
  | nil => exact .nil
  | cons element rest ih =>
      cases element with
      | connection c =>
          rw [Document.drawElements]
          split
          · split
            · exact .cons (.connection _ _) (forall₂_revised_refl rest)
            · exact .cons (.connection _ _) ih
          · exact .cons (.same _) ih
      | declaration | equation | algorithm | importClause | extendsClause | text | construct =>
          exact .cons (.same _) ih

theorem drawConnections_step (d : Document) : Step d none (Document.drawConnections d).2 := by
  refine .revised rfl fun target => ?_
  simp only [Document.elements, Document.drawConnections, Sections.get_modify]
  split
  · next ht =>
      subst ht
      exact drawElements_revised _ _
  · exact forall₂_revised_refl _

/-! ## The operations that add -/

theorem elements_push (d : Document) (target other : Section) (element : Element) :
    (d.push target element).elements other =
      if other = target then d.elements other ++ [element] else d.elements other :=
  Sections.get_modify d.sections target other (· ++ [element])

theorem allowedIn_of_admits {d : Document} {element : Element} {target : Section}
    (h : d.admits element target = .ok ()) : element.allowedIn target = true := by
  unfold Document.admits at h
  split at h
  · next hallowed => exact hallowed
  · cases h

theorem admits_declaration_iff {d : Document} {declaration : Declaration} {target : Section} :
    d.admits (.declaration declaration) target = .ok () ↔
      target.isDeclarative = true ∧ d.checkUnique declaration.ident = .ok () := by
  unfold admits
  rw [Element.allowedIn]
  split
  · next htarget => simp [htarget]
  · next htarget => simp [htarget]

/-- The checks come before the declaration is made, but they are those of `add`. -/
theorem prepare_eq_ok_iff {d : Document} {typeName ident : String} {options : DeclarationOptions}
    {declaration : Declaration} :
    d.prepare typeName ident options = .ok declaration ↔
      Declaration.ofOptions typeName ident options = .ok declaration ∧
        d.admits (.declaration declaration) options.targetSection = .ok () := by
  rw [admits_declaration_iff]
  constructor
  · intro h
    unfold prepare at h
    split at h
    · next htarget =>
        split at h
        · next hunique =>
            refine ⟨h, htarget, ?_⟩
            rw [Declaration.ident_of_ofOptions h]
            exact hunique
        · cases h
    · cases h
  · rintro ⟨hmade, htarget, hunique⟩
    rw [Declaration.ident_of_ofOptions hmade] at hunique
    rw [prepare, if_pos htarget, hunique]
    exact hmade

theorem admits_declaration {d : Document} {typeName ident : String}
    {options : DeclarationOptions} {declaration : Declaration}
    (h : d.prepare typeName ident options = .ok declaration) :
    declaration.ident = ident ∧ declaration.Made ∧
      d.admits (.declaration declaration) options.targetSection = .ok () := by
  obtain ⟨hmade, hadmits⟩ := prepare_eq_ok_iff.1 h
  exact ⟨Declaration.ident_of_ofOptions hmade, ⟨typeName, ident, options, declaration, hmade, rfl⟩,
    hadmits⟩

end Document

namespace Operation

open Document

theorem added?_of_declares? {op : Operation} (h : op.declares? = none) (d : Document) :
    op.added? d = none := by
  rw [added?]
  split
  · exact h
  · rfl

theorem add_step (element : Element) (made : element.Made) (target : Section) (d : Document) :
    d.Step ((add element made target).added? d) ((add element made target).run d) := by
  simp only [added?, run, apply, Document.add]
  cases h : d.admits element target with
  | error e => exact .kept rfl rfl
  | ok u => exact .pushed target element made h

theorem addDeclaration_step (typeName ident : String) (options : DeclarationOptions)
    (d : Document) :
    d.Step ((addDeclaration typeName ident options).added? d)
      ((addDeclaration typeName ident options).run d) := by
  simp only [added?, run, apply, Edit.silent, Document.addDeclaration_eq]
  cases h : d.prepare typeName ident options with
  | error e => exact .kept rfl rfl
  | ok declaration =>
      obtain ⟨hident, hmade, hadmits⟩ := admits_declaration h
      subst hident
      exact .pushed _ (.declaration declaration) hmade hadmits

theorem addTo_step (element : Element) (made : element.Made) (name : String) (d : Document) :
    d.Step ((addTo element made name).added? d) ((addTo element made name).run d) := by
  simp only [added?, run, apply, Document.addTo]
  cases Section.parse name with
  | error e => exact .kept rfl rfl
  | ok target => exact add_step element made target d

theorem addConnection_step (refs : List String) (d : Document) :
    d.Step none ((addConnection refs).run d) := by
  simp only [run, apply, Edit.silent, Document.addConnection_eq]
  cases connectionOf refs with
  | error e => exact .kept rfl rfl
  | ok connection => exact .pushed _ (.connection connection) trivial rfl

theorem addImport_step (path : String) (names : ImportNames) (d : Document) :
    d.Step none ((addImport path names).run d) := by
  simp only [run, apply, Edit.silent, Document.addImport_eq]
  cases importOf path names with
  | error e => exact .kept rfl rfl
  | ok clause => exact .pushed _ (.importClause clause) trivial rfl

/-- What an operation can do, failed or not: it revises elements where they
stand, or it adds one that is admitted at the end of its section. -/
theorem step (op : Operation) (d : Document) : d.Step (op.added? d) (op.run d) := by
  cases op with
  | add element made target => exact add_step element made target d
  | addTo element made name => exact addTo_step element made name d
  | addDeclaration typeName ident options => exact addDeclaration_step typeName ident options d
  | addParameter typeName ident options => exact addDeclaration_step typeName ident _ d
  | addEquation left right options =>
      refine .pushed _ (.equation _) trivial ?_
      cases options.initial <;> rfl
  | addAlgorithm left right options =>
      refine .pushed _ (.algorithm _) trivial ?_
      cases options.initial <;> rfl
  | addExtends name modifications =>
      exact .pushed _ (.extendsClause _) trivial rfl
  | addText lines indented target =>
      exact .pushed _ (.text _) trivial rfl
  | addComment lines style indented target =>
      exact .pushed _ (.text _) trivial rfl
  | addConnection refs =>
      rw [added?_of_declares? rfl]
      exact addConnection_step refs d
  | addImport path names =>
      rw [added?_of_declares? rfl]
      exact addImport_step path names d
  | editDeclaration ident edit =>
      rw [added?_of_declares? rfl]
      exact editDeclaration_step ident edit d
  | editConnection index edit => exact editConnection_step index edit d
  | drawConnections =>
      rw [added?_of_declares? rfl]
      exact drawConnections_step d
  | setExtent lower upper layer =>
      rw [added?_of_declares? rfl]
      obtain ⟨hregistry, hsections⟩ :=
        setExtents_keeps (extentValue lower upper) layer.names d
      exact .kept hregistry hsections
  | addFlags words =>
      rw [added?_of_declares? rfl]
      simp only [run, apply, Document.addFlags]
      split <;> exact .kept rfl rfl
  | describe | putWithin | addFlag | setAnnotations => exact .kept rfl rfl
  | editAnnotations | setExperiment | addAnnotations =>
      rw [added?_of_declares? rfl]
      exact .kept rfl rfl

end Operation

/-! ## Runs -/

namespace Document

/-- A law that every step keeps holds at the end of every run that starts with it. -/
theorem run_induction {P : Document → Prop}
    (step : ∀ {d after : Document} {name : Option String}, Step d name after → P d → P after)
    {d : Document} (start : P d) (ops : List Operation) : P (d.run ops) := by
  induction ops generalizing d with
  | nil => exact start
  | cons op rest ih => exact ih (step (op.step d) start)

theorem forall_mem_of_forall₂ {P : Element → Prop} {R : Element → Element → Prop}
    (keep : ∀ {e e' : Element}, R e e' → P e → P e') {before after : List Element}
    (h : List.Forall₂ R before after) (hbefore : ∀ e ∈ before, P e) : ∀ e ∈ after, P e := by
  induction h with
  | nil => exact hbefore
  | cons hrelated _ ih =>
      rw [List.forall_mem_cons] at hbefore ⊢
      exact ⟨keep hrelated hbefore.1, ih hbefore.2⟩

/-- What holds of every element that is admitted somewhere, and of its revisions,
holds of all elements at the end of a run. -/
theorem run_elements {P : Section → Element → Prop}
    (keep : ∀ {target : Section} {e e' : Element}, Element.Revised e e' → P target e → P target e')
    (admitted : ∀ {target : Section} {e : Element}, e.Made → e.allowedIn target = true → P target e)
    (ident : String) (ops : List Operation) :
    ∀ target, ∀ e ∈ (run { ident } ops).elements target, P target e := by
  refine run_induction (P := fun d => ∀ target, ∀ e ∈ d.elements target, P target e) ?_ ?_ ops
  · intro d after name hstep ih target
    cases hstep with
    | revised _ helements =>
        exact forall_mem_of_forall₂ (P := P target) keep (helements target) (ih target)
    | pushed _ _ hmade hadmits =>
        rw [elements_push]
        split
        · next htarget =>
            subst htarget
            rw [List.forall_mem_append, List.forall_mem_singleton]
            exact ⟨ih target, admitted hmade (allowedIn_of_admits hadmits)⟩
        · exact ih target
  · intro target e he
    cases target <;> cases he

end Document

end ModelSource

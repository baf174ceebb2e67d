import ModelSource.Element

/-!
# Documents

A document is one model: a header, six sections and annotations. Declarations
are found by name through a registry, which records for every name the section
and the position of its declaration, in the order in which they were added. All
growth goes through `push`, which keeps the registry in step.
-/

namespace ModelSource

/-- The enclosing package of a document; without a name it is the top level. -/
structure Within where
  name : Option String
deriving DecidableEq

/-- An empty name means the top level. -/
def Within.ofName (name : String) : Within :=
  ⟨if name.isEmpty then none else some name⟩

/-- The elements of the six sections. -/
structure Sections where
  publicPart : List Element := []
  protectedPart : List Element := []
  initialEquation : List Element := []
  initialAlgorithm : List Element := []
  equation : List Element := []
  algorithm : List Element := []

namespace Sections

/-- The elements of one section. -/
def get (s : Sections) : Section → List Element
  | .publicPart => s.publicPart
  | .protectedPart => s.protectedPart
  | .initialEquation => s.initialEquation
  | .initialAlgorithm => s.initialAlgorithm
  | .equation => s.equation
  | .algorithm => s.algorithm

/-- Changes the elements of one section. -/
def modify (s : Sections) (target : Section) (f : List Element → List Element) : Sections :=
  match target with
  | .publicPart => { s with publicPart := f s.publicPart }
  | .protectedPart => { s with protectedPart := f s.protectedPart }
  | .initialEquation => { s with initialEquation := f s.initialEquation }
  | .initialAlgorithm => { s with initialAlgorithm := f s.initialAlgorithm }
  | .equation => { s with equation := f s.equation }
  | .algorithm => { s with algorithm := f s.algorithm }

@[simp] theorem get_modify (s : Sections) (target other : Section)
    (f : List Element → List Element) :
    (s.modify target f).get other = if other = target then f (s.get other) else s.get other := by
  cases target <;> cases other <;> rfl

def toTree (s : Sections) : Tree :=
  .object (Section.all.map fun target =>
    (target.treeName, .array ((s.get target).map Element.toTree)))

end Sections

/-- The place of a declaration. -/
structure Location where
  target : Section
  index : Nat
deriving DecidableEq

/-- One model. -/
structure Document where
  ident : String := "Unnamed"
  description : Option String := none
  within : Option Within := none
  flags : FlagSet DocumentFlag := {}
  annotations : Modification := ∅
  sections : Sections := {}
  registry : List (String × Location) := []

namespace Document

/-- The elements of one section, in the order in which they were added. -/
def elements (d : Document) (target : Section) : List Element :=
  d.sections.get target

/-- Appends an element. A declaration is entered in the registry. -/
def push (d : Document) (target : Section) (element : Element) : Document :=
  { d with
    sections := d.sections.modify target (· ++ [element])
    registry :=
      match element with
      | .declaration declaration =>
        Ordered.put declaration.ident ⟨target, (d.elements target).length⟩ d.registry
      | _ => d.registry }

/-- The declaration at a place, if there is one. -/
def declarationAt? (d : Document) (place : Location) : Option Declaration :=
  match (d.elements place.target)[place.index]? with
  | some (.declaration declaration) => some declaration
  | _ => none

/-- The declaration of a name, and its place. -/
def locate? (d : Document) (ident : String) : Option (Location × Declaration) :=
  match d.registry.lookup ident with
  | some place => (d.declarationAt? place).map fun declaration => (place, declaration)
  | none => none

/-- The declaration of a name. -/
def declaration? (d : Document) (ident : String) : Option Declaration :=
  (d.locate? ident).map Prod.snd

/-- All declarations in the order in which they were added. -/
def declarations (d : Document) : List Declaration :=
  d.registry.filterMap fun (ident, _) => d.declaration? ident

/-- Puts an element in the place of another. -/
def replaceAt (d : Document) (place : Location) (element : Element) : Document :=
  { d with sections := d.sections.modify place.target fun elements => elements.set place.index element }

/-- Edits the attributes of a declaration; there may be none of that name. -/
def editDeclaration (ident : String) (edit : Edit Attributes α) : Edit Document (Option α) :=
  fun d =>
    match d.locate? ident with
    | none => (.ok none, d)
    | some (place, declaration) =>
      let (result, attributes) := edit declaration.toAttributes
      (result.map some,
        d.replaceAt place (.declaration { declaration with toAttributes := attributes }))

/-- Edits a connection of the equation section, given its position. -/
def editConnection (index : Nat) (edit : Connection → Connection) (d : Document) : Document :=
  match (d.elements .equation)[index]? with
  | some (.connection connection) =>
    d.replaceAt ⟨.equation, index⟩ (.connection (edit connection))
  | _ => d

/-- Edits the annotations of the document. -/
def editAnnotations (edit : Edit Modification α) : Edit Document α :=
  fun d =>
    let (result, annotations) := edit d.annotations
    (result, { d with annotations })

def toTree (d : Document) : Tree :=
  .object
    [("ident", .text d.ident),
     ("description", .ofText d.description),
     ("within", .ofOption (fun w => .object [("name", .ofText w.name)]) d.within),
     ("flags", d.flags.toTree),
     ("annotation", d.annotations.toTree),
     ("sections", d.sections.toTree)]

end Document

end ModelSource

import ModelSource.Placement
import ModelSource.Section

/-!
# Declarations

A declaration is a typed, named slot with modifications, a binding and
annotations. Once it belongs to a document only its modifications and
annotations may change; these two are its `Attributes`, and edits see nothing
else of it.
-/

namespace ModelSource

inductive Variability where
  | constant
  | parameter
  | discrete
deriving DecidableEq

def Variability.keyword : Variability → String
  | .constant => "constant"
  | .parameter => "parameter"
  | .discrete => "discrete"

inductive Causality where
  | input
  | output
deriving DecidableEq

def Causality.keyword : Causality → String
  | .input => "input"
  | .output => "output"

inductive FlowKind where
  | flow
  | stream
deriving DecidableEq

def FlowKind.keyword : FlowKind → String
  | .flow => "flow"
  | .stream => "stream"

/-- The part of a declaration that stays open to change. -/
structure Attributes where
  modifications : Modification := ∅
  annotations : Modification := ∅

/-- A typed, named slot of a document. -/
structure Declaration extends Attributes where
  typeName : String
  ident : String
  /-- The binding. -/
  value : Option Value := none
  variability : Option Variability := none
  causality : Option Causality := none
  flowKind : Option FlowKind := none
  flags : FlagSet DeclarationFlag := {}
  subscripts : List String := []
  condition : Option String := none
  description : Option String := none

/-- Everything that can be said of a declaration beside its type and name. -/
structure DeclarationOptions where
  value : Option Value := none
  modifications : Modification := ∅
  variability : Option Variability := none
  causality : Option Causality := none
  flowKind : Option FlowKind := none
  flags : FlagSet DeclarationFlag := {}
  subscripts : List String := []
  condition : Option String := none
  description : Option String := none
  annotations : Modification := ∅
  placement : Option Placement := none
  target : Option Section := none

namespace DeclarationOptions

/-- Adds one modification. -/
def modify (o : DeclarationOptions) (name : String) (value : Value) : DeclarationOptions :=
  { o with modifications := o.modifications.set name value }

/-- Adds the flags with these keywords. -/
def addFlags (o : DeclarationOptions) (words : String) : Except Error DeclarationOptions :=
  match FlagSet.parse words with
  | .ok flags => .ok { o with flags := o.flags.union flags }
  | .error e => .error e

/-- The section a declaration with these options goes to. -/
def targetSection (o : DeclarationOptions) : Section :=
  o.target.getD .publicPart

/-- Binding and modifications. A map given as the binding is meant as the
modifications, so there must not be others. -/
def split (o : DeclarationOptions) (ident : String) :
    Except Error (Option Value × Modification) :=
  match o.value with
  | some (.map entries) =>
    if o.modifications.isEmpty then .ok (none, entries)
    else .error (.violation (.mapValueWithModifications ident entries.size))
  | value => .ok (value, o.modifications)

/-- Annotations with the placement written into them. -/
def placed (o : DeclarationOptions) : Except Error Modification :=
  match o.placement with
  | none => .ok o.annotations
  | some placement =>
    let (result, annotations) := placement.apply o.annotations
    result.map fun _ => annotations

end DeclarationOptions

namespace Declaration

/-- The declaration that options describe. -/
def ofOptions (typeName ident : String) (o : DeclarationOptions) : Except Error Declaration :=
  match o.split ident with
  | .error e => .error e
  | .ok (value, modifications) =>
    o.placed.map fun annotations =>
      { typeName, ident, value, modifications, annotations
        variability := o.variability
        causality := o.causality
        flowKind := o.flowKind
        flags := o.flags
        subscripts := o.subscripts
        condition := o.condition
        description := o.description }

def toTree (d : Declaration) : Tree :=
  .object
    [("type_name", .text d.typeName),
     ("ident", .text d.ident),
     ("value", .ofOption Value.toTree d.value),
     ("modifications", d.modifications.toTree),
     ("variability", .ofOption (fun v => .text v.keyword) d.variability),
     ("causality", .ofOption (fun c => .text c.keyword) d.causality),
     ("flow_kind", .ofOption (fun k => .text k.keyword) d.flowKind),
     ("flags", d.flags.toTree),
     ("subscripts", .array (d.subscripts.map .text)),
     ("condition", .ofText d.condition),
     ("description", .ofText d.description),
     ("annotation", d.annotations.toTree)]

end Declaration

namespace Attributes

/-- Gives a modification a value and answers with the one it had. -/
def setField (name : String) (value : Value) : Edit Attributes (Option Value) :=
  fun a => (.ok (a.modifications.get? name), { a with modifications := a.modifications.set name value })

/-- Gives a modification that is there a new value; tells whether it was there. -/
def replaceField (name : String) (value : Value) : Edit Attributes Bool :=
  fun a =>
    match a.modifications.replace? name value with
    | some modifications => (.ok true, { a with modifications })
    | none => (.ok false, a)

/-- Runs an edit on the annotations. -/
def editAnnotations (edit : Edit Modification α) : Edit Attributes α :=
  fun a =>
    let (result, annotations) := edit a.annotations
    (result, { a with annotations })

/-- Moves the declaration to a placement. -/
def setPlacement (placement : Placement) : Edit Attributes Unit :=
  editAnnotations placement.apply

end Attributes

end ModelSource

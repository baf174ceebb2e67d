import ModelSource.Flag
import ModelSource.Ordered
import ModelSource.Value.Scalar

/-!
# Modification values

A value is what stands to the right of a name in a modification or an
annotation. Values nest: a modification maps names to values and is itself one.
An entry keeps the place where its name first came up, and that is the order in
which entries are written.

Names are looked up from the front and `set` replaces the first entry of a name,
so every modification that is built from the empty one by `set` has each name
once.
-/

namespace ModelSource

mutual

/-- A modification or annotation value. -/
inductive Value where
  | scalar (value : Scalar)
  /-- A fixed sequence of literals. -/
  | tuple (items : List Scalar)
  /-- A nested modification. -/
  | map (entries : Modification)
  /-- A modification with flags, a nested map and a literal. -/
  | assign (assignment : Assign)
  /-- An array as graphical annotations use it: of one-entry maps, of rows or of
  literals. -/
  | list (items : List Value)

/-- An ordered map from names to values. Annotations are modifications too. -/
structure Modification where
  entries : List (String × Value)

/-- An entry of the form `[flags] [type] name [(map)] [= literal] ["description"]
[annotation]`. -/
structure Assign where
  literal : Option Scalar
  modifications : Modification
  flags : FlagSet AssignFlag
  description : Option String
  annotations : Modification
  /-- Only a redeclaration may name a type. -/
  typeName : Option String
  /-- The significant digits of a real literal. -/
  precision : Option Nat

end

namespace Modification

def empty : Modification :=
  ⟨[]⟩

instance : EmptyCollection Modification := ⟨empty⟩
instance : Inhabited Modification := ⟨empty⟩

def isEmpty (m : Modification) : Bool :=
  m.entries.isEmpty

/-- The number of entries. -/
def size (m : Modification) : Nat :=
  m.entries.length

/-- The names in order. -/
def keys (m : Modification) : List String :=
  m.entries.map Prod.fst

/-- The value of a name. -/
def get? (m : Modification) (name : String) : Option Value :=
  m.entries.lookup name

def contains (m : Modification) (name : String) : Bool :=
  (m.get? name).isSome

/-- Gives `name` a value. A name that is there keeps its place. -/
def set (m : Modification) (name : String) (value : Value) : Modification :=
  ⟨Ordered.put name value m.entries⟩

/-- `set` for each pair, one after the other. -/
def setAll (m : Modification) (entries : List (String × Value)) : Modification :=
  entries.foldl (fun acc (name, value) => acc.set name value) m

def ofList (entries : List (String × Value)) : Modification :=
  empty.setAll entries

/-- Gives `name` a new value only if it has one. -/
def replace? (m : Modification) (name : String) (value : Value) : Option Modification :=
  if m.contains name then some (m.set name value) else none

end Modification

namespace Assign

/-- Neither a literal nor anything else. -/
def empty : Assign :=
  { literal := none, modifications := ∅, flags := {}, description := none, annotations := ∅,
    typeName := none, precision := none }

instance : Inhabited Assign := ⟨empty⟩

/-- The assignment of a literal. -/
def ofScalar (value : Scalar) : Assign :=
  { empty with literal := some value }

/-- A redeclaration to a type. -/
def redeclare (typeName : String) : Assign :=
  { empty with flags := FlagSet.ofList [.redeclare], typeName := some typeName }

/-- A type is named by a redeclaration only. -/
def validate (a : Assign) : Except Error Unit :=
  match a.typeName with
  | some typeName =>
    if a.flags.contains .redeclare then .ok ()
    else .error (.violation (.typeWithoutRedeclare typeName))
  | none => .ok ()

end Assign

namespace Value

/-- The string literal of a text. -/
def quoted (text : String) : Value :=
  .scalar (.quoted text)

/-- Text that is written as it stands. -/
def verbatim (text : String) : Value :=
  .scalar (.text text)

def bool (value : Bool) : Value :=
  .scalar (.bool value)

def integer (value : Int) : Value :=
  .scalar (.integer value)

def real (value : Binary64) : Value :=
  .scalar (.real value)

/-- A point of the drawing plane. -/
def point (x y : Scalar) : Value :=
  .list [.scalar x, .scalar y]

def shape : Value → Shape
  | .scalar _ => .scalar
  | .tuple _ => .tuple
  | .map _ => .map
  | .assign _ => .assign
  | .list _ => .list

/-- The nested map, if the value is one. -/
def asMap? : Value → Option Modification
  | .map entries => some entries
  | _ => none

mutual

def toTree : Value → Tree
  | .scalar value => .object [("scalar", value.toTree)]
  | .tuple items => .object [("tuple", .array (items.map Scalar.toTree))]
  | .map entries => .object [("map", modificationTree entries)]
  | .assign assignment => .object [("assign", assignTree assignment)]
  | .list items => .object [("list", .array (itemTrees items))]

def itemTrees : List Value → List Tree
  | [] => []
  | item :: rest => item.toTree :: itemTrees rest

def modificationTree : Modification → Tree
  | ⟨entries⟩ => .object (entryTrees entries)

def entryTrees : List (String × Value) → List (String × Tree)
  | [] => []
  | (name, value) :: rest => (name, value.toTree) :: entryTrees rest

def assignTree : Assign → Tree
  | ⟨literal, modifications, flags, description, annotations, typeName, precision⟩ =>
    .object
      [("value", .ofOption Scalar.toTree literal),
       ("modifications", modificationTree modifications),
       ("flags", flags.toTree),
       ("description", .ofText description),
       ("annotation", modificationTree annotations),
       ("type_name", .ofText typeName),
       ("precision", .ofOption (fun n : Nat => .integer n) precision)]

end

end Value

def Modification.toTree (m : Modification) : Tree :=
  Value.modificationTree m

end ModelSource

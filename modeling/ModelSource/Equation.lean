import ModelSource.Value.Basic

/-!
# Equations, connections and the clauses of a header

The sides of an equation and of an algorithm step are expressions, which the
library keeps as text and never looks into. The same holds for the two
references of a connection, of which only the owner is ever needed: what stands
before the last point.
-/

namespace ModelSource

/-- Expression text, written as it stands. -/
abbrev Expression := String

/-- Two sides, an optional description and annotations: an equation `left = right`
or an algorithm step `left := right`. -/
structure Equation where
  left : Expression
  right : Expression
  description : Option String := none
  annotations : Modification := ∅

def Equation.toTree (e : Equation) : Tree :=
  .object
    [("left", .text e.left), ("right", .text e.right), ("description", .ofText e.description),
     ("annotation", e.annotations.toTree)]

/-- A connection of two connectors. -/
structure Connection where
  a : String
  b : String
  description : Option String := none
  annotations : Modification := ∅

namespace Connection

/-- What stands before the last point of a reference; all of it if there is none. -/
def ownerChars (reference : List Char) : List Char :=
  match reference.reverse.dropWhile (· != '.') with
  | [] => reference
  | _ :: before => before.reverse

def ownerOf (reference : String) : String :=
  String.ofList (ownerChars reference.toList)

/-- The owners of the two references. -/
def owners (c : Connection) : String × String :=
  (ownerOf c.a, ownerOf c.b)

def toTree (c : Connection) : Tree :=
  .object
    [("a", .text c.a), ("b", .text c.b), ("description", .ofText c.description),
     ("annotation", c.annotations.toTree)]

end Connection

/-- An import clause. -/
inductive Import where
  /-- A single name, or a star, at the end of the path. -/
  | qualified (path : String)
  /-- Several names of one package. -/
  | multi (path : String) (names : List String)
  /-- A path under another name. -/
  | named (shortName path : String)
deriving DecidableEq

namespace Import

def path : Import → String
  | .qualified path | .multi path _ | .named _ path => path

def toTree : Import → Tree
  | .qualified path => .object [("kind", .text "qualified"), ("path", .text path)]
  | .multi path names =>
    .object
      [("kind", .text "multi"), ("path", .text path), ("names", .array (names.map .text))]
  | .named shortName path =>
    .object [("kind", .text "named"), ("alias", .text shortName), ("path", .text path)]

end Import

/-- What an import names beside its path. -/
inductive ImportNames where
  | none
  | list (names : List String)
  | shortName (name : String)
deriving DecidableEq

/-- An inheritance clause. -/
structure Extends where
  name : String
  modifications : Modification := ∅

def Extends.toTree (e : Extends) : Tree :=
  .object [("name", .text e.name), ("modifications", e.modifications.toTree)]

end ModelSource

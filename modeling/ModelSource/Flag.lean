import ModelSource.Error
import ModelSource.Text.Blank
import ModelSource.Tree

/-!
# Keyword flags

Documents, declarations and assignments each accept a small closed set of
keyword flags. A flag set remembers which flags were given and in what order,
but shows neither order nor repetition: everything that looks at a set, its list,
its tree, its equality and the printer, goes through the canonical order `all`
of the kind.
-/

namespace ModelSource

/-- A closed set of keyword flags. -/
class FlagKind (F : Type) where
  /-- Every flag, in canonical order. -/
  all : List F
  /-- What the flags belong to, in messages. -/
  context : String
  keyword : F → String

/-- Flags of a document. -/
inductive DocumentFlag where
  | final
  | encapsulated
  | incomplete
  | replaceable
deriving DecidableEq

instance : FlagKind DocumentFlag where
  all := [.final, .encapsulated, .incomplete, .replaceable]
  context := "document"
  keyword
    | .final => "final"
    | .encapsulated => "encapsulated"
    | .incomplete => "partial"
    | .replaceable => "replaceable"

/-- Flags of a declaration. -/
inductive DeclarationFlag where
  | final
  | inner
  | outer
  | replaceable
deriving DecidableEq

instance : FlagKind DeclarationFlag where
  all := [.final, .inner, .outer, .replaceable]
  context := "declaration"
  keyword
    | .final => "final"
    | .inner => "inner"
    | .outer => "outer"
    | .replaceable => "replaceable"

/-- The flags written in a declaration line; `replaceable` is kept but not
written there. -/
def DeclarationFlag.written : List DeclarationFlag :=
  [.final, .inner, .outer]

/-- Flags of an assignment inside a modification. -/
inductive AssignFlag where
  | redeclare
  | each
  | final
  | replaceable
deriving DecidableEq

instance : FlagKind AssignFlag where
  all := [.redeclare, .each, .final, .replaceable]
  context := "assignment"
  keyword
    | .redeclare => "redeclare"
    | .each => "each"
    | .final => "final"
    | .replaceable => "replaceable"

namespace FlagKind

variable {F : Type} [FlagKind F]

/-- The flag with this keyword. -/
def ofKeyword? (word : String) : Option F :=
  (all : List F).find? fun f => keyword f == word

/-- The flag with this keyword, or the list of those that would have done. -/
def parse (word : String) : Except Error F :=
  match ofKeyword? word with
  | some f => .ok f
  | none => .error (.unknownFlag word (context F) ((all : List F).map keyword))

end FlagKind

/-- A set of flags of one kind, with the flags in the order in which they came. -/
structure FlagSet (F : Type) where
  members : List F := []

namespace FlagSet

variable {F : Type} [DecidableEq F]

def empty : FlagSet F :=
  {}

def contains (flags : FlagSet F) (f : F) : Bool :=
  decide (f ∈ flags.members)

/-- Adding a flag again changes nothing. -/
def insert (flags : FlagSet F) (f : F) : FlagSet F :=
  if flags.contains f then flags else ⟨flags.members ++ [f]⟩

def ofList (flags : List F) : FlagSet F :=
  flags.foldl insert empty

def isEmpty (flags : FlagSet F) : Bool :=
  flags.members.isEmpty

/-- The flags of the set that stand in `order`, in that order. -/
def among (flags : FlagSet F) (order : List F) : List F :=
  order.filter flags.contains

variable [FlagKind F]

/-- The flags of the set in canonical order. -/
def toList (flags : FlagSet F) : List F :=
  flags.among FlagKind.all

/-- Everything in `more` is added. -/
def union (flags more : FlagSet F) : FlagSet F :=
  more.toList.foldl insert flags

instance : BEq (FlagSet F) :=
  ⟨fun a b => a.toList == b.toList⟩

def keywords (flags : FlagSet F) : List String :=
  flags.toList.map FlagKind.keyword

def toTree (flags : FlagSet F) : Tree :=
  .array (flags.keywords.map .text)

/-- Adds the flags with these keywords, up to the first that is none. -/
def insertWords (flags : FlagSet F) : List String → Except Error (FlagSet F)
  | [] => .ok flags
  | word :: rest =>
    match FlagKind.parse word with
    | .ok f => (flags.insert f).insertWords rest
    | .error e => .error e

/-- A set given as keywords between blanks. -/
def parse (text : String) : Except Error (FlagSet F) :=
  empty.insertWords (Text.words text)

end FlagSet

end ModelSource

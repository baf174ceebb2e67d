/-!
# The six sections of a document body

A body is divided into six sections that always appear in the same order. Two
hold declarations, two hold equations and two hold algorithm steps; the latter
kinds each have an initial variant.
-/

namespace ModelSource

/-- A section of a document body. -/
inductive Section where
  | publicPart
  | protectedPart
  | initialEquation
  | initialAlgorithm
  | equation
  | algorithm
deriving DecidableEq

namespace Section

/-- The sections in the order in which they are written. -/
def all : List Section :=
  [.publicPart, .protectedPart, .initialEquation, .initialAlgorithm, .equation, .algorithm]

theorem mem_all (target : Section) : target ∈ all := by
  cases target <;> decide

/-- The words that open the section. -/
def keyword : Section → String
  | .publicPart => "public"
  | .protectedPart => "protected"
  | .initialEquation => "initial equation"
  | .initialAlgorithm => "initial algorithm"
  | .equation => "equation"
  | .algorithm => "algorithm"

/-- The section's name in a tree: its words joined by an underscore. -/
def treeName : Section → String
  | .initialEquation => "initial_equation"
  | .initialAlgorithm => "initial_algorithm"
  | s => s.keyword

/-- Holds declarations, imports and extends clauses. -/
def isDeclarative : Section → Bool
  | .publicPart | .protectedPart => true
  | _ => false

/-- Holds equations and connections. -/
def isEquation : Section → Bool
  | .equation | .initialEquation => true
  | _ => false

/-- Holds algorithm steps. -/
def isAlgorithm : Section → Bool
  | .algorithm | .initialAlgorithm => true
  | _ => false

/-- The equation section, or the initial one. -/
def forEquation (initial : Bool) : Section :=
  if initial then .initialEquation else .equation

/-- The algorithm section, or the initial one. -/
def forAlgorithm (initial : Bool) : Section :=
  if initial then .initialAlgorithm else .algorithm

/-- The section opened by these words. -/
def ofKeyword? (words : String) : Option Section :=
  all.find? fun s => s.keyword == words

end Section

end ModelSource

/-!
# Kinds of nodes

Messages and trees name nodes by their kind. Each kind is a closed enumeration
with one name per member.
-/

namespace ModelSource

/-- The shape of a modification value. -/
inductive Shape where
  | scalar
  | tuple
  | map
  | assign
  | list
deriving DecidableEq

def Shape.name : Shape → String
  | .scalar => "scalar"
  | .tuple => "tuple"
  | .map => "map"
  | .assign => "assign"
  | .list => "list"

/-- What can stand in a section. -/
inductive ElementKind where
  | declaration
  | equation
  | connection
  | algorithm
  | importClause
  | extendsClause
  | text
  | construct
deriving DecidableEq

def ElementKind.name : ElementKind → String
  | .declaration => "declaration"
  | .equation => "equation"
  | .connection => "connection"
  | .algorithm => "algorithm"
  | .importClause => "import"
  | .extendsClause => "extends clause"
  | .text => "text"
  | .construct => "construct"

/-- The conditional and loop constructs. -/
inductive ConstructKind where
  | ifThen
  | when
  | forLoop
  | whileLoop
deriving DecidableEq

namespace ConstructKind

/-- The word that opens and closes the construct. -/
def keyword : ConstructKind → String
  | .ifThen => "if"
  | .when => "when"
  | .forLoop => "for"
  | .whileLoop => "while"

/-- The word that opens a further tested branch, where there can be one. -/
def branchKeyword : ConstructKind → Option String
  | .ifThen => some "elseif"
  | .when => some "elsewhen"
  | .forLoop | .whileLoop => none

def isConditional : ConstructKind → Bool
  | .ifThen | .when => true
  | .forLoop | .whileLoop => false

end ConstructKind

/-- What the body of a construct holds. -/
inductive BodyKind where
  | equation
  | statement
  | expression
deriving DecidableEq

def BodyKind.name : BodyKind → String
  | .equation => "equation"
  | .statement => "statement"
  | .expression => "expression"

end ModelSource

import ModelSource.Error
import ModelSource.Number.Significant
import ModelSource.Text.Quoted
import ModelSource.Tree

/-!
# Scalars

A scalar is a literal: a truth value, an integer, a real, or text that is written
as it stands, which covers expressions, enumeration literals and, once quoted,
strings. A real without digits has a place in a document but no source text.
-/

namespace ModelSource

/-- A literal. -/
inductive Scalar where
  | bool (value : Bool)
  | integer (value : Int)
  | real (value : Binary64)
  | text (value : String)
deriving DecidableEq

namespace Scalar

/-- The string literal of a text. -/
def quoted (text : String) : Scalar :=
  .text (Text.quote text)

/-- A number that is written without a fraction if it is whole and has at most
fifteen digits. -/
def number (x : Binary64) : Scalar :=
  match x.toInt? with
  | some n => if n.natAbs < Nat.pow 10 15 then .integer n else .real x
  | none => .real x

/-- The name of the kind of literal. -/
def kindName : Scalar → String
  | .bool _ => "bool"
  | .integer _ => "integer"
  | .real _ => "real"
  | .text _ => "string"

/-- Reals in source text are positional from `0.0001` up to sixteen digits before
the point, an exponent has no plus sign and a tie goes up. -/
def numberStyle : NumberStyle :=
  { leastPlain := -4, plainBelow := 16, plusSign := false, tie := .up }

/-- The source text of a finite real, to so many significant digits if asked. -/
def realText (x : Binary64) : Option Nat → String
  | some digits => Significant.text x digits
  | none => numberStyle.finiteText x

/-- The source text of a literal. -/
def text? (precision : Option Nat) : Scalar → Except Obstacle String
  | .bool value => .ok (if value then "true" else "false")
  | .integer value => .ok (toString value)
  | .real value => if value.isFinite then .ok (realText value precision) else .error (.nonFinite value)
  | .text value => .ok value

def toTree : Scalar → Tree
  | .bool value => .bool value
  | .integer value => .integer value
  | .real value => .real value
  | .text value => .text value

end Scalar

end ModelSource

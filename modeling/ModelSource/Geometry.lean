import ModelSource.Number.Lattice
import ModelSource.Placement

/-!
# Laying out a diagram

`between` puts an icon halfway between two points and turns it along the line
from one to the other. A `BoxMap` carries one box linearly onto another, onto
even or odd coordinates if asked, which keeps icons on or off the grid lines.
-/

namespace ModelSource

/-- An icon halfway between two points. On a line that is more vertical than
horizontal it is rotated upwards or downwards; on any other line that runs to the
left it is flipped. -/
def Placement.between (p q : Point) : Placement :=
  let placement := Placement.atPoint ((p.x + q.x) / 2) ((p.y + q.y) / 2)
  let dx := q.x - p.x
  let dy := q.y - p.y
  if dx.abs.less dy.abs then
    { placement with rotation := some (if Binary64.less 0 dy then 90 else 270) }
  else if dx.less 0 then
    { placement with flip := some .horizontal }
  else placement

/-- A box given by two opposite corners. -/
structure Box where
  lower : Point
  upper : Point
deriving DecidableEq

/-- The lattice onto which coordinates are rounded. -/
inductive Lattice where
  | even
  | odd
deriving DecidableEq

/-- A coordinate on the lattice. -/
def Lattice.round (lattice : Lattice) (x : Binary64) : Binary64 :=
  match lattice with
  | .even => .ofInt x.roundEven
  | .odd => .ofInt x.roundOdd

/-- A linear map of the plane, one coordinate at a time. -/
structure BoxMap where
  slopeX : Binary64
  offsetX : Binary64
  slopeY : Binary64
  offsetY : Binary64
  lattice : Option Lattice
deriving DecidableEq

namespace BoxMap

/-- The map of one box onto another. The source must have a width and a height. -/
def ofBoxes (source target : Box) (lattice : Option Lattice) : Except Error BoxMap :=
  let (s, t) := (source.lower, source.upper)
  let (u, v) := (target.lower, target.upper)
  if s.x.same t.x || s.y.same t.y then .error (.violation .flatSourceBox)
  else
    let slopeX := (u.x - v.x) / (s.x - t.x)
    let slopeY := (u.y - v.y) / (s.y - t.y)
    .ok { slopeX, slopeY, lattice, offsetX := u.x - slopeX * s.x, offsetY := u.y - slopeY * s.y }

/-- The image of a point before it is moved onto the lattice. -/
def linear (m : BoxMap) (p : Point) : Point :=
  ⟨m.slopeX * p.x + m.offsetX, m.slopeY * p.y + m.offsetY⟩

/-- The image of a point. -/
def apply (m : BoxMap) (p : Point) : Point :=
  let image := m.linear p
  match m.lattice with
  | some lattice => ⟨lattice.round image.x, lattice.round image.y⟩
  | none => image

end BoxMap

end ModelSource

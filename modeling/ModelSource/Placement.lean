import ModelSource.Value.Path

/-!
# Placement in a diagram

A placement is not a part of a declaration; it is written into the `Placement`
entry of the declaration's annotations, as an optional visibility and a
transformation of extent, rotation and origin. `apply` walks to the two maps one
after the other and writes between the two walks, so a visibility may have been
written when the second walk fails. `originOf?` reads an origin back, in either
of the two shapes in which one can be written by hand.
-/

namespace ModelSource

/-- A point of the drawing plane. -/
structure Point where
  x : Binary64
  y : Binary64
deriving DecidableEq

/-- The point as a value, each coordinate a whole number where it is one. -/
def Point.toValue (p : Point) : Value :=
  .point (.number p.x) (.number p.y)

/-- The axis along which a placed icon is flipped. -/
inductive Flip where
  | horizontal
  | vertical
deriving DecidableEq

def Flip.name : Flip → String
  | .horizontal => "horizontal"
  | .vertical => "vertical"

/-- Position, orientation and size of an icon. -/
structure Placement where
  origin : Point
  flip : Option Flip := none
  /-- In degrees. -/
  rotation : Option Binary64 := none
  /-- From the centre to the edge. -/
  size : Binary64 := 10
  visible : Option Bool := none
deriving DecidableEq

namespace Placement

/-- An icon of the usual size without rotation. -/
def atPoint (x y : Binary64) : Placement :=
  { origin := ⟨x, y⟩ }

/-- Two opposite corners about the origin; a flip swaps them along its axis. -/
def extent (p : Placement) : Point × Point :=
  let s := p.size
  match p.flip with
  | some .horizontal => (⟨s, -s⟩, ⟨-s, s⟩)
  | some .vertical => (⟨-s, s⟩, ⟨s, -s⟩)
  | none => (⟨-s, -s⟩, ⟨s, s⟩)

/-- The visibility, where one is given. -/
def writeVisible (p : Placement) (m : Modification) : Modification :=
  match p.visible with
  | some visible => m.set "visible" (.bool visible)
  | none => m

/-- Extent, rotation where one is given, and origin. -/
def writeTransformation (p : Placement) (m : Modification) : Modification :=
  let m := m.set "extent" (.list [p.extent.1.toValue, p.extent.2.toValue])
  let m :=
    match p.rotation with
    | some rotation => m.set "rotation" (.scalar (.number rotation))
    | none => m
  m.set "origin" p.origin.toValue

/-- Writes the placement into annotations. Other entries stay. -/
def apply (p : Placement) : Edit Modification Unit :=
  Modification.descend ["Placement"] fun m =>
    Modification.descend ["transformation"] (fun t => (.ok (), p.writeTransformation t))
      (p.writeVisible m)

/-- The two coordinates of a value that is a point. -/
def pointOf? : Value → Option (Scalar × Scalar)
  | .list [.scalar x, .scalar y] => some (x, y)
  | .tuple [x, y] => some (x, y)
  | _ => none

/-- The origin that annotations give. -/
def originOf? (annotations : Modification) : Option (Scalar × Scalar) :=
  match annotations.read ["Placement", "transformation"] with
  | .ok (some transformation) => (transformation.get? "origin").bind pointOf?
  | _ => none

def toTree (p : Placement) : Tree :=
  .object
    [("origin", .array [.real p.origin.x, .real p.origin.y]),
     ("flip", .ofOption (fun f => .text f.name) p.flip),
     ("rotation", .ofOption .real p.rotation),
     ("size", .real p.size),
     ("visible", .ofOption .bool p.visible)]

end Placement

end ModelSource

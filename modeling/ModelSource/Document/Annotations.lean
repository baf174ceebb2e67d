import ModelSource.Document.Basic

/-!
# Annotations of a document

The simulation settings and the drawing area of a document are annotations.
Settings that have their usual value are left out: a start at zero and a stop at
one are not written, and what was written before is not taken away.
-/

namespace ModelSource

/-- Simulation settings. -/
structure Experiment where
  start : Binary64 := 0
  stop : Binary64 := 1
  tolerance : Option Binary64 := none
  interval : Option Binary64 := none
  /-- Further entries. -/
  extra : Modification := ∅

namespace Experiment

/-- A setting that may be absent. -/
def writeOptional (name : String) (value : Option Value) (m : Modification) : Modification :=
  match value with
  | some value => m.set name value
  | none => m

/-- The start time, unless it is zero. -/
def startValue (e : Experiment) : Option Value :=
  if e.start.isZero then none else some (.scalar (.number e.start))

/-- The stop time, unless it is one. -/
def stopValue (e : Experiment) : Option Value :=
  if e.stop = 1 then none else some (.scalar (.number e.stop))

/-- Writes the settings into a map. -/
def write (e : Experiment) (m : Modification) : Modification :=
  let m := writeOptional "StartTime" e.startValue m
  let m := writeOptional "StopTime" e.stopValue m
  let m := writeOptional "Tolerance" (e.tolerance.map .real) m
  let m := writeOptional "Interval" (e.interval.map .real) m
  m.setAll e.extra.entries

end Experiment

/-- A graphical layer, or both. -/
inductive Layer where
  | diagram
  | icon
  | both
deriving DecidableEq

def Layer.names : Layer → List String
  | .diagram => ["Diagram"]
  | .icon => ["Icon"]
  | .both => ["Diagram", "Icon"]

/-- The drawing area as a value. -/
def extentValue (lower upper : Point) : Value :=
  .list [lower.toValue, upper.toValue]

namespace Document

/-- Writes simulation settings into the `experiment` annotation. -/
def setExperiment (experiment : Experiment) : Edit Document Unit :=
  editAnnotations (Modification.descend ["experiment"] fun m => (.ok (), experiment.write m))

/-- Writes the drawing area of one layer. -/
def setLayerExtent (value : Value) (layer : String) : Edit Document Unit :=
  editAnnotations
    (Modification.descend [layer, "coordinateSystem"] fun m => (.ok (), m.set "extent" value))

/-- Writes the drawing area of layers, up to the first that has no place for it. -/
def setExtents (value : Value) : List String → Edit Document Unit
  | [] => pure ()
  | layer :: rest => do
    setLayerExtent value layer
    setExtents value rest

/-- Writes the drawing area. -/
def setExtent (lower upper : Point) (layer : Layer) : Edit Document Unit :=
  setExtents (extentValue lower upper) layer.names

/-- Puts an empty map at a name, walks into it and edits it. A name that is taken
must be meant to be replaced. -/
def freshEntry (path : List String) (name : String) (replacing : Bool)
    (edit : Edit Modification α) : Edit Modification α :=
  fun m =>
    if m.contains name && !replacing then (.error (.violation (.annotationsExist path)), m)
    else Modification.descend [name] edit (m.set name (.map ∅))

/-- Creates an empty annotation at the end of a path and edits it. The empty path
is the document's annotations as they are. -/
def addAnnotations (path : List String) (replacing : Bool) (edit : Edit Modification α) :
    Edit Document α :=
  editAnnotations
    (match path.getLast? with
     | none => edit
     | some name => Modification.descend path.dropLast (freshEntry path name replacing edit))

end Document

end ModelSource

import ModelSource.Demo.Script
import ModelSource.DisplayUnit
import ModelSource.Geometry

/-!
# A gas network

Junctions, pipes between them and consumers, fed from one side. Junctions are
placed on odd coordinates, which keeps them off the grid lines; consumers hang
below their junction.
-/

namespace ModelSource.Demo.GasGrid

/-- A junction: pressure in bar and temperature in kelvin of the solved state, and
geographical position. -/
structure Junction where
  pressure : Binary64
  temperature : Binary64
  geo : Point

/-- A pipe between two junctions. -/
structure Pipe where
  source : Nat
  target : Nat
  kilometres : Binary64
  diameter : Binary64

/-- A consumer at a junction, in kilograms per second. -/
structure Sink where
  junction : Nat
  massFlow : Binary64

def junctions : List Junction :=
  [⟨1.05, 293.15, ⟨0, 1⟩⟩, ⟨1.0342, 293.15, ⟨2, 1⟩⟩, ⟨1.0297, 293.15, ⟨4, 2⟩⟩]

def pipes : List Pipe :=
  [⟨0, 1, 10, 0.05⟩, ⟨1, 2, 2.5, 0.05⟩]

def sinks : List Sink :=
  [⟨1, 0.01⟩, ⟨2, 0.005⟩]

/-- The connector by which a junction is connected. -/
def junctionConnector : String :=
  "gasPort[1]"

def junctionName (index : Nat) : String :=
  "junction_" ++ toString index

/-- The positions of the junctions in the diagram. -/
def positions : Except Error (List Point) :=
  (BoxMap.ofBoxes ⟨⟨0, 0⟩, ⟨4, 2⟩⟩ ⟨⟨-100, -100⟩, ⟨100, 100⟩⟩ (some .odd)).map fun m =>
    junctions.map fun j => m.apply j.geo

/-- The position of a junction among those given. -/
def positionOf (places : List Point) (junction : Nat) : Point :=
  (places[junction]?).getD ⟨0, 0⟩

def addJunction (places : List Point) (index : Nat) (j : Junction) : Script :=
  declare "Junction" (junctionName index)
    { modifications := .ofList [("p_start", .real j.pressure), ("T_start", .real j.temperature)]
      placement := some { origin := positionOf places index } }

/-- The supply, to the left of the first junction. -/
def addFeed (places : List Point) (j : Junction) : Script := do
  let p := positionOf places 0
  declare "ExtGrid" "ext_grid_0"
    { modifications := .ofList [("p_const", .real j.pressure), ("T_const", .real j.temperature)]
      placement := some (.atPoint (p.x - 20) p.y) }
  connect ["ext_grid_0", "gasPort", junctionName 0, junctionConnector]

def addPipe (places : List Point) (index : Nat) (pipe : Pipe) : Script := do
  let ident := "pipe_" ++ toString index
  declare "Pipe" ident
    { modifications := .ofList
        [("length", .assign (DisplayUnit.kilometre.quantity pipe.kilometres)),
         ("diameter_i", .real pipe.diameter),
         ("z_in", .integer 0), ("z_out", .integer 0), ("p_nom", .integer 1)]
      placement :=
        some (.between (positionOf places pipe.source) (positionOf places pipe.target)) }
  connect [ident, "gasPortIn", junctionName pipe.source, junctionConnector]
  connect [ident, "gasPortOut", junctionName pipe.target, junctionConnector]

def addSink (places : List Point) (index : Nat) (sink : Sink) : Script := do
  let ident := "sink_" ++ toString index
  let p := positionOf places sink.junction
  declare "Sink" ident
    { modifications := .ofList
        [("variable_m_flow", .bool false), ("m_flow_const", .real sink.massFlow)]
      placement := some (.atPoint p.x (p.y - 30)) }
  connect [ident, "fluidPortIn", junctionName sink.junction, junctionConnector]

/-- The packages that the document uses. -/
def imports : Script := do
  importName "TransiEnt.Components.Boundaries.Gas.BoundaryRealGas_pTx" (.shortName "ExtGrid")
  importName "TransiEnt.Components.Gas.VolumesValvesFittings.Pipes.PipeFlow_L4_Simple_isoth"
    (.shortName "Pipe")
  importName "TransiEnt.Consumer.Gas.GasConsumerPipe_mFlow" (.shortName "Sink")
  importName
    "TransiEnt.Components.Gas.VolumesValvesFittings.Fittings.RealGasJunction_L2_nPorts_isoth"
    (.shortName "Junction")

/-- Gas pipes, junctions and consumers. -/
def document : Except Error Document :=
  build { ident := "GasGrid" } do
    imports
    each [("TransiEnt.SimCenter", "simCenter"), ("TransiEnt.ModelStatistics", "modelStatistics")]
      fun (typeName, ident) => declare typeName ident { flags := FlagSet.ofList [.inner] }
    let places ← Edit.answer positions
    eachIndexed junctions (addJunction places)
    each (junctions.take 1) (addFeed places)
    eachIndexed pipes (addPipe places)
    eachIndexed sinks (addSink places)

end ModelSource.Demo.GasGrid

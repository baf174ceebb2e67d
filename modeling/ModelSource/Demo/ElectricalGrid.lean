import ModelSource.Demo.Script
import ModelSource.DisplayUnit
import ModelSource.Geometry

/-!
# A low voltage feeder

A feeder behind a distribution transformer, given as tables of buses, loads,
generators, lines and transformers. Buses are placed by mapping their geographical
coordinates onto the drawing area; lines and transformers go between their buses.
-/

namespace ModelSource.Demo.ElectricalGrid

/-- The model of a bus, which is part of the document. -/
def nodeModel : List String :=
  ["model Node \"Single bus node\"",
   "  outer TransiEnt.SimCenter simCenter;",
   "",
   "  final SI.PerUnit v_pu=v/v_n;",
   "  final SI.Voltage v(displayUnit=\"kV\") = epp.v;",
   "  final SI.Angle delta(displayUnit=\"deg\") = epp.delta;",
   "  final SI.Frequency f=epp.f;",
   "",
   "  parameter SI.Voltage v_n(displayUnit=\"kV\") = simCenter.v_n \"Nominal bus voltage\";",
   "  parameter SI.PerUnit v_pu_start=1 annotation (Dialog(group=\"Initialization\"));",
   "  parameter SI.Angle delta_start=0 annotation (Dialog(group=\"Initialization\"));",
   "",
   "  TransiEnt.Basics.Interfaces.Electrical.ComplexPowerPort epp(v(start=v_pu_start*v_n), delta(start=delta_start));",
   "equation",
   "  epp.P = 0;",
   "  epp.Q = 0;",
   "end Node;"]

/-- A bus: nominal voltage in kilovolt, magnitude and angle in the solved state, and
geographical position. -/
structure Bus where
  nominal : Binary64
  magnitude : Binary64
  angle : Binary64
  geo : Point

/-- A load or a generator at a bus, in megawatt and megavar. -/
structure Injection where
  bus : Nat
  active : Binary64
  reactive : Binary64

/-- A line between two buses, with its parameters per kilometre. -/
structure Line where
  source : Nat
  target : Nat
  kilometres : Binary64
  resistance : Binary64
  reactance : Binary64
  capacitance : Binary64
  current : Binary64
  parallel : Int

/-- A tap changer and its position. -/
structure Tap where
  lowSide : Bool
  position : Binary64
  neutral : Binary64
  stepPercent : Binary64

structure Transformer where
  highBus : Nat
  lowBus : Nat
  power : Binary64
  highVoltage : Binary64
  lowVoltage : Binary64
  shortCircuit : Binary64
  shortCircuitReal : Binary64
  ironLoss : Binary64
  noLoad : Binary64
  tap : Option Tap

def buses : List Bus :=
  [⟨20, 1, 0, ⟨0, 0⟩⟩,
   ⟨0.4, 0.998, -0.6, ⟨0, 1⟩⟩,
   ⟨0.4, 0.991, -1.2, ⟨1, 1⟩⟩,
   ⟨0.4, 0.985, -1.6, ⟨2, 1⟩⟩,
   ⟨0.4, 0.988, -1.4, ⟨1, 2⟩⟩]

def loads : List Injection :=
  [⟨2, 0.008, 0.002⟩, ⟨3, 0.012, 0.003⟩, ⟨4, 0.006, 0.0015⟩]

def generators : List Injection :=
  [⟨3, 0.01, 0⟩]

def gridLines : List Line :=
  [⟨1, 2, 0.1, 0.206, 0.08, 210, 0.27, 1⟩,
   ⟨2, 3, 0.12, 0.206, 0.08, 210, 0.27, 1⟩,
   ⟨2, 4, 0.08, 0.443, 0.069, 260, 0.142, 2⟩]

def transformers : List Transformer :=
  [⟨0, 1, 0.4, 20, 0.4, 6, 1.425, 1.35, 0.3375, some ⟨true, 1, 0, 2.5⟩⟩]

def frequency : Binary64 := 50

/-- The box with one more point in it. -/
def growBox (box : Box) (p : Point) : Box :=
  { lower := ⟨if p.x.less box.lower.x then p.x else box.lower.x,
              if p.y.less box.lower.y then p.y else box.lower.y⟩
    upper := ⟨if box.upper.x.less p.x then p.x else box.upper.x,
              if box.upper.y.less p.y then p.y else box.upper.y⟩ }

/-- The smallest box that holds the points, of which there should be some. -/
def boxAround (points : List Point) : Box :=
  let first := points.head?.getD ⟨0, 0⟩
  points.foldl growBox ⟨first, first⟩

/-- The positions of the buses in the diagram. -/
def positions : Except Error (List Point) :=
  let geo := buses.map Bus.geo
  (BoxMap.ofBoxes (boxAround geo) ⟨⟨-100, -100⟩, ⟨100, 100⟩⟩ (some .even)).map fun m =>
    geo.map m.apply

def busName (index : Nat) : String :=
  "bus_" ++ toString index

/-- The nominal voltage of a bus. -/
def nominalVoltage (bus : Nat) : Binary64 :=
  ((buses[bus]?).map Bus.nominal).getD 0

/-- The position of a bus among those given. -/
def positionOf (places : List Point) (bus : Nat) : Point :=
  (places[bus]?).getD ⟨0, 0⟩

/-- An icon between two buses. -/
def betweenBuses (places : List Point) (first second : Nat) : Placement :=
  .between (positionOf places first) (positionOf places second)

/-- The comment that opens a group of components. -/
def heading (title : String) : Script :=
  change (.addComment [title] .doc true .publicPart)

/-- Power that leaves the network at a bus, or enters it with a negative sign. -/
def addInjection (ident : String) (injection : Injection) (sign : Binary64) : Script := do
  declare "PQBoundary" ident
    { modifications := .ofList
        [("useInputConnectorP", .bool false),
         ("P_el_set_const", .assign (DisplayUnit.megawatt.quantity (sign * injection.active))),
         ("useInputConnectorQ", .bool false),
         ("Q_el_set_const", .assign (DisplayUnit.megavar.quantity (sign * injection.reactive))),
         ("useCosPhi", .bool false),
         ("v_n", .assign (DisplayUnit.kilovolt.quantity (nominalVoltage injection.bus)))] }
  connect [busName injection.bus, "epp", ident, "epp"]

def addBus (places : List Point) (index : Nat) (bus : Bus) : Script :=
  declare "Node" (busName index)
    { modifications := .ofList
        [("v_n", .assign (DisplayUnit.kilovolt.quantity bus.nominal)),
         ("v_pu_start", .real bus.magnitude),
         ("delta_start", .assign (DisplayUnit.degree.quantity bus.angle))]
      placement := some { origin := positionOf places index } }

def addSlack (bus : Bus) : Script := do
  declare "SlackBoundary" "ext_grid_0"
    { modifications := .ofList
        [("v_gen", .assign (DisplayUnit.kilovolt.quantity (bus.magnitude * bus.nominal))),
         ("delta_slackgen", .assign (DisplayUnit.degree.quantity bus.angle))] }
  connect ["ext_grid_0", "epp", busName 0, "epp"]

/-- The susceptance of a line per metre, from its capacitance in nanofarad per
kilometre. -/
def susceptance (line : Line) : Binary64 :=
  2 * DisplayUnit.pi * frequency * line.capacitance * 1e-9 / 1000

def addLine (places : List Point) (index : Nat) (line : Line) : Script := do
  let ident := "line_" ++ toString index
  declare "PiModelComplex" ident
    { modifications := .ofList
        [("l", .assign (DisplayUnit.kilometre.quantity line.kilometres)),
         ("p", .integer line.parallel),
         ("r_custom", .real (line.resistance / 1000)),
         ("x_custom", .real (line.reactance / 1000)),
         ("b_custom", .real (susceptance line)),
         ("i_n", .assign (DisplayUnit.kiloampere.quantity line.current))]
      placement := some (betweenBuses places line.source line.target) }
  connect [busName line.source, "epp", ident, "epp_p"]
  connect [busName line.target, "epp", ident, "epp_n"]

/-- The ratio that a tap changer sets. -/
def tapRatio (tap : Tap) : Binary64 :=
  let ratio := (tap.position - tap.neutral) * tap.stepPercent / 100 + 1
  if ratio.isNaN then 1 else ratio

/-- The modifications that describe a tap changer. -/
def tapEntries (tap : Tap) : List (String × Value) :=
  if tap.lowSide then
    [("isTapped", .bool true), ("tapLV", .bool true), ("ratio", .real (1 / tapRatio tap))]
  else [("isTapped", .bool true), ("ratio", .real (tapRatio tap))]

def addTransformer (places : List Point) (index : Nat) (t : Transformer) : Script := do
  let ident := "trafo_" ++ toString index
  declare "Transformer" ident
    { modifications := .ofList
        ([("S_n", .assign (DisplayUnit.megavoltampere.quantity t.power)),
          ("vn_hv", .assign (DisplayUnit.kilovolt.quantity t.highVoltage)),
          ("vn_lv", .assign (DisplayUnit.kilovolt.quantity t.lowVoltage)),
          ("vk", .real (t.shortCircuit / 100)),
          ("vk_r", .real (t.shortCircuitReal / 100)),
          ("P_Fe", .assign (DisplayUnit.kilowatt.quantity t.ironLoss)),
          ("i_0", .real (t.noLoad / 100))] ++ (t.tap.map tapEntries).getD [])
      placement := some (betweenBuses places t.highBus t.lowBus) }
  connect [ident, "epp_1", busName t.highBus, "epp"]
  connect [ident, "epp_2", busName t.lowBus, "epp"]

/-- The packages that the document uses. -/
def imports : Script := do
  importName "Modelica.Units.SI" .none
  importName "Modelica.ComplexMath" .none
  importName "TransiEnt.Components.Boundaries.Electrical.ComplexPower"
    (.list ["SlackBoundary", "PQBoundary"])
  importName "TransiEnt.Components.Electrical.Grid.PiModelComplex" .none
  importName "TransiEnt.Components.Electrical.PowerTransformation.TransformerPiModelComplex"
    (.shortName "Transformer")

/-- Low voltage feeder behind a distribution transformer. -/
def document : Except Error Document :=
  build { ident := "ElectricalGrid", description := some "An electric grid" } do
    imports
    each [("TransiEnt.SimCenter", "simCenter", (-80 : Binary64)),
          ("TransiEnt.ModelStatistics", "modelStatistics", -90)]
      fun (typeName, ident, x) =>
        declare typeName ident
          { flags := FlagSet.ofList [.inner], placement := some (.atPoint x 0) }
    change (.addText nodeModel true .publicPart)
    let places ← Edit.answer positions
    heading "Bus"
    eachIndexed buses (addBus places)
    heading "Load"
    eachIndexed loads fun index load => addInjection ("load_" ++ toString index) load 1
    heading "Sgen"
    eachIndexed generators fun index generator =>
      addInjection ("sgen_" ++ toString index) generator (-1)
    heading "Ext grid"
    each (buses.take 1) addSlack
    heading "Line"
    eachIndexed gridLines (addLine places)
    heading "Trafo"
    eachIndexed transformers (addTransformer places)

end ModelSource.Demo.ElectricalGrid

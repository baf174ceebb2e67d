import ModelSource.Demo.Script

/-!
# Heat conduction in a rod

A chain of equal elements between two fixed temperatures. The elements are placed
in a row after they have been connected.
-/

namespace ModelSource.Demo

/-- The model of one element of the rod. -/
def rodElement : List String :=
  ["model RodElement",
   "  SI.Temperature T annotation (Dialog(showStartAttribute=true));",
   "  parameter SI.HeatCapacity C = 1 \"Heat capacity\";",
   "  parameter SI.ThermalConductance G = 1 \"Thermal conductivity\";",
   "public",
   "  Modelica.Thermal.HeatTransfer.Interfaces.HeatPort_a port_a annotation (Placement(transformation(extent=\x7b\x7b-110,-10\x7d,\x7b-90,10\x7d\x7d)));",
   "  Modelica.Thermal.HeatTransfer.Interfaces.HeatPort_b port_b annotation (Placement(transformation(extent=\x7b\x7b90,-10\x7d,\x7b110,10\x7d\x7d)));",
   "  Modelica.Thermal.HeatTransfer.Components.ThermalConductor thermalConductor(G=2*G) annotation (Placement(transformation(extent=\x7b\x7b-60,-10\x7d,\x7b-40,10\x7d\x7d)));",
   "  Modelica.Thermal.HeatTransfer.Components.ThermalConductor thermalConductor1(G=2*G) annotation (Placement(transformation(extent=\x7b\x7b40,-10\x7d,\x7b60,10\x7d\x7d)));",
   "  Modelica.Thermal.HeatTransfer.Components.HeatCapacitor heatCapacitor(C=C) annotation (Placement(transformation(extent=\x7b\x7b-10,20\x7d,\x7b10,40\x7d\x7d)));",
   "equation",
   "  T = heatCapacitor.T;",
   "  connect(thermalConductor.port_a, port_a) annotation (Line(points=\x7b\x7b-60,0\x7d,\x7b-100,0\x7d\x7d, color=\x7b191,0,0\x7d));",
   "  connect(thermalConductor.port_b, thermalConductor1.port_a) annotation (Line(points=\x7b\x7b-40,0\x7d,\x7b40,0\x7d\x7d, color=\x7b191,0,0\x7d));",
   "  connect(port_b, thermalConductor1.port_b) annotation (Line(points=\x7b\x7b100,0\x7d,\x7b60,0\x7d\x7d, color=\x7b191,0,0\x7d));",
   "  connect(thermalConductor.port_b, heatCapacitor.port) annotation (Line(points=\x7b\x7b-40,0\x7d,\x7b0,0\x7d,\x7b0,20\x7d\x7d, color=\x7b191,0,0\x7d));",
   "  annotation (Icon(coordinateSystem(preserveAspectRatio=false)), Diagram(coordinateSystem(preserveAspectRatio=false)));",
   "end RodElement;"]

/-- What the documentation says about the rod. -/
def rodInfo : List String :=
  ["<html>",
   "<p>Simulation of a 1D rod that is kept at a fixed temperature at both sides. The initial temperature is zero. On simulation start the temperature of the left side is set to 150 °C.",
   "</p>",
   "<p>",
   "The rod comprises of 15 elements which are adjacently connected. Each represent a small portion of the rod with its heat equation dynamics.",
   "</p>",
   "</html>"]

/-- The name of an element, with a number of two digits. -/
def rodIdent (index : Nat) : String :=
  "dx" ++ (if index < 10 then "0" else "") ++ toString index

/-- The names of the elements in a row. -/
def rodIdents : List String :=
  (List.range 15).map rodIdent

/-- Connects each element to the next. -/
def connectChain : List String → Script
  | first :: second :: rest => do
    connect [first, "port_b", second, "port_a"]
    connectChain (second :: rest)
  | _ => pure ()

/-- One-dimensional heat conduction. -/
def hotRodDocument : Except Error Document :=
  build { ident := "HotRod" } do
    importName "Modelica.Thermal.HeatTransfer.Sources" .none
    change (.addText rodElement true .publicPart)
    each [("fixedTemperature1", "423.15", (-100 : Binary64)), ("fixedTemperature2", "273.15", 100)]
      fun (ident, temperature, x) =>
        declare "Sources.FixedTemperature" ident
          { modifications := .ofList [("T", .verbatim temperature)]
            placement := some (.atPoint x 0) }
    each rodIdents fun ident =>
      declare "RodElement" ident
        { modifications := .ofList
            [("T", .map (.ofList [("start", .verbatim "273.15"), ("fixed", .bool true)]))] }
    connect ["fixedTemperature1", "port", rodIdent 0, "port_a"]
    connect [rodIdent 14, "port_b", "fixedTemperature2", "port"]
    connectChain rodIdents
    eachIndexed rodIdents fun index ident => do
      let place := { Placement.atPoint (15 * .ofNat index - 90) 20 with size := 5 }
      let _ ← Document.editDeclaration ident (Attributes.setPlacement place)
    Document.setExperiment { stop := 30 }
    Document.addAnnotations ["Documentation"] false fun m =>
      (.ok (), m.set "info" (.quoted (String.intercalate "\n" rodInfo)))

end ModelSource.Demo

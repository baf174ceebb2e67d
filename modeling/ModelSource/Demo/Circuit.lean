import ModelSource.Demo.Script
import ModelSource.DisplayUnit

/-!
# A simple circuit

A voltage source, a resistor and a ground, placed and connected.
-/

namespace ModelSource.Demo

/-- The comment at the head of the file. -/
def circuitHeader : List String :=
  ["// This file was automatically generated", "// by modelwright", ""]

/-- Voltage source, resistor and ground. -/
def simpleCircuitDocument : Except Error Document :=
  build { ident := "SimpleCircuit" } do
    change (.addText circuitHeader false .publicPart)
    importName "Modelica.Electrical.Analog.Basic" (.list ["Ground", "Resistor"])
    importName "Modelica.Electrical.Analog.Sources.ConstantVoltage" .none
    change (.addComment ["The needed components"] .block true .publicPart)
    declare "ConstantVoltage" "source"
      { modifications := .ofList [("V", .assign (DisplayUnit.kilovolt.quantity 1))]
        placement := some { Placement.atPoint 0 0 with flip := some .horizontal } }
    declare "Ground" "ground" { placement := some (.atPoint 10 (-70)) }
    declare "Resistor" "resistor"
      { modifications := .ofList [("R", .integer 10)], placement := some (.atPoint 0 (-40)) }
    connect ["resistor", "p", "source", "n"]
    connect ["resistor", "n", "source", "p"]
    connect ["ground", "p", "resistor", "n"]

end ModelSource.Demo

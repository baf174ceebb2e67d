import ModelSource.Demo.Circuit
import ModelSource.Demo.ElectricalGrid
import ModelSource.Demo.Equations
import ModelSource.Demo.GasGrid
import ModelSource.Demo.Rod

/-!
# The bundled demos

Eight documents that show what can be built. Each has a name on the command line
and a line of help.
-/

namespace ModelSource

inductive Demo where
  | linearOde
  | nonlinearOde
  | lotkaVolterra
  | lorenz
  | simpleCircuit
  | hotRod
  | electricalGrid
  | gasGrid
deriving DecidableEq

namespace Demo

def all : List Demo :=
  [.linearOde, .nonlinearOde, .lotkaVolterra, .lorenz, .simpleCircuit, .hotRod, .electricalGrid,
   .gasGrid]

/-- The name on the command line. -/
def name : Demo → String
  | .linearOde => "linear-ode"
  | .nonlinearOde => "nonlinear-ode"
  | .lotkaVolterra => "lotka-volterra"
  | .lorenz => "lorenz"
  | .simpleCircuit => "simple-circuit"
  | .hotRod => "hot-rod"
  | .electricalGrid => "electrical-grid"
  | .gasGrid => "gas-grid"

/-- What the demo shows. -/
def help : Demo → String
  | .linearOde => "Exponential decay of a single state"
  | .nonlinearOde => "Damped pendulum"
  | .lotkaVolterra => "Predator and prey populations"
  | .lorenz => "Chaotic Lorenz system"
  | .simpleCircuit => "Voltage source, resistor and ground"
  | .hotRod => "One-dimensional heat conduction in a rod"
  | .electricalGrid => "Low voltage feeder behind a distribution transformer"
  | .gasGrid => "Gas pipes, junctions and consumers"

def ofName? (name : String) : Option Demo :=
  all.find? fun demo => demo.name == name

/-- The document of a demo. -/
def document : Demo → Except Error Document
  | .linearOde => Demo.linearOdeDocument
  | .nonlinearOde => Demo.nonlinearOdeDocument
  | .lotkaVolterra => Demo.lotkaVolterraDocument
  | .lorenz => Demo.lorenzDocument
  | .simpleCircuit => Demo.simpleCircuitDocument
  | .hotRod => Demo.hotRodDocument
  | .electricalGrid => ElectricalGrid.document
  | .gasGrid => GasGrid.document

end Demo

end ModelSource

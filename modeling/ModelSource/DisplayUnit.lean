import ModelSource.Value.Basic

/-!
# Quantities with a display unit

A quantity is stored in the base unit and carries the unit it was entered in, so
that tools can show it that way. Unless told otherwise it is written with nine
significant digits.
-/

namespace ModelSource

/-- A unit of display and its factor to the base unit. -/
structure DisplayUnit where
  symbol : String
  factor : Binary64
deriving DecidableEq

namespace DisplayUnit

/-- The significant digits of a quantity unless others are asked for. -/
def defaultPrecision : Nat := 9

/-- `x` of this unit, in the base unit, written with so many digits. -/
def quantityWith (unit : DisplayUnit) (x : Binary64) (digits : Nat) : Assign :=
  { Assign.ofScalar (.real (x * unit.factor)) with
    modifications := Modification.ofList [("displayUnit", .quoted unit.symbol)]
    precision := some digits }

/-- `x` of this unit, in the base unit. -/
def quantity (unit : DisplayUnit) (x : Binary64) : Assign :=
  unit.quantityWith x defaultPrecision

def kilo (symbol : String) : DisplayUnit := ⟨symbol, 1000⟩
def mega (symbol : String) : DisplayUnit := ⟨symbol, 1000000⟩

def kilometre : DisplayUnit := kilo "km"
def kilovolt : DisplayUnit := kilo "kV"
def kilowatt : DisplayUnit := kilo "kW"
def kilovar : DisplayUnit := kilo "kvar"
def kilovoltampere : DisplayUnit := kilo "kVA"
def kiloampere : DisplayUnit := kilo "kA"
def kilowattHour : DisplayUnit := kilo "kWh"
def megavolt : DisplayUnit := mega "MV"
def megawatt : DisplayUnit := mega "MW"
def megavar : DisplayUnit := mega "Mvar"
def megavoltampere : DisplayUnit := mega "MVA"
def megawattHour : DisplayUnit := mega "MWh"

/-- The double nearest to the circle number. -/
def pi : Binary64 := ⟨0x400921fb54442d18⟩

/-- Degrees of arc, in radians. -/
def degree : DisplayUnit := ⟨"deg", pi / 180⟩

end DisplayUnit

end ModelSource

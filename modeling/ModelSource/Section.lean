import ModelSource.Error

/-!
# Naming a section

A section is named by the words that open it, and by nothing else.
-/

namespace ModelSource.Section

/-- The section with this name. -/
def parse (name : String) : Except Error Section :=
  match ofKeyword? name with
  | some s => .ok s
  | none => .error (.unknownSection name)

end ModelSource.Section

import ModelSource.Value.Basic

/-!
# Paths into nested modifications

A path is a list of names, each of which leads into the map of an entry. `read`
follows a path through the maps that are there. `descend` follows it too, creates
an empty map for every name that is missing, and runs an edit on the map where
the path ends. Both refuse an entry that is not a map, and name the part of the
path that led to it.

A walk that had to create a map finds every later name missing, so a walk that
fails has created nothing.
-/

namespace ModelSource.Modification

/-- The map an entry leads into. A missing entry leads into the empty map; an
entry that is no map leads nowhere. -/
def mapAt (m : Modification) (name : String) : Except Shape Modification :=
  match m.get? name with
  | none => .ok ∅
  | some (.map inner) => .ok inner
  | some other => .error other.shape

/-- Walks on from the names in `walked`, creating maps, and edits the map at the
end of the path. -/
def descendFrom (walked : List String) (edit : Edit Modification α) :
    List String → Edit Modification α
  | [] => edit
  | name :: rest => fun m =>
    match m.mapAt name with
    | .ok inner =>
      let (result, inner) := descendFrom (walked ++ [name]) edit rest inner
      (result, m.set name (.map inner))
    | .error shape => (.error (.violation (.occupiedEntry (walked ++ [name]) shape)), m)

/-- Edits the map at the end of a path, creating the maps on the way. -/
def descend (path : List String) (edit : Edit Modification α) : Edit Modification α :=
  descendFrom [] edit path

/-- Walks on from the names in `walked` through the maps that are there. -/
def readFrom (walked : List String) : List String → Modification →
    Except Error (Option Modification)
  | [], m => .ok (some m)
  | name :: rest, m =>
    match m.get? name with
    | none => .ok none
    | some (.map inner) => readFrom (walked ++ [name]) rest inner
    | some other => .error (.violation (.entryNotMap (walked ++ [name]) other.shape))

/-- The map at the end of a path, if every name leads somewhere. -/
def read (m : Modification) (path : List String) : Except Error (Option Modification) :=
  readFrom [] path m

/-- Sets entries and answers with the map. -/
def putAll (entries : List (String × Value)) : Edit Modification Modification :=
  fun m => (.ok (m.setAll entries), m.setAll entries)

end ModelSource.Modification

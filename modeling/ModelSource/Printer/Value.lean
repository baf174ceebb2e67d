import ModelSource.Printout
import ModelSource.Value.Basic

/-!
# Printing modifications

A modification without entries prints nothing; one or two entries stand on one
line between parentheses; three or more stand on lines of their own, one level
deeper. An entry prints by the shape of its value. Lists follow the habits of
graphical annotations: the first item decides whether the list is one of records,
of rows or of literals, and the others have to agree with it.

All functions take the depth at which they print and the path of names that leads
to what they print, which is where a failure is reported.
-/

namespace ModelSource.Printer

open Printout

/-- The texts of literals, up to the first that has none. -/
def scalarTexts : List Scalar → Except Obstacle (List String)
  | [] => .ok []
  | scalar :: rest =>
    match scalar.text? none with
    | .error obstacle => .error obstacle
    | .ok text => (scalarTexts rest).map (text :: ·)

/-- Literals in braces. -/
def braced (separator : String) (texts : List String) : String :=
  "\x7b" ++ String.intercalate separator texts ++ "\x7d"

/-- The texts of items that all have to be literals. -/
def itemTexts : List Value → Except Obstacle (List String)
  | [] => .ok []
  | .scalar scalar :: rest =>
    match scalar.text? none with
    | .error obstacle => .error obstacle
    | .ok text => (itemTexts rest).map (text :: ·)
  | other :: _ => .error (.rowHolding other.shape)

/-- One row of a list of rows. -/
def rowText : Value → Except Obstacle String
  | .list items => (itemTexts items).map (braced ",")
  | .tuple scalars => (scalarTexts scalars).map (braced ",")
  | other => .error (.rowListHolding other.shape)

/-- The rows of a list of rows. -/
def rowTexts : List Value → Except Obstacle (List String)
  | [] => .ok []
  | item :: rest =>
    match rowText item with
    | .error obstacle => .error obstacle
    | .ok text => (rowTexts rest).map (text :: ·)

/-- How a list is laid out. -/
inductive ListLayout where
  /-- One record a line. -/
  | records
  /-- In braces on one line, if all its items can be. -/
  | flat (content : Except Obstacle String)

/-- The layout that the first item asks for. -/
def listLayout (items : List Value) : ListLayout :=
  match items.head? with
  | none => .flat (.ok (braced "" []))
  | some (.map _) => .records
  | some (.list _) | some (.tuple _) => .flat ((rowTexts items).map (braced ","))
  | some (.scalar _) => .flat ((itemTexts items).map (braced ","))
  | some (.assign _) => .flat (.error (.listOf .assign))

/-- The binding of a declaration. -/
def bindingText : Value → Except Obstacle String
  | .scalar scalar => scalar.text? none
  | .tuple scalars => (scalarTexts scalars).map (braced ", ")
  | .assign assignment =>
    match assignment.literal with
    | some scalar => scalar.text? assignment.precision
    | none => .error .missingLiteral
  | other => .error (.bindingOf other.shape)

/-- A description, quoted. -/
def description (d : Option String) : Printout :=
  optional (fun content => text " " ++ text (Text.quote content)) d

/-- Keywords, each followed by a blank. -/
def keywords : List String → Printout
  | [] => ∅
  | word :: rest => text word ++ text " " ++ keywords rest

/-- The sign before a literal: it stands apart from a map. -/
def equalSign (modifications : Modification) : String :=
  if modifications.isEmpty then "=" else " = "

/-- What separates an entry from the rest, if there is a rest. -/
def separator (rest : List α) (mark : Printout) : Printout :=
  if rest.isEmpty then ∅ else mark

/-- The path segment of an item. -/
def itemSegment (index : Nat) : String :=
  "[" ++ toString index ++ "]"

mutual

/-- A modification map. -/
def modification (depth : Nat) (path : List String) : Modification → Printout
  | ⟨entries⟩ =>
    match entries.length with
    | 0 => ∅
    | 1 | 2 => text "(" ++ inlineEntries depth path entries ++ text ")"
    | _ => text "(" ++ newline ++ lineEntries (depth + 1) path entries ++ text ")"

/-- Entries on one line. -/
def inlineEntries (depth : Nat) (path : List String) : List (String × Value) → Printout
  | [] => ∅
  | (key, value) :: rest =>
    entry depth (path ++ [key]) key value ++ separator rest (text ", ")
      ++ inlineEntries depth path rest

/-- Entries on lines of their own. -/
def lineEntries (depth : Nat) (path : List String) : List (String × Value) → Printout
  | [] => ∅
  | (key, value) :: rest =>
    indentTo depth ++ entry depth (path ++ [key]) key value
      ++ separator rest (text "," ++ newline) ++ lineEntries depth path rest

/-- An entry, whose path ends in its key. -/
def entry (depth : Nat) (path : List String) (key : String) : Value → Printout
  | .scalar scalar =>
    located depth path (scalar.text? none) fun content => text (key ++ "=" ++ content)
  | .tuple scalars =>
    located depth path ((scalarTexts scalars).map (braced ", ")) fun content =>
      text (key ++ "=" ++ content)
  | .map entries => text key ++ modification depth path entries
  | .assign assignment => assign depth path key assignment
  | .list items =>
    text key ++
      match listLayout items with
      | .records =>
        text "=\x7b" ++ newline ++ records (depth + 1) path 0 items ++ newline
          ++ indentTo depth ++ text "\x7d"
      | .flat content => located depth path content fun content => text ("=" ++ content)

/-- An assignment. -/
def assign (depth : Nat) (path : List String) (key : String) : Assign → Printout
  | ⟨literal, modifications, flags, about, annotations, typeName, precision⟩ =>
    orFail depth
        ((Assign.validate ⟨literal, modifications, flags, about, annotations, typeName,
          precision⟩).map fun _ => "") fun _ =>
      keywords flags.keywords ++ keywords typeName.toList ++ text key
        ++ modification depth path modifications
        ++ optional (fun scalar =>
            located depth path (scalar.text? precision) fun content =>
              text (equalSign modifications) ++ text content) literal
        ++ description about
        ++ (if annotations.isEmpty then ∅
            else text " annotation " ++ modification depth (path ++ ["annotation"]) annotations)

/-- The records of a list, the first of them at the given index. -/
def records (depth : Nat) (path : List String) (index : Nat) : List Value → Printout
  | [] => ∅
  | .map ⟨[(name, value)]⟩ :: rest =>
    indentTo depth ++ entry depth (path ++ [itemSegment index, name]) name value
      ++ separator rest (text "," ++ newline) ++ records depth path (index + 1) rest
  | .map entries :: _ => fail depth (.unsupported (.mapListEntries entries.size) path)
  | other :: _ => fail depth (.unsupported (.mapListHolding other.shape) path)

end

/-- Annotations at the end of a statement. -/
def annotationPart (depth : Nat) (path : List String) (annotations : Modification) : Printout :=
  if annotations.isEmpty then ∅
  else text " annotation " ++ modification depth (path ++ ["annotation"]) annotations

end ModelSource.Printer

import ModelSource.Number.Shortest

/-!
# JSON trees

Every node of a document can be dumped as a JSON tree. Objects keep their
members in the order given; numbers are written with the fewest digits that read
back, and those without digits become `null`.

There are two texts of one tree: `compact` without any blanks, and `pretty` with
two blanks per level, one member or item per line, and empty containers kept on
one line.
-/

namespace ModelSource

/-- A JSON tree with ordered members. -/
inductive Tree where
  | null
  | bool (value : Bool)
  | integer (value : Int)
  | real (value : Binary64)
  | text (value : String)
  | array (items : List Tree)
  | object (members : List (String × Tree))
deriving Inhabited

namespace Tree

/-- Numbers are positional from `0.00001` up to sixteen digits before the point;
an exponent always has a sign, and a tie goes to the even digit. -/
def numberStyle : NumberStyle :=
  { leastPlain := -5, plainBelow := 16, plusSign := true, tie := .toEven }

/-- A missing value is `null`. -/
def ofOption (f : α → Tree) : Option α → Tree
  | none => .null
  | some a => f a

def ofText (text : Option String) : Tree :=
  ofOption .text text

/-- One hexadecimal digit, in lower case. -/
def hexDigit (n : Nat) : Char :=
  if n < 10 then Char.ofNat (48 + n) else Char.ofNat (87 + n)

/-- A character inside a string: quotes, backslashes and the control characters
below the blank are escaped, everything else stands for itself. -/
def escapeChar (c : Char) : List Char :=
  if c = '"' then ['\\', '"']
  else if c = '\\' then ['\\', '\\']
  else if c = '\x08' then ['\\', 'b']
  else if c = '\x0c' then ['\\', 'f']
  else if c = '\n' then ['\\', 'n']
  else if c = '\r' then ['\\', 'r']
  else if c = '\t' then ['\\', 't']
  else if c.toNat < 0x20 then
    ['\\', 'u', '0', '0', hexDigit (c.toNat / 16), hexDigit (c.toNat % 16)]
  else [c]

/-- A JSON string. -/
def stringText (text : String) : String :=
  "\"" ++ String.ofList (text.toList.flatMap escapeChar) ++ "\""

/-- A JSON number, or `null` where there are no digits to write. -/
def numberText (x : Binary64) : String :=
  if x.isFinite then numberStyle.finiteText x else "null"

mutual

/-- The text without blanks. -/
def compact : Tree → String
  | .null => "null"
  | .bool value => if value then "true" else "false"
  | .integer value => toString value
  | .real value => numberText value
  | .text value => stringText value
  | .array items => "[" ++ String.intercalate "," (compactItems items) ++ "]"
  | .object members => "\x7b" ++ String.intercalate "," (compactMembers members) ++ "\x7d"

def compactItems : List Tree → List String
  | [] => []
  | item :: rest => item.compact :: compactItems rest

def compactMembers : List (String × Tree) → List String
  | [] => []
  | (key, value) :: rest => (stringText key ++ ":" ++ value.compact) :: compactMembers rest

end

/-- A line break and the indentation of a level. -/
def lineBreak (level : Nat) : String :=
  "\n" ++ String.ofList (List.replicate (2 * level) ' ')

/-- A container with one part per line. -/
def block (opening closing : String) (level : Nat) (parts : List String) : String :=
  if parts.isEmpty then opening ++ closing
  else
    opening ++ lineBreak (level + 1)
      ++ String.intercalate ("," ++ lineBreak (level + 1)) parts
      ++ lineBreak level ++ closing

mutual

/-- The text of a subtree that starts at the given level. -/
def prettyAt (level : Nat) : Tree → String
  | .array items => block "[" "]" level (prettyItems (level + 1) items)
  | .object members => block "\x7b" "\x7d" level (prettyMembers (level + 1) members)
  | .null => "null"
  | .bool value => if value then "true" else "false"
  | .integer value => toString value
  | .real value => numberText value
  | .text value => stringText value

def prettyItems (level : Nat) : List Tree → List String
  | [] => []
  | item :: rest => item.prettyAt level :: prettyItems level rest

def prettyMembers (level : Nat) : List (String × Tree) → List String
  | [] => []
  | (key, value) :: rest =>
    (stringText key ++ ": " ++ value.prettyAt level) :: prettyMembers level rest

end

/-- The text with one part per line. -/
def pretty (tree : Tree) : String :=
  tree.prettyAt 0

end Tree

end ModelSource

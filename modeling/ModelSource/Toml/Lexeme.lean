import ModelSource.Text.Blank

/-!
# Strings, integers and blanks of a settings file

Every reader takes the characters that are left and gives back what it read and
the rest, or nothing if its lexeme is not there. Strings come in four forms: with
escapes or without, on one line or on several.
-/

namespace ModelSource.Toml

/-- What a reader gives: a result and the rest of the input. -/
abbrev Read (α : Type) := Option (α × List Char)

/-- A blank within a line. -/
def isSpace (c : Char) : Bool :=
  c == ' ' || c == '\t'

def skipSpaces (input : List Char) : List Char :=
  input.dropWhile isSpace

/-- May stand in a comment or a string: no control character but the tabulator. -/
def isPrintable (c : Char) : Bool :=
  c == '\t' || decide (0x20 ≤ c.toNat ∧ c.toNat ≠ 0x7f)

/-- The end of a line, or of the file. -/
def lineEnd : List Char → Option (List Char)
  | [] => some []
  | '\n' :: rest => some rest
  | '\r' :: '\n' :: rest => some rest
  | _ => none

/-- Blanks, perhaps a comment, and the end of the line. -/
def restOfLine (input : List Char) : Option (List Char) :=
  match skipSpaces input with
  | '#' :: rest => lineEnd (rest.dropWhile isPrintable)
  | rest => lineEnd rest

/-- The value of a hexadecimal digit. -/
def hexValue? (c : Char) : Option Nat :=
  if c.isDigit then some (c.toNat - 48)
  else if decide ('a' ≤ c ∧ c ≤ 'f') then some (c.toNat - 87)
  else if decide ('A' ≤ c ∧ c ≤ 'F') then some (c.toNat - 55)
  else none

/-- The character with this hexadecimal number, if there is one. -/
def charOfHex? (digits : List Char) : Option Char :=
  match digits.mapM hexValue? with
  | none => none
  | some values =>
    let n := values.foldl (fun n v => 16 * n + v) 0
    if n.isValidChar then some (Char.ofNat n) else none

/-- Puts a character in front of what a reader gives. -/
def prepend (c : Char) : Read (List Char) → Read (List Char) :=
  Option.map fun (text, rest) => (c :: text, rest)

/-- Puts a character, if there is one, in front of what a reader gives. -/
def prepend? (c : Option Char) (r : Read (List Char)) : Read (List Char) :=
  match c with
  | some c => prepend c r
  | none => none

/-- The character that a short escape stands for. -/
def escape? : Char → Option Char
  | 'b' => some '\x08'
  | 't' => some '\t'
  | 'n' => some '\n'
  | 'f' => some '\x0c'
  | 'r' => some '\r'
  | 'e' => some '\x1b'
  | '"' => some '"'
  | '\\' => some '\\'
  | _ => none

/-- The rest of a one-line string with escapes. -/
def basicString : List Char → Read (List Char)
  | [] => none
  | '"' :: rest => some ([], rest)
  | '\\' :: 'x' :: a :: b :: rest => prepend? (charOfHex? [a, b]) (basicString rest)
  | '\\' :: 'u' :: a :: b :: c :: d :: rest =>
    prepend? (charOfHex? [a, b, c, d]) (basicString rest)
  | '\\' :: 'U' :: a :: b :: c :: d :: e :: f :: g :: h :: rest =>
    prepend? (charOfHex? [a, b, c, d, e, f, g, h]) (basicString rest)
  | '\\' :: c :: rest => prepend? (escape? c) (basicString rest)
  | c :: rest => if isPrintable c then prepend c (basicString rest) else none

/-- The rest of a one-line string without escapes. -/
def literalString : List Char → Read (List Char)
  | [] => none
  | '\'' :: rest => some ([], rest)
  | c :: rest => if isPrintable c then prepend c (literalString rest) else none

/-- Where a reader of a string of several lines stands: in the text, behind a
backslash that has to end its line, or in front of the text that goes on after
it. -/
inductive LineMode where
  | inText
  | afterBackslash
  | beforeText
deriving DecidableEq

/-- The rest of a string with escapes on several lines. A backslash at the end of a
line joins it to the next text. A carriage return stands only in front of a line
feed, and the two are one line break. -/
def multilineBasic : LineMode → List Char → Read (List Char)
  | _, [] => none
  | .inText, '\r' :: '\n' :: rest => prepend '\n' (multilineBasic .inText rest)
  | _, '\r' :: '\n' :: rest => multilineBasic .beforeText rest
  | .afterBackslash, c :: rest =>
    if c = '\n' then multilineBasic .beforeText rest
    else if isSpace c then multilineBasic .afterBackslash rest
    else none
  | _, '"' :: '"' :: '"' :: rest => some ([], rest)
  | _, '\\' :: 'x' :: a :: b :: rest =>
    prepend? (charOfHex? [a, b]) (multilineBasic .inText rest)
  | _, '\\' :: 'u' :: a :: b :: c :: d :: rest =>
    prepend? (charOfHex? [a, b, c, d]) (multilineBasic .inText rest)
  | _, '\\' :: 'U' :: a :: b :: c :: d :: e :: f :: g :: h :: rest =>
    prepend? (charOfHex? [a, b, c, d, e, f, g, h]) (multilineBasic .inText rest)
  | _, '\\' :: '\n' :: rest => multilineBasic .beforeText rest
  | _, '\\' :: '\r' :: '\n' :: rest => multilineBasic .beforeText rest
  | _, '\\' :: c :: rest =>
    if isSpace c then multilineBasic .afterBackslash rest
    else prepend? (escape? c) (multilineBasic .inText rest)
  | mode, c :: rest =>
    if mode = .beforeText ∧ (isSpace c ∨ c = '\n') then multilineBasic mode rest
    else if isPrintable c ∨ c = '\n' then prepend c (multilineBasic .inText rest)
    else none

/-- The rest of a string without escapes on several lines. -/
def multilineLiteral : List Char → Read (List Char)
  | [] => none
  | '\'' :: '\'' :: '\'' :: rest => some ([], rest)
  | c :: rest =>
    if isPrintable c ∨ c = '\n' then prepend c (multilineLiteral rest)
    else if c = '\r' ∧ rest.head? = some '\n' then multilineLiteral rest
    else none

/-- A line break right after the opening of a string does not count. -/
def skipFirstBreak (input : List Char) : List Char :=
  match input with
  | '\n' :: rest => rest
  | '\r' :: '\n' :: rest => rest
  | _ => input

/-- A string on one line. -/
def oneLineString : List Char → Read (List Char)
  | '"' :: rest => basicString rest
  | '\'' :: rest => literalString rest
  | _ => none

/-- A string of any form. -/
def anyString : List Char → Read (List Char)
  | '"' :: '"' :: '"' :: rest => multilineBasic .inText (skipFirstBreak rest)
  | '\'' :: '\'' :: '\'' :: rest => multilineLiteral (skipFirstBreak rest)
  | input => oneLineString input

/-- May stand in a key without quotes. -/
def isBareKey (c : Char) : Bool :=
  c.isAlphanum || c == '_' || c == '-'

/-- One name of a key. -/
def simpleKey (input : List Char) : Read String :=
  let bare := input.takeWhile isBareKey
  if bare.isEmpty then (oneLineString input).map fun (text, rest) => (String.ofList text, rest)
  else some (String.ofList bare, input.dropWhile isBareKey)

/-- May stand in a number, a date or a time. -/
def isNumberChar (c : Char) : Bool :=
  c.isAlphanum || c == '_' || c == '+' || c == '-' || c == '.' || c == ':'

/-- Digits of a base, in groups joined by single underscores. -/
def digitsValue? (base : Nat) (digits : List Char) : Option Nat :=
  let groups := Text.pieces (· == '_') digits
  if groups.any List.isEmpty then none
  else
    match groups.flatten.mapM hexValue? with
    | none => none
    | some values =>
      if values.all (· < base) then some (values.foldl (fun n v => base * n + v) 0) else none

/-- A decimal number has no leading zero. -/
def decimal? (digits : List Char) : Option Nat :=
  match digits with
  | '0' :: _ :: _ => none
  | _ => digitsValue? 10 digits

/-- An integer: decimal with or without a sign, or hexadecimal, octal or binary
without one. -/
def integer? : List Char → Option Int
  | '0' :: 'x' :: digits => (digitsValue? 16 digits).map Int.ofNat
  | '0' :: 'o' :: digits => (digitsValue? 8 digits).map Int.ofNat
  | '0' :: 'b' :: digits => (digitsValue? 2 digits).map Int.ofNat
  | '+' :: digits => (decimal? digits).map Int.ofNat
  | '-' :: digits => (decimal? digits).map fun n => -(n : Int)
  | digits => (decimal? digits).map Int.ofNat

end ModelSource.Toml

/-!
# Quoted strings

A string literal stands between double quotes; a quote or a backslash inside it
is preceded by a backslash, and every other character, line breaks included,
stands for itself. `read` is the reader of such literals: a backslash takes the
next character as it is, and the first quote without one closes the literal.
-/

namespace ModelSource.Text

/-- The characters that are written after a backslash. -/
def needsBackslash (c : Char) : Bool :=
  c == '"' || c == '\\'

/-- The body of a literal. -/
def escape : List Char → List Char
  | [] => []
  | c :: rest => if needsBackslash c then '\\' :: c :: escape rest else c :: escape rest

/-- The string literal of a text. -/
def quote (text : String) : String :=
  "\"" ++ String.ofList (escape text.toList) ++ "\""

/-- The rest of a literal whose opening quote has been read: its text, and what
follows the closing quote. -/
def readBody : List Char → Option (List Char × List Char)
  | [] => none
  | '"' :: rest => some ([], rest)
  | '\\' :: c :: rest => (readBody rest).map fun (body, after) => (c :: body, after)
  | c :: rest => (readBody rest).map fun (body, after) => (c :: body, after)

/-- A literal at the start of the input: its text, and what follows it. -/
def readQuoted : List Char → Option (List Char × List Char)
  | '"' :: rest => readBody rest
  | _ => none

end ModelSource.Text

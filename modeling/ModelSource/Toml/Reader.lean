import ModelSource.Toml.Lexeme
import ModelSource.Toml.Table

/-!
# Reading a settings file

A file is a sequence of lines: blank, a comment, the header of a table, or a key
with a value. Values may run over several lines; everything else ends with its
line. Between braces lines do not count: there may be line breaks and comments
anywhere but inside a key. The readers that call each other are given fuel, and the length of the file
is enough of it: each of them takes at least one character before the next.

Values that no option could take, such as fractions, dates, truth values and
arrays with items, are refused.
-/

namespace ModelSource.Toml

/-- A key: names joined by points. -/
def key : Nat → List Char → Read (List String)
  | 0, _ => none
  | fuel + 1, input =>
    match simpleKey (skipSpaces input) with
    | none => none
    | some (name, rest) =>
      match skipSpaces rest with
      | '.' :: more => (key fuel more).map fun (names, rest) => (name :: names, rest)
      | rest => some ([name], rest)

/-- Blanks, line breaks and comments inside brackets or braces. -/
def skipFiller : Nat → List Char → List Char
  | 0, input => input
  | fuel + 1, input =>
    match skipSpaces input with
    | '#' :: rest =>
      match lineEnd (rest.dropWhile isPrintable) with
      | some rest => skipFiller fuel rest
      | none => '#' :: rest
    | '\n' :: rest => skipFiller fuel rest
    | '\r' :: '\n' :: rest => skipFiller fuel rest
    | rest => rest

mutual

/-- A value. -/
def setting : Nat → List Char → Read Setting
  | 0, _ => none
  | fuel + 1, input =>
    match input with
    | [] => none
    | '\x7b' :: rest => (members fuel [] true rest).map fun (es, rest) => (.table .inlined es, rest)
    | '[' :: rest =>
      match skipFiller fuel rest with
      | ']' :: rest => some (.emptyArray, rest)
      | _ => none
    | c :: _ =>
      if c = '"' ∨ c = '\'' then
        (anyString input).map fun (text, rest) => (.text (String.ofList text), rest)
      else
        (integer? (input.takeWhile isNumberChar)).map fun n =>
          (.integer n, input.dropWhile isNumberChar)

/-- A key, an equals sign and a value, with what `skip` skips around the sign. -/
def pair (skip : List Char → List Char) : Nat → List Char → Read (List String × Setting)
  | 0, _ => none
  | fuel + 1, input =>
    match key fuel input with
    | some (path, rest) =>
      match skip rest with
      | '=' :: rest =>
        (setting fuel (skip rest)).map fun (value, rest) => ((path, value), rest)
      | _ => none
    | none => none

/-- The members of an inline table up to its closing brace; `fresh` when a member
may come, which is at the start and after a comma. -/
def members : Nat → Entries → Bool → List Char → Read Entries
  | 0, _, _, _ => none
  | fuel + 1, entries, fresh, input =>
    match skipFiller fuel input with
    | '\x7d' :: rest => some (entries, rest)
    | ',' :: rest => if fresh then none else members fuel entries true rest
    | rest =>
      if fresh then
        match pair (skipFiller fuel) fuel rest with
        | some ((path, value), rest) =>
          match Entries.insert value path entries with
          | some entries => members fuel entries false rest
          | none => none
        | none => none
      else none

end

/-- A line and those after it, under a header. -/
def fileLines : Nat → List String → Entries → List Char → Option Entries
  | 0, _, _, _ => none
  | fuel + 1, header, entries, input =>
    match skipSpaces input with
    | [] => some entries
    | '[' :: rest =>
      match key fuel rest with
      | some (path, ']' :: rest) =>
        match restOfLine rest, Entries.head path entries with
        | some rest, some entries => fileLines fuel path entries rest
        | _, _ => none
      | _ => none
    | input =>
      match restOfLine input with
      | some rest => fileLines fuel header entries rest
      | none =>
        match pair skipSpaces fuel input with
        | some ((path, value), rest) =>
          match restOfLine rest, Entries.insertUnder path value header entries with
          | some rest, some entries => fileLines fuel header entries rest
          | _, _ => none
        | none => none

/-- A byte-order mark at the start of a file does not count. -/
def skipMark (input : List Char) : List Char :=
  match input with
  | '\ufeff' :: rest => rest
  | _ => input

/-- The settings of a file. -/
def read (text : String) : Option Entries :=
  let input := skipMark text.toList
  fileLines (3 * input.length + 3) [] [] input

end ModelSource.Toml

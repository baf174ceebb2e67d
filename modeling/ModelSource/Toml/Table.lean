import ModelSource.Ordered

/-!
# Tables of settings

A settings file gives values to keys, and keys are grouped in tables. A table can
come about in four ways: under a header of its own, on the way to another
header, through a key with points in it, or inline between braces. Which of them
it was decides who may still add to it: a table is headed once, inline tables are
finished, and only a key with points adds to a table that such a key made.

Of all values that a settings file can hold only those are kept that some option
could take: integers, strings, tables and the empty array.
-/

namespace ModelSource.Toml

/-- How a table came about. -/
inductive Origin where
  /-- Under a header of its own. -/
  | headed
  /-- On the way to another header. -/
  | implied
  /-- Through a key with points. -/
  | dotted
  /-- Between braces. -/
  | inlined
deriving DecidableEq

inductive Setting where
  | integer (value : Int)
  | text (value : String)
  | emptyArray
  | table (origin : Origin) (entries : List (String × Setting))

/-- The entries of a table. -/
abbrev Entries := List (String × Setting)

namespace Entries

/-- Gives the key at the end of a path a value that it does not have yet. -/
def insert (value : Setting) : List String → Entries → Option Entries
  | [], _ => none
  | [key], entries =>
    match entries.lookup key with
    | none => some (Ordered.put key value entries)
    | some _ => none
  | key :: next :: rest, entries =>
    match entries.lookup key with
    | none =>
      (insert value (next :: rest) []).map fun inner =>
        Ordered.put key (.table .dotted inner) entries
    | some (.table .dotted inner) =>
      (insert value (next :: rest) inner).map fun inner =>
        Ordered.put key (.table .dotted inner) entries
    | some _ => none

/-- Heads the table at the end of a path. -/
def head : List String → Entries → Option Entries
  | [], _ => none
  | [key], entries =>
    match entries.lookup key with
    | none => some (Ordered.put key (.table .headed []) entries)
    | some (.table .implied inner) => some (Ordered.put key (.table .headed inner) entries)
    | some _ => none
  | key :: next :: rest, entries =>
    match entries.lookup key with
    | none =>
      (head (next :: rest) []).map fun inner => Ordered.put key (.table .implied inner) entries
    | some (.table .inlined _) => none
    | some (.table origin inner) =>
      (head (next :: rest) inner).map fun inner =>
        Ordered.put key (.table origin inner) entries
    | some _ => none

/-- Gives a key a value in the table that the header names. -/
def insertUnder (path : List String) (value : Setting) : List String → Entries → Option Entries
  | [], entries => insert value path entries
  | key :: rest, entries =>
    match entries.lookup key with
    | some (.table origin inner) =>
      (insertUnder path value rest inner).map fun inner =>
        Ordered.put key (.table origin inner) entries
    | _ => none

end Entries

end ModelSource.Toml

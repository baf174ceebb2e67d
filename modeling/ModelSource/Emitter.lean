/-!
# The emitter

An emitter collects text and knows two things about it: how deep the next line
is to be indented, and in which column it stands. The column is the number of
characters since the last line break and is kept as text comes in, whether or not
that text holds line breaks of its own.

Depths and columns are counted in naturals. What is meant are counts below `2 ^ 64`:
the depth at the start plus the levels that are open at the same time is less than
that, and so is the length of every line. The emitter does not check it.
-/

namespace ModelSource

/-- What one level of indentation is made of. -/
inductive Indent where
  | spaces (count : Nat)
  | tab
deriving DecidableEq

namespace Indent

/-- Two blanks, as is usual for models. -/
def standard : Indent :=
  .spaces 2

/-- The text of one level. -/
def unit : Indent → String
  | .spaces count => String.ofList (List.replicate count ' ')
  | .tab => "\t"

theorem unit_unbroken (indent : Indent) : '\n' ∉ indent.unit.toList := by
  cases indent with
  | spaces count => simp [unit, List.mem_replicate]
  | tab => decide

end Indent

/-- What stands behind the last line break of a text, if it has one. -/
def behindBreak? : List Char → Option (List Char)
  | [] => none
  | c :: rest =>
    match behindBreak? rest with
    | some behind => some behind
    | none => if c = '\n' then some rest else none

structure Emitter where
  unit : String
  /-- The depth of the next line, which is meant to stay below `2 ^ 64`. -/
  depth : Nat
  buffer : String := ""
  column : Nat := 0
  /-- A level of indentation does not end the line. -/
  unbroken : '\n' ∉ unit.toList

namespace Emitter

/-- An emitter without text. -/
def start (indent : Indent) (depth : Nat) : Emitter :=
  { unit := indent.unit, depth, unbroken := indent.unit_unbroken }

/-- Adds text as it is. -/
def write (e : Emitter) (text : String) : Emitter :=
  { e with
    buffer := e.buffer ++ text
    column :=
      match behindBreak? text.toList with
      | some behind => behind.length
      | none => e.column + text.length }

/-- Adds levels of indentation, one after the other. -/
def writeLevels (e : Emitter) : Nat → Emitter
  | 0 => e
  | levels + 1 =>
    writeLevels { e with buffer := e.buffer ++ e.unit, column := e.column + e.unit.length } levels

/-- Adds the indentation of the current depth. -/
def writeIndent (e : Emitter) : Emitter :=
  e.writeLevels e.depth

/-- Ends the line. -/
def newline (e : Emitter) : Emitter :=
  e.write "\n"

/-- Adds a line at the current depth. -/
def line (e : Emitter) (text : String) : Emitter :=
  (e.writeIndent.write text).newline

/-- One level deeper. -/
def indent (e : Emitter) : Emitter :=
  { e with depth := e.depth + 1 }

/-- One level less, but not above the outermost. -/
def dedent (e : Emitter) : Emitter :=
  { e with depth := e.depth - 1 }

end Emitter

end ModelSource

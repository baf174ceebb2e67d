import ModelSource.Emitter
import ModelSource.Error

/-!
# Printouts

A printout is what a node prints, before anyone has decided how wide a level of
indentation is: a list of pieces, each of them text or the indentation of a depth
counted from where the node stands. Printing can fail; a printout then ends with
the fault, and the pieces are what was printed up to it. The fault remembers the
depth at which it happened.

Printouts are put together with `++`, which adds nothing after a fault. Nodes are not
printed from them but written with a pen; a printout says what comes of that.
-/

namespace ModelSource

/-- A piece of output. -/
inductive Piece where
  | text (text : String)
  /-- The indentation of a line, at a depth relative to the node's own. -/
  | indent (depth : Nat)
deriving DecidableEq

/-- Why printing ended early, and how deep. -/
structure Fault where
  error : Error
  depth : Nat
deriving DecidableEq

structure Printout where
  pieces : List Piece
  fault : Option Fault
deriving DecidableEq

namespace Printout

/-- Nothing is printed. -/
def nothing : Printout :=
  ⟨[], none⟩

/-- What follows a fault is not printed. -/
def append (first second : Printout) : Printout :=
  match first.fault with
  | none => ⟨first.pieces ++ second.pieces, second.fault⟩
  | some _ => first

instance : Append Printout := ⟨append⟩
instance : EmptyCollection Printout := ⟨nothing⟩

protected theorem empty_append (p : Printout) : ∅ ++ p = p :=
  rfl

protected theorem append_assoc (p q r : Printout) : p ++ q ++ r = p ++ (q ++ r) := by
  obtain ⟨pieces, fault⟩ := p
  cases fault with
  | some fault => rfl
  | none =>
      obtain ⟨more, fault⟩ := q
      cases fault with
      | some fault => rfl
      | none => exact congrArg (Printout.mk · _) (List.append_assoc ..)

def text (text : String) : Printout :=
  ⟨[.text text], none⟩

def indentTo (depth : Nat) : Printout :=
  ⟨[.indent depth], none⟩

def newline : Printout :=
  text "\n"

/-- A whole line at a depth. -/
def line (depth : Nat) (content : String) : Printout :=
  indentTo depth ++ text content ++ newline

/-- Printing ends here. -/
def fail (depth : Nat) (error : Error) : Printout :=
  ⟨[], some ⟨error, depth⟩⟩

/-- Goes on with a text, or fails at the path where it should have stood. -/
def located (depth : Nat) (path : List String) (content : Except Obstacle String)
    (next : String → Printout) : Printout :=
  match content with
  | .ok content => next content
  | .error obstacle => fail depth (.unsupported obstacle path)

/-- Goes on with a text, or fails. -/
def orFail (depth : Nat) (content : Except Error String) (next : String → Printout) : Printout :=
  match content with
  | .ok content => next content
  | .error e => fail depth e

/-- A text that may be absent. -/
def optional (f : α → Printout) : Option α → Printout
  | some a => f a
  | none => nothing

end Printout

/-- The text of a number of levels. -/
def indentation (unit : String) : Nat → String
  | 0 => ""
  | levels + 1 => unit ++ indentation unit levels

namespace Piece

/-- A piece as text, for a node that stands at depth `start`. -/
def write (unit : String) (start : Nat) : Piece → String
  | .text content => content
  | .indent depth => indentation unit (start + depth)

end Piece

end ModelSource

import ModelSource.Pen.Document

/-!
# Rendering

`render` is the text of a node under given options, or the error that keeps it
from having one; nothing partial comes out. `Emitter.printNode` is the same for a
run of nodes into one text, where a failure is noted and the run goes on.

A node is written with a pen. `Node.printout` says what it writes without one, as a
value that can be taken apart and compared, and no options have a part in it.
-/

namespace ModelSource

/-- How nodes are laid out. -/
structure RenderOptions where
  indent : Indent := .standard
  /-- The depth of the outermost line. With the levels that the node adds to it, it is
  meant to stay below `2 ^ 64`. -/
  startIndent : Nat := 0
  /-- The preferred line width. Lines are never broken, so it has no effect. -/
  width : Nat := 80
deriving DecidableEq

/-- Anything that has source text. -/
inductive Node where
  | document (document : Document)
  | element (element : Element)
  | clause (clause : Clause)
  | modification (modification : Modification)

/-- What the node prints where it stands. -/
def Node.printout : Node → Printout
  | .document d => Printer.document 0 [] d
  | .element e => Printer.element 0 [] e
  | .clause c => Printer.clause 0 [] c
  | .modification m => Printer.modification 0 [] m

/-- Writes the node where the pen stands. -/
def Pen.node : Node → Edit Pen Unit
  | .document d => document d
  | .element e => element e
  | .clause c => clause c
  | .modification m => modification m

/-- Adds a node at the current depth. -/
def Emitter.printNode (e : Emitter) (node : Node) : Except Error Unit × Emitter :=
  let (result, pen) := Pen.node node { emitter := e }
  (result, pen.emitter)

/-- The source text of a node. -/
def render (options : RenderOptions) (node : Node) : Except Error String :=
  match (Emitter.start options.indent options.startIndent).printNode node with
  | (.ok (), e) => .ok e.buffer
  | (.error e, _) => .error e

end ModelSource

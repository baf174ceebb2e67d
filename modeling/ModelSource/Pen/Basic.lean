import ModelSource.Emitter
import ModelSource.Error

/-!
# The pen

Nodes are printed with a pen. It holds the emitter that the text goes to, and the path of
names that leads to what is being printed, by which a value without source text is
reported. Printing moves both: it goes deeper and comes back, and it adds a name to the
path and takes it off again. A failure ends printing where it happens. The path is then
still taken back, name by name; the depth is not.
-/

namespace ModelSource

structure Pen where
  emitter : Emitter
  path : List String := []

namespace Pen

/-- Has the emitter do something. -/
def emit (call : Emitter → Emitter) : Edit Pen Unit :=
  fun pen => (.ok (), { pen with emitter := call pen.emitter })

def write (text : String) : Edit Pen Unit :=
  emit fun e => e.write text

def writeIndent : Edit Pen Unit :=
  emit Emitter.writeIndent

def newline : Edit Pen Unit :=
  emit Emitter.newline

def line (text : String) : Edit Pen Unit :=
  emit fun e => e.line text

/-- An action one level deeper. -/
def nested (action : Edit Pen Unit) : Edit Pen Unit := do
  emit Emitter.indent
  action
  emit Emitter.dedent

/-- An action one level up from where the pen stands. -/
def outdented (action : Edit Pen Unit) : Edit Pen Unit := do
  emit Emitter.dedent
  action
  emit Emitter.indent

/-- An action at one more name of the path. -/
def under (segment : String) (action : Edit Pen α) : Edit Pen α :=
  fun pen =>
    let (result, after) := action { pen with path := pen.path ++ [segment] }
    (result, { after with path := after.path.dropLast })

/-- Reports a value that has no source text. -/
def unsupported (obstacle : Obstacle) : Edit Pen α :=
  fun pen => (.error (.unsupported obstacle pen.path), pen)

/-- The source text of a value. -/
def located : Except Obstacle String → Edit Pen String
  | .ok content => pure content
  | .error obstacle => unsupported obstacle

/-- An action that is only done where it is needed. -/
def only (needed : Prop) [Decidable needed] (action : Edit Pen Unit) : Edit Pen Unit :=
  if needed then action else pure ()

/-- An action for something that may be absent. -/
def optional (action : α → Edit Pen Unit) : Option α → Edit Pen Unit
  | some a => action a
  | none => pure ()

end Pen

end ModelSource

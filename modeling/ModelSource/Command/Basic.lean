import ModelSource.Demo
import ModelSource.Options

/-!
# The commands

The program lists its demos, prints one, saves one into a package folder, prints
the tree of one or writes a completion script for a shell. Arguments that do not
make a command are a usage error of one of eleven kinds, two of which are merely
a call for help or for the version.
-/

namespace ModelSource

/-- Why arguments do not make a command. -/
inductive UsageError where
  | displayHelp
  | displayVersion
  /-- There were no arguments at all. -/
  | displayHelpOnNothing
  | invalidSubcommand
  | missingSubcommand
  | missingRequired
  | invalidValue
  /-- A number that is none or is out of range. -/
  | valueValidation
  | unknownArgument
  /-- Options that exclude each other, or one that was given twice. -/
  | argumentConflict
  /-- A value for an option that takes none. -/
  | tooManyValues
deriving DecidableEq

/-- A shell that has completion scripts. -/
inductive Shell where
  | bash
  | elvish
  | fish
  | powershell
  | zsh
deriving DecidableEq

namespace Shell

def all : List Shell :=
  [.bash, .elvish, .fish, .powershell, .zsh]

def name : Shell → String
  | .bash => "bash"
  | .elvish => "elvish"
  | .fish => "fish"
  | .powershell => "powershell"
  | .zsh => "zsh"

def ofName? (name : String) : Option Shell :=
  all.find? fun shell => shell.name == name

end Shell

/-- How a demo is to be printed. -/
structure RenderRequest where
  demo : Demo
  /-- The options file. -/
  config : Option String
  indent : Option Nat
  tabs : Bool
  startIndent : Option Nat
  width : Option Nat
  drawConnections : Bool
deriving DecidableEq

/-- How a demo is to be saved. -/
structure SaveRequest where
  demo : Demo
  folder : String
  drawConnections : Bool
deriving DecidableEq

inductive Command where
  | list
  | render (request : RenderRequest)
  | save (request : SaveRequest)
  | tree (demo : Demo)
  | completions (shell : Shell)
deriving DecidableEq

/-- A command and how much is to be logged. -/
structure Invocation where
  command : Command
  verbosity : Nat
deriving DecidableEq

end ModelSource

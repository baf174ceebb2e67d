import ModelSource.Command.Basic

/-!
# Reading arguments

Arguments are read from left to right. A word is a subcommand, then the
subcommand's own word; everything that starts with a dash is an option, until two
dashes alone end the options. An option with a value takes it from behind an
equals sign, from the rest of a cluster of short options, or from the next
argument that is not an option.

A value is only looked at when the next argument settles that it is complete. So
of two mistakes the one that is noticed first need not stand first: an unknown
option behind a bad value is reported, and a bad value in front of a known option
is.
-/

namespace ModelSource

/-- An option of some command. -/
inductive CommandOption where
  | help
  | version
  | verbose
  | tabs
  | drawConnections
  | config
  | indent
  | startIndent
  | width
  | dir
deriving DecidableEq

namespace CommandOption

def long : CommandOption → String
  | .help => "help"
  | .version => "version"
  | .verbose => "verbose"
  | .tabs => "tabs"
  | .drawConnections => "draw-connections"
  | .config => "config"
  | .indent => "indent"
  | .startIndent => "start-indent"
  | .width => "width"
  | .dir => "dir"

def short? : CommandOption → Option Char
  | .help => some 'h'
  | .version => some 'V'
  | .verbose => some 'v'
  | .config => some 'c'
  | .dir => some 'd'
  | .tabs | .drawConnections | .indent | .startIndent | .width => none

def takesValue : CommandOption → Bool
  | .config | .indent | .startIndent | .width | .dir => true
  | .help | .version | .verbose | .tabs | .drawConnections => false

end CommandOption

inductive Subcommand where
  | list
  | render
  | save
  | tree
  | completions
deriving DecidableEq

namespace Subcommand

def all : List Subcommand :=
  [.list, .render, .save, .tree, .completions]

def name : Subcommand → String
  | .list => "list"
  | .render => "render"
  | .save => "save"
  | .tree => "tree"
  | .completions => "completions"

def ofName? (name : String) : Option Subcommand :=
  all.find? fun s => s.name == name

/-- The options that may follow the subcommand. -/
def options : Subcommand → List CommandOption
  | .render =>
    [.help, .verbose, .config, .indent, .tabs, .startIndent, .width, .drawConnections]
  | .save => [.help, .verbose, .dir, .drawConnections]
  | .list | .tree | .completions => [.help, .verbose]

/-- The subcommand needs one word. -/
def needsWord : Subcommand → Bool
  | .list => false
  | .render | .save | .tree | .completions => true

end Subcommand

/-- What the arguments have given so far. -/
structure Given where
  demo : Option Demo := none
  shell : Option Shell := none
  config : Option String := none
  indent : Option Nat := none
  startIndent : Option Nat := none
  width : Option Nat := none
  dir : Option String := none
  tabs : Bool := false
  drawConnections : Bool := false
  verbosity : Nat := 0

/-- Something whose value is not complete. -/
inductive Unsettled where
  | option (o : CommandOption) (value : Option String)
  | word (value : String)

/-- Where the reader of arguments stands. -/
structure ArgumentState where
  given : Given := {}
  unsettled : Option Unsettled := none
  /-- The next argument that is no option is the value of the unsettled one. -/
  awaiting : Bool := false
  /-- The subcommand's word has come. -/
  wordSeen : Bool := false
  /-- The options have been ended. -/
  ended : Bool := false

namespace Arguments

/-- The natural number that decimal digits make. -/
def digits? (digits : List Char) : Option Nat :=
  if digits.isEmpty ∨ !digits.all Char.isDigit then none else some (Nat.ofDigitChars 10 digits 0)

/-- The natural number of a text; a plus sign may stand in front. -/
def natural? (text : String) : Option Nat :=
  match text.toList with
  | '+' :: rest => digits? rest
  | digits => digits? digits

/-- The integer of a text; either sign may stand in front. -/
def integer? (text : String) : Option Int :=
  match text.toList with
  | '-' :: rest => (digits? rest).map fun n => -(n : Int)
  | _ => (natural? text).map fun n => (n : Int)

/-- The greatest number of levels or columns. -/
def greatestCount : Nat :=
  Nat.pow 2 64 - 1

/-- A number of levels or columns. It has no minus sign, not even as a zero. -/
def count (text : String) : Except UsageError Nat :=
  match natural? text with
  | some n => if n ≤ greatestCount then .ok n else .error .valueValidation
  | none => .error .valueValidation

/-- The width of one level, at most 255 blanks. It is read as an integer, so a zero
may have either sign. -/
def levelWidth (text : String) : Except UsageError Nat :=
  match integer? text with
  | some n => if 0 ≤ n ∧ n ≤ 255 then .ok n.toNat else .error .valueValidation
  | none => .error .valueValidation

/-- A path, which must not be empty. -/
def path (text : String) : Except UsageError String :=
  if text.isEmpty then .error .invalidValue else .ok text

/-- The option has been given before, and must not be again. -/
def repeated (g : Given) : CommandOption → Bool
  | .tabs => g.tabs
  | .drawConnections => g.drawConnections
  | .config => g.config.isSome
  | .indent => g.indent.isSome
  | .startIndent => g.startIndent.isSome
  | .width => g.width.isSome
  | .dir => g.dir.isSome
  | .help | .version | .verbose => false

/-- Takes an option that has no value. -/
def takeFlag (g : Given) (o : CommandOption) : Except UsageError Given :=
  if repeated g o then .error .argumentConflict
  else
    match o with
    | .help => .error .displayHelp
    | .version => .error .displayVersion
    | .verbose => .ok { g with verbosity := min 255 (g.verbosity + 1) }
    | .tabs => .ok { g with tabs := true }
    | .drawConnections => .ok { g with drawConnections := true }
    | .config | .indent | .startIndent | .width | .dir => .error .invalidValue

/-- Takes an option with its value. -/
def takeValue (g : Given) (o : CommandOption) (value : String) : Except UsageError Given :=
  if repeated g o then .error .argumentConflict
  else
    match o with
    | .config => (path value).map fun config => { g with config := some config }
    | .dir => (path value).map fun dir => { g with dir := some dir }
    | .indent => (levelWidth value).map fun n => { g with indent := some n }
    | .startIndent => (count value).map fun n => { g with startIndent := some n }
    | .width => (count value).map fun n => { g with width := some n }
    | .help | .version | .verbose | .tabs | .drawConnections => .error .tooManyValues

/-- Takes the word of a subcommand. -/
def takeWord (g : Given) (command : Subcommand) (word : String) : Except UsageError Given :=
  match command with
  | .completions =>
    match Shell.ofName? word with
    | some shell => .ok { g with shell := some shell }
    | none => .error .invalidValue
  | .list | .render | .save | .tree =>
    match Demo.ofName? word with
    | some demo => .ok { g with demo := some demo }
    | none => .error .invalidValue

/-- Settles what is unsettled. -/
def settle (command : Subcommand) (st : ArgumentState) : Except UsageError ArgumentState :=
  let taken : Except UsageError Given := match st.unsettled with
    | none => .ok st.given
    | some (.word word) => takeWord st.given command word
    | some (.option _ none) => .error .invalidValue
    | some (.option o (some value)) => takeValue st.given o value
  taken.map fun given => { st with given, unsettled := none, awaiting := false }

/-- A short or long option without a value behind it: it is complete, or its value
is still to come. -/
def takeOption (command : Subcommand) (st : ArgumentState) (o : CommandOption) :
    Except UsageError ArgumentState :=
  match settle command st with
  | .error e => .error e
  | .ok st =>
    if o.takesValue then .ok { st with unsettled := some (.option o none), awaiting := true }
    else (takeFlag st.given o).map fun given => { st with given }

/-- An option with a value attached to it. -/
def takeAttached (command : Subcommand) (st : ArgumentState) (o : CommandOption)
    (value : String) : Except UsageError ArgumentState :=
  if o.takesValue then
    match settle command st with
    | .error e => .error e
    | .ok st => (takeValue st.given o value).map fun given => { st with given }
  else .error .tooManyValues

/-- A long option, after its dashes. -/
def takeLong (options : List CommandOption) (command : Subcommand) (st : ArgumentState)
    (text : List Char) : Except UsageError ArgumentState :=
  let name := String.ofList (text.takeWhile (· != '='))
  match options.find? fun o => o.long == name with
  | none => .error .unknownArgument
  | some o =>
    match text.dropWhile (· != '=') with
    | [] => takeOption command st o
    | _ :: value => takeAttached command st o (String.ofList value)

/-- A cluster of short options, after its dash. The first that takes a value takes
the rest of the cluster, an equals sign aside. -/
def takeShorts (options : List CommandOption) (command : Subcommand) (st : ArgumentState) :
    List Char → Except UsageError ArgumentState
  | [] => .ok st
  | c :: rest =>
    match options.find? fun o => o.short? == some c with
    | none => .error .unknownArgument
    | some o =>
      if o.takesValue ∧ rest ≠ [] then
        takeAttached command st o (String.ofList (if rest.head? = some '=' then rest.tail else rest))
      else
        match takeOption command st o with
        | .error e => .error e
        | .ok st => takeShorts options command st rest

/-- What an argument looks like while options are read. -/
inductive Look where
  | endOfOptions
  | long (text : List Char)
  | shorts (text : List Char)
  | word

def lookOf (argument : String) : Look :=
  match argument.toList with
  | ['-', '-'] => .endOfOptions
  | '-' :: '-' :: text => .long text
  | '-' :: c :: text => .shorts (c :: text)
  | _ => .word

/-- A word of a subcommand: the value that is awaited, or the one word it needs. -/
def takeArgument (command : Subcommand) (st : ArgumentState) (argument : String) :
    Except UsageError ArgumentState :=
  match st.unsettled, st.awaiting && !st.ended with
  | some (.option o none), true =>
    .ok { st with unsettled := some (.option o (some argument)), awaiting := false }
  | _, _ =>
    if command.needsWord ∧ !st.wordSeen then
      (settle command st).map fun st =>
        { st with unsettled := some (.word argument), wordSeen := true }
    else .error .unknownArgument

/-- One argument behind a subcommand. -/
def step (command : Subcommand) (st : ArgumentState) (argument : String) :
    Except UsageError ArgumentState :=
  if st.ended then takeArgument command st argument
  else
    match lookOf argument with
    | .endOfOptions => .ok { st with ended := true }
    | .long text => takeLong command.options command st text
    | .shorts text => takeShorts command.options command st text
    | .word => takeArgument command st argument

/-- All arguments behind a subcommand. -/
def steps (command : Subcommand) : ArgumentState → List String → Except UsageError Given
  | st, [] => (settle command st).map ArgumentState.given
  | st, argument :: rest =>
    match step command st argument with
    | .error e => .error e
    | .ok st => steps command st rest

/-- The command that was asked for. -/
def finish (command : Subcommand) (g : Given) : Except UsageError Command :=
  if g.indent.isSome ∧ g.tabs then .error .argumentConflict
  else
    match command, g.demo, g.shell with
    | .list, _, _ => .ok .list
    | .completions, _, some shell => .ok (.completions shell)
    | .render, some demo, _ =>
      .ok (.render
        { demo, config := g.config, indent := g.indent, tabs := g.tabs,
          startIndent := g.startIndent, width := g.width, drawConnections := g.drawConnections })
    | .save, some demo, _ =>
      .ok (.save { demo, folder := g.dir.getD ".", drawConnections := g.drawConnections })
    | .tree, some demo, _ => .ok (.tree demo)
    | _, _, _ => .error .missingRequired

/-- A subcommand and what follows it. The verbosity given last, behind the
subcommand or else in front of it, counts. -/
def subcommand (command : Subcommand) (verbosity : Nat) (arguments : List String) :
    Except UsageError Invocation :=
  match steps command {} arguments with
  | .error e => .error e
  | .ok g =>
    (finish command g).map fun command =>
      { command, verbosity := if g.verbosity = 0 then verbosity else g.verbosity }

/-- The word is a subcommand, or the request for help that looks like one. -/
def isCommandWord (word : String) : Bool :=
  word == "help" || (Subcommand.ofName? word).isSome

/-- A request for help, about a subcommand or about the program. -/
def helpRequest : List String → UsageError
  | [] => .displayHelp
  | [word] => if isCommandWord word then .displayHelp else .invalidSubcommand
  | _ => .invalidSubcommand

/-- The options in front of a subcommand. -/
def topOptions : List CommandOption :=
  [.help, .version, .verbose]

/-- All arguments, from the start. -/
def parseFrom (st : ArgumentState) : List String → Except UsageError Invocation
  | [] =>
    .error (if st.given.verbosity = 0 then .displayHelpOnNothing else .missingSubcommand)
  | argument :: rest =>
    if st.ended then
      .error (if isCommandWord argument then .unknownArgument else .invalidSubcommand)
    else
      match Subcommand.ofName? argument with
      | some command => subcommand command st.given.verbosity rest
      | none =>
        if argument = "help" then .error (helpRequest rest)
        else
          let next : Except UsageError ArgumentState := match lookOf argument with
            | .endOfOptions => .ok { st with ended := true }
            | .long text => takeLong topOptions .list st text
            | .shorts text => takeShorts topOptions .list st text
            | .word => .error .invalidSubcommand
          match next with
          | .error e => .error e
          | .ok st => parseFrom st rest

/-- The command that arguments make. -/
def parse (arguments : List String) : Except UsageError Invocation :=
  parseFrom {} arguments

end Arguments

end ModelSource

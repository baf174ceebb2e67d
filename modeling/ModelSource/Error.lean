import ModelSource.Kind
import ModelSource.Number.Shortest
import ModelSource.Section.Basic

/-!
# What can go wrong

An error is its cause. Seven kinds of mistake are told apart, two of which have
many causes of their own: a rule of the model that a call would break
(`Violation`), and a value that has no source text (`Obstacle`). The wording of
all of them is in `message` and nowhere else.
-/

namespace ModelSource

/-- A rule of the model that a call would break. -/
inductive Violation where
  /-- A walk that creates maps met an entry that is no map. -/
  | occupiedEntry (path : List String) (shape : Shape)
  /-- A walk that reads maps met an entry that is no map. -/
  | entryNotMap (path : List String) (shape : Shape)
  | typeWithoutRedeclare (typeName : String)
  | notExpressionConstruct (held : BodyKind)
  | incompleteIfExpression
  | callUnavailable (call : String) (kind : ConstructKind)
  | branchAfterElse (kind : ConstructKind)
  | expressionBody (kind : ConstructKind)
  | declarationOutside (ident : String) (target : Section)
  | elementOutside (kind : ElementKind) (target : Section)
  /-- An element that was just added is not what it was added as. -/
  | storedAsOther (kind : ElementKind)
  | annotationsExist (path : List String)
  | mapValueWithModifications (ident : String) (entries : Nat)
  | flatSourceBox
deriving DecidableEq

/-- A value that has no source text. -/
inductive Obstacle where
  | nonFinite (value : Binary64)
  | mapListHolding (shape : Shape)
  | mapListEntries (count : Nat)
  | rowListHolding (shape : Shape)
  | rowHolding (shape : Shape)
  | listOf (shape : Shape)
  | missingTest (kind : ConstructKind)
  | missingLiteral
  | bindingOf (shape : Shape)
deriving DecidableEq

inductive Error where
  | duplicateIdentifier (ident document : String)
  | unknownSection (name : String)
  | unknownFlag (flag context : String) (valid : List String)
  | invalidArity (operation expected : String) (got : Nat)
  | mixedBodyKind (kind : ConstructKind) (expected found : BodyKind)
  /-- A value without source text, and the names on the way to it. -/
  | unsupported (obstacle : Obstacle) (path : List String)
  | violation (cause : Violation)
deriving DecidableEq

def Violation.message : Violation → String
  | .occupiedEntry path shape =>
    "entry at '" ++ String.intercalate "." path ++ "' already exists and is a " ++ shape.name
      ++ ", not a map"
  | .entryNotMap path shape =>
    "entry at '" ++ String.intercalate "." path ++ "' is a " ++ shape.name ++ ", not a map"
  | .typeWithoutRedeclare typeName =>
    "type '" ++ typeName ++ "' given without the redeclare flag"
  | .notExpressionConstruct held =>
    "only expression constructs can be inlined, this one holds " ++ held.name ++ " clauses"
  | .incompleteIfExpression => "if-expression requires a test and an else branch"
  | .callUnavailable call kind =>
    "'" ++ call ++ "' is not available on a " ++ kind.keyword ++ " construct"
  | .branchAfterElse kind => "cannot open a new " ++ kind.keyword ++ " branch after else"
  | .expressionBody kind => kind.keyword ++ " constructs cannot hold expression bodies"
  | .declarationOutside ident target =>
    "declaration '" ++ ident ++ "' cannot be placed in the " ++ target.keyword ++ " section"
  | .elementOutside kind target =>
    kind.name ++ " cannot be placed in the " ++ target.keyword ++ " section"
  | .storedAsOther kind => kind.name ++ " was stored as another element kind"
  | .annotationsExist path => "annotation '" ++ String.intercalate "." path ++ "' already exists"
  | .mapValueWithModifications ident entries =>
    "declaration '" ++ ident ++ "' has both a map value and modifications ("
      ++ toString entries ++ " entries)"
  | .flatSourceBox => "source bounding box must have a non-zero width and height"

def Obstacle.name : Obstacle → String
  | .nonFinite value => "non-finite real " ++ value.nonFiniteName
  | .mapListHolding shape => "list mixing map and " ++ shape.name
  | .mapListEntries count => "list element with " ++ toString count ++ " entries"
  | .rowListHolding shape => "list mixing lists and " ++ shape.name
  | .rowHolding shape => shape.name ++ " inside a list row"
  | .listOf shape => "list of " ++ shape.name
  | .missingTest kind => kind.keyword ++ " without a test"
  | .missingLiteral => "assignment without a literal"
  | .bindingOf shape => shape.name ++ " as declaration value"

namespace Error

/-- The text shown to the user. -/
def message : Error → String
  | .duplicateIdentifier ident document =>
    "declaration '" ++ ident ++ "' already exists in '" ++ document ++ "'"
  | .unknownSection name => "unknown section '" ++ name ++ "'"
  | .unknownFlag flag context _ => "unknown " ++ context ++ " flag '" ++ flag ++ "'"
  | .invalidArity operation expected got =>
    operation ++ " takes " ++ expected ++ ", got " ++ toString got
  | .mixedBodyKind kind expected found =>
    kind.keyword ++ " body holds " ++ expected.name ++ " clauses, cannot add " ++ found.name
  | .unsupported obstacle path =>
    "cannot render " ++ obstacle.name ++ " at '" ++ String.intercalate "/" path ++ "'"
  | .violation cause => cause.message

/-- The diagnostic code of the kind of error. -/
def code : Error → String
  | .duplicateIdentifier .. => "modelwright::duplicate_identifier"
  | .unknownSection .. => "modelwright::unknown_section"
  | .unknownFlag .. => "modelwright::unknown_flag"
  | .invalidArity .. => "modelwright::invalid_arity"
  | .mixedBodyKind .. => "modelwright::mixed_body_kind"
  | .unsupported .. => "modelwright::unsupported_node"
  | .violation .. => "modelwright::invariant_violation"

/-- Advice on how to mend the call, where there is any. -/
def help : Error → Option String
  | .duplicateIdentifier .. =>
    some "declaration identifiers must be unique across the public and protected sections"
  | .unknownSection .. =>
    some ("valid sections are: " ++ String.intercalate ", " (Section.all.map Section.keyword))
  | .unknownFlag _ _ valid => some ("valid flags are: " ++ String.intercalate ", " valid)
  | .mixedBodyKind .. =>
    some "equation, statement and expression bodies cannot be mixed in one construct"
  | .invalidArity .. | .unsupported .. | .violation .. => none

end Error

/-- An operation on a state that may fail part way. The state it leaves behind is
kept in both cases, so what a failed call changed can be seen and spoken about. -/
abbrev Edit (σ α : Type) : Type :=
  ExceptT Error (StateM σ) α

/-- Fail and leave the state as it is. -/
def Edit.fail (error : Error) : Edit σ α :=
  fun state => (.error error, state)

/-- Do nothing but answer. -/
def Edit.answer (result : Except Error α) : Edit σ α :=
  fun state => (result, state)

/-- What follows a failure is not done, and its state is the one left behind. -/
theorem Edit.bind_apply (first : Edit σ α) (next : α → Edit σ β) (state : σ) :
    (first >>= next) state =
      match first state with
      | (.ok a, after) => next a after
      | (.error e, after) => (.error e, after) := by
  change StateT.bind first (ExceptT.bindCont next) state = _
  simp only [StateT.bind, bind]
  rcases first state with ⟨_ | _, after⟩ <;> rfl

end ModelSource

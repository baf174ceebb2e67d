import ModelSource.Document.Basic

/-!
# Building a document

`add` is the checked way into a section: an element must belong there and a
declaration must have a name of its own. The other operations make an element
and put it where it belongs; since it does belong there, they need fewer checks.
Every operation that fails leaves the document as it was.

The operations that answer with what they added take it out of the section again and
would fail if it had become something else. It never has (`pushAs_eq`).
-/

namespace ModelSource

/-- Choices for an equation or an algorithm step. -/
structure EquationOptions where
  initial : Bool := false
  description : Option String := none
  annotations : Modification := ∅

namespace Document

/-- Describes the document. -/
def describe (text : String) (d : Document) : Document :=
  { d with description := some text }

/-- Puts the document into a package; an empty name is the top level. -/
def putWithin (name : String) (d : Document) : Document :=
  { d with within := some (.ofName name) }

def addFlag (flag : DocumentFlag) (d : Document) : Document :=
  { d with flags := d.flags.insert flag }

/-- Adds the flags with these keywords. -/
def addFlags (words : String) : Edit Document Unit :=
  fun d =>
    match FlagSet.parse words with
    | .ok flags => (.ok (), { d with flags := d.flags.union flags })
    | .error e => (.error e, d)

/-- Replaces all annotations. -/
def setAnnotations (annotations : Modification) (d : Document) : Document :=
  { d with annotations }

/-- The name is not taken. -/
def checkUnique (d : Document) (ident : String) : Except Error Unit :=
  match d.registry.lookup ident with
  | some _ => .error (.duplicateIdentifier ident d.ident)
  | none => .ok ()

/-- The element may be added to the section. -/
def admits (d : Document) (element : Element) (target : Section) : Except Error Unit :=
  if element.allowedIn target then
    match element with
    | .declaration declaration => d.checkUnique declaration.ident
    | _ => .ok ()
  else .error (.violation (.elementOutside element.kind target))

/-- Adds an element to a section. -/
def add (element : Element) (target : Section) : Edit Document Unit :=
  fun d =>
    match d.admits element target with
    | .ok () => (.ok (), d.push target element)
    | .error e => (.error e, d)

/-- Adds an element to the section of that name. -/
def addTo (element : Element) (name : String) : Edit Document Unit :=
  match Section.parse name with
  | .ok target => add element target
  | .error e => Edit.fail e

/-- Makes a declaration, if its name is free and it is meant for a declarative
section. -/
def prepare (d : Document) (typeName ident : String) (options : DeclarationOptions) :
    Except Error Declaration :=
  if options.targetSection.isDeclarative then
    match d.checkUnique ident with
    | .ok () => Declaration.ofOptions typeName ident options
    | .error e => .error e
  else .error (.violation (.declarationOutside ident options.targetSection))

/-- Appends an element and answers with what `content?` finds in the one that then
ends the section. -/
def pushAs (content? : Element → Option α) (target : Section) (element : Element) :
    Edit Document α :=
  fun d =>
    let after := d.push target element
    match (after.elements target).getLast?.bind content? with
    | some content => (.ok content, after)
    | none => (.error (.violation (.storedAsOther element.kind)), after)

/-- The element that ends the section is the one that was appended, so nothing else
can be found in it. -/
theorem pushAs_eq {content? : Element → Option α} {element : Element} {content : α}
    (h : content? element = some content) (target : Section) (d : Document) :
    pushAs content? target element d = (.ok content, d.push target element) := by
  have hlast : ((d.push target element).elements target).getLast? = some element := by
    simp [push, elements]
  simp only [pushAs, hlast, Option.bind_some, h]

/-- Adds a declaration to the section that its options name. -/
def addDeclaration (typeName ident : String) (options : DeclarationOptions) :
    Edit Document Declaration :=
  fun d =>
    match d.prepare typeName ident options with
    | .ok declaration =>
      pushAs Element.declaration? options.targetSection (.declaration declaration) d
    | .error e => (.error e, d)

theorem addDeclaration_eq (typeName ident : String) (options : DeclarationOptions)
    (d : Document) :
    addDeclaration typeName ident options d =
      match d.prepare typeName ident options with
      | .ok declaration =>
        (.ok declaration, d.push options.targetSection (.declaration declaration))
      | .error e => (.error e, d) := by
  unfold addDeclaration
  split
  · exact pushAs_eq (by rfl) _ d
  · rfl

/-- Adds a declaration that is a parameter, whatever its options say. -/
def addParameter (typeName ident : String) (options : DeclarationOptions) :
    Edit Document Declaration :=
  addDeclaration typeName ident { options with variability := some .parameter }

/-- The two sides with what the options add to them. -/
def equationOf (left right : Expression) (options : EquationOptions) : Equation :=
  { left, right, description := options.description, annotations := options.annotations }

/-- Adds `left = right`. -/
def addEquation (left right : Expression) (options : EquationOptions) (d : Document) : Document :=
  d.push (.forEquation options.initial) (.equation (equationOf left right options))

/-- Adds `left := right`. -/
def addAlgorithm (left right : Expression) (options : EquationOptions) (d : Document) :
    Document :=
  d.push (.forAlgorithm options.initial) (.algorithm (equationOf left right options))

/-- The connection of two references, or of two owners with a connector each. -/
def connectionOf : List String → Except Error Connection
  | [a, b] => .ok { a, b }
  | [owner, connector, otherOwner, otherConnector] =>
    .ok { a := owner ++ "." ++ connector, b := otherOwner ++ "." ++ otherConnector }
  | refs => .error (.invalidArity "add_connection" "2 or 4 references" refs.length)

/-- Adds a connection. Answers with its position in the equation section. -/
def addConnection (refs : List String) : Edit Document Nat :=
  fun d =>
    match connectionOf refs with
    | .ok connection =>
      let (stored, after) := pushAs Element.connection? .equation (.connection connection) d
      (stored.map fun _ => (d.elements .equation).length, after)
    | .error e => (.error e, d)

theorem addConnection_eq (refs : List String) (d : Document) :
    addConnection refs d =
      match connectionOf refs with
      | .ok connection =>
        (.ok (d.elements .equation).length, d.push .equation (.connection connection))
      | .error e => (.error e, d) := by
  unfold addConnection
  split
  · next connection _ =>
      have hstored : Element.connection? (.connection connection) = some connection := rfl
      rw [pushAs_eq hstored]
      rfl
  · rfl

/-- The import of a path: of the path itself, of a list of names below it, or
under an alias. -/
def importOf (path : String) : ImportNames → Except Error Import
  | .none => .ok (.qualified path)
  | .list [] => .error (.invalidArity "add_import" "at least one name" 0)
  | .list names => .ok (.multi path names)
  | .shortName name => .ok (.named name path)

/-- Adds an import to the public section. -/
def addImport (path : String) (names : ImportNames) : Edit Document Import :=
  fun d =>
    match importOf path names with
    | .ok clause => pushAs Element.importClause? .publicPart (.importClause clause) d
    | .error e => (.error e, d)

theorem addImport_eq (path : String) (names : ImportNames) (d : Document) :
    addImport path names d =
      match importOf path names with
      | .ok clause => (.ok clause, d.push .publicPart (.importClause clause))
      | .error e => (.error e, d) := by
  unfold addImport
  split
  · exact pushAs_eq (by rfl) _ d
  · rfl

/-- Adds an extends clause to the public section. -/
def addExtends (name : String) (modifications : Modification) (d : Document) : Document :=
  d.push .publicPart (.extendsClause { name, modifications })

/-- Adds raw lines to a section. -/
def addText (lines : List String) (indented : Bool) (target : Section) (d : Document) : Document :=
  d.push target (.text { lines, indented })

/-- Adds a comment to a section. -/
def addComment (lines : List String) (style : CommentStyle) (indented : Bool) (target : Section)
    (d : Document) : Document :=
  d.push target (.text (.comment lines style indented))

end Document

end ModelSource

import ModelSource.Document.Basic

/-!
# Drawing connections

A connection between two placed declarations gets a line from the origin of one
to the origin of the other. Connections whose owners are not declarations of the
document, or are not placed, are left alone. Lines are drawn in order, and what
was drawn before a connection that cannot be drawn stays.
-/

namespace ModelSource

/-- The colour of drawn lines. -/
def lineColour : Value :=
  .list [.integer 0, .integer 0, .integer 255]

namespace Connection

/-- Writes a line between two origins into the annotations. -/
def drawLine (c : Connection) (a b : Scalar × Scalar) : Except Error Unit × Connection :=
  let points := .list [.point a.1 a.2, .point b.1 b.2]
  let (result, annotations) :=
    Modification.descend ["Line"]
      (fun line => (.ok (), (line.set "points" points).set "color" lineColour)) c.annotations
  (result, { c with annotations })

end Connection

namespace Document

/-- The origin of the declaration of that name, if it is placed. -/
def originOf? (d : Document) (ident : String) : Option (Scalar × Scalar) :=
  (d.declaration? ident).bind fun declaration => Placement.originOf? declaration.annotations

/-- Draws the connections among elements, given the origins; counts them. -/
def drawElements (origin : String → Option (Scalar × Scalar)) :
    List Element → Except Error Nat × List Element
  | [] => (.ok 0, [])
  | element :: rest =>
    match element with
    | .connection c =>
      match origin c.owners.1, origin c.owners.2 with
      | some a, some b =>
        match c.drawLine a b with
        | (.error e, c) => (.error e, .connection c :: rest)
        | (.ok (), c) =>
          let (count, rest) := drawElements origin rest
          (count.map (· + 1), .connection c :: rest)
      | _, _ =>
        let (count, rest) := drawElements origin rest
        (count, element :: rest)
    | _ =>
      let (count, rest) := drawElements origin rest
      (count, element :: rest)

/-- Draws the connections of the equation section; counts them. -/
def drawConnections : Edit Document Nat :=
  fun d =>
    let (count, elements) := drawElements d.originOf? (d.elements .equation)
    (count, { d with sections := d.sections.modify .equation fun _ => elements })

end Document

end ModelSource

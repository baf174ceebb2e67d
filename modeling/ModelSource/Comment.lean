import ModelSource.Tree

/-!
# Raw text and comments

Raw text is a list of lines that are copied as they are, indented or not. A
comment is raw text whose lines carry the marks of a comment style: an opening
mark on the first line, a continuation mark on the others and, for block
comments, a closing mark at the end of the last.
-/

namespace ModelSource

/-- Lines that are copied into the output. -/
structure RawText where
  lines : List String
  indented : Bool
deriving DecidableEq

inductive CommentStyle where
  | line
  | doc
  | block
  | docBlock
  /-- Lines without marks. -/
  | plain
deriving DecidableEq

namespace CommentStyle

/-- The mark before the first line. -/
def opening : CommentStyle → String
  | .line => "// "
  | .doc => "/// "
  | .block => "/* "
  | .docBlock => "/** "
  | .plain => ""

/-- The mark before every other line. -/
def continuation : CommentStyle → String
  | .line => "// "
  | .doc => "/// "
  | .block | .docBlock => " * "
  | .plain => ""

/-- The mark after the last line. -/
def closing : CommentStyle → String
  | .block | .docBlock => " */"
  | .line | .doc | .plain => ""

/-- Lines with their marks, the first of them after `mark`. -/
def markLines (style : CommentStyle) (mark : String) : List String → List String
  | [] => []
  | [last] => [mark ++ last ++ style.closing]
  | this :: next :: rest => (mark ++ this) :: style.markLines style.continuation (next :: rest)

end CommentStyle

namespace RawText

/-- The lines as a comment. -/
def comment (lines : List String) (style : CommentStyle) (indented : Bool) : RawText :=
  { lines := style.markLines style.opening lines, indented }

def toTree (text : RawText) : Tree :=
  .object [("lines", .array (text.lines.map .text)), ("indent", .bool text.indented)]

end RawText

end ModelSource

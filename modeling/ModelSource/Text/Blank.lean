/-!
# Blanks, words and lines

Keyword lists are split at blanks and manifest lines are compared without the
blanks around them. A blank is a character with the Unicode property
`White_Space`: twenty-five characters in ten ranges, so a no-break space is one
and a zero-width space is not.

`pieces` is the one splitter: words are its non-empty pieces at blanks, lines
its pieces at line feeds.
-/

namespace ModelSource.Text

/-- The ranges of the property `White_Space`. -/
def blankRanges : List (Nat × Nat) :=
  [(0x09, 0x0d), (0x20, 0x20), (0x85, 0x85), (0xa0, 0xa0), (0x1680, 0x1680), (0x2000, 0x200a),
   (0x2028, 0x2029), (0x202f, 0x202f), (0x205f, 0x205f), (0x3000, 0x3000)]

/-- The character has the property `White_Space`. -/
def isBlank (c : Char) : Bool :=
  blankRanges.any fun (first, last) => decide (first ≤ c.toNat ∧ c.toNat ≤ last)

/-- The runs between the characters that satisfy `p`; there is one more of them
than there are such characters. -/
def pieces (p : Char → Bool) : List Char → List (List Char)
  | [] => [[]]
  | c :: rest =>
    if p c then [] :: pieces p rest
    else
      match pieces p rest with
      | [] => [[c]]
      | piece :: more => (c :: piece) :: more

/-- The maximal runs without blanks. -/
def words (text : String) : List String :=
  ((pieces isBlank text.toList).filter fun w => !w.isEmpty).map String.ofList

/-- The text without the blanks at its two ends. -/
def trim (text : String) : String :=
  String.ofList ((text.toList.dropWhile isBlank).reverse.dropWhile isBlank).reverse

/-- A terminated line without its carriage return, if it ends in one. -/
def dropReturn (line : List Char) : List Char :=
  if line.getLast? = some '\r' then line.dropLast else line

/-- Lines out of the runs between line feeds: every run but the last was ended by
a line feed, which takes one carriage return with it; the last run is a line only
if it holds anything. -/
def linesOf : List (List Char) → List (List Char)
  | [] => []
  | [last] => if last.isEmpty then [] else [last]
  | line :: next :: more => dropReturn line :: linesOf (next :: more)

/-- The lines of a text. -/
def lines (text : String) : List String :=
  (linesOf (pieces (· == '\n') text.toList)).map String.ofList

end ModelSource.Text

import ModelSource.Proofs.Layout
import ModelSource.Proofs.Literals

/-!
# The text of a modification determines it

Several shapes of a modification look much alike once they are printed: a tuple and
a list of literals differ in a blank after the comma, an empty map is a name with
nothing behind it, and a record is printed like an entry of a map. Nothing is lost
all the same, as long as names are words and literals can be told apart. This file
has a reader for such text, and the reader is the proof: two modifications with the
same text are both what the reader makes of it.

The reader takes no notice of how lines are broken and indented, so one reader
serves all options. It is given more fuel than the modification is large, and an
induction over the modification shows that it comes back with it.
-/

namespace ModelSource

namespace Value

/-- A list of literals. -/
def ofLiterals (scalars : List Scalar) : Value :=
  .list (scalars.map .scalar)

/-- A list of rows of literals. -/
def ofRows (rows : List (List Scalar)) : Value :=
  .list (rows.map ofLiterals)

/-- A list of maps with one entry each. -/
def ofRecords (entries : List (String × Value)) : Value :=
  .list (entries.map fun entry => .map ⟨[entry]⟩)

end Value

namespace Reading

/-- A name made of letters, digits and underscores. -/
structure IsName (name : String) : Prop where
  ne_empty : name ≠ ""
  chars : name.toList.all (fun c => c.isAlphanum || c == '_') = true

/-- A value that its text determines. -/
inductive ReadableValue : Value → Prop where
  | scalar {scalar : Scalar} (h : Readable scalar) : ReadableValue (.scalar scalar)
  | tuple {scalars : List Scalar} (h : ∀ scalar ∈ scalars, Readable scalar) :
      ReadableValue (.tuple scalars)
  | map {entries : List (String × Value)} (hnames : ∀ entry ∈ entries, IsName entry.1)
      (hvalues : ∀ entry ∈ entries, ReadableValue entry.2) : ReadableValue (.map ⟨entries⟩)
  /-- A single literal in a list would be read as a tuple. -/
  | literals {scalars : List Scalar} (hmany : 2 ≤ scalars.length)
      (h : ∀ scalar ∈ scalars, Readable scalar) : ReadableValue (.ofLiterals scalars)
  | rows {rows : List (List Scalar)} (hne : rows ≠ [])
      (h : ∀ row ∈ rows, ∀ scalar ∈ row, Readable scalar) : ReadableValue (.ofRows rows)
  | records {entries : List (String × Value)} (hne : entries ≠ [])
      (hnames : ∀ entry ∈ entries, IsName entry.1)
      (hvalues : ∀ entry ∈ entries, ReadableValue entry.2) : ReadableValue (.ofRecords entries)

/-- A modification that its text determines. -/
def ReadableModification (m : Modification) : Prop :=
  ∀ entry ∈ m.entries, IsName entry.1 ∧ ReadableValue entry.2

/-! ## The reader -/

/-- A row of literals. -/
def readRow (fuel : Nat) : Reader (List Scalar)
  | '\x7b' :: rest =>
    match readLiteral rest with
    | some _ => readItems '\x7d' readLiteral fuel rest
    | none => if rest.head? = some '\x7d' then some ([], rest.tail) else none
  | _ => none

/-- What follows the first literal tells a tuple from a list. -/
def isTupleMark : List Char → Bool
  | ',' :: c :: _ => c == ' '
  | _ => true

/-- What stands behind an opening brace. -/
def readBraced (nested : Reader (String × Value)) (fuel : Nat) : Reader Value := fun input =>
  match readLiteral input with
  | some (_, after) =>
    (readItems '\x7d' readLiteral fuel input).map fun (scalars, rest) =>
      (if isTupleMark after then .tuple scalars else .ofLiterals scalars, rest)
  | none =>
    match input with
    | '\x7d' :: rest => some (.tuple [], rest)
    | '\x7b' :: rest =>
      (readItems '\x7d' (readRow fuel) fuel ('\x7b' :: rest)).map fun (rows, rest) =>
        (.ofRows rows, rest)
    | '\n' :: rest =>
      (readItems '\x7d' nested fuel rest).map fun (entries, rest) => (.ofRecords entries, rest)
    | _ => none

/-- A map, or nothing for the empty one. -/
def readModification (nested : Reader (String × Value)) (fuel : Nat) : Reader Modification
  | '(' :: rest =>
    (readItems ')' nested fuel rest).map fun (entries, rest) => (⟨entries⟩, rest)
  | input => some (∅, input)

/-- What stands behind the name of an entry. -/
def readValue (nested : Reader (String × Value)) (fuel : Nat) : Reader Value
  | '=' :: rest =>
    match readLiteral rest with
    | some (scalar, rest) => some (.scalar scalar, rest)
    | none =>
      match rest with
      | '\x7b' :: rest => readBraced nested fuel rest
      | _ => none
  | input => (readModification nested fuel input).map fun (m, rest) => (.map m, rest)

/-- A name and what stands behind it. A level of nesting takes one unit of fuel. -/
def readEntry : Nat → Reader (String × Value)
  | 0, _ => none
  | fuel + 1, input =>
    (readValue (readEntry fuel) fuel (input.dropWhile isWordChar)).map fun (value, rest) =>
      ((String.ofList (input.takeWhile isWordChar), value), rest)

/-! ## What is printed -/

/-- The printout has no fault and this text. -/
def Prints (options : RenderOptions) (p : Printout) (text : List Char) : Prop :=
  p.Ok ∧ (p.content options.indent.unit options.startIndent).toList = text

section

variable {options : RenderOptions} {p q : Printout}

theorem Prints.append {first second : List Char} (hp : Prints options p first)
    (hq : Prints options q second) : Prints options (p ++ q) (first ++ second) := by
  refine ⟨(Printout.ok_append p q).2 ⟨hp.1, hq.1⟩, ?_⟩
  rw [Printout.content_append _ _ hp.1, String.toList_append, hp.2, hq.2]

theorem prints_text (content : String) : Prints options (.text content) content.toList :=
  ⟨rfl, by rw [Printout.content_text]⟩

theorem prints_empty : Prints options ∅ [] :=
  ⟨rfl, by rw [Printout.content_empty]; rfl⟩

/-- The indentation of a line. -/
def margin (options : RenderOptions) (depth : Nat) : List Char :=
  (indentation options.indent.unit (options.startIndent + depth)).toList

theorem prints_indentTo (depth : Nat) : Prints options (.indentTo depth) (margin options depth) :=
  ⟨rfl, by rw [Printout.content_indentTo]; rfl⟩

theorem prints_separator (rest : List α) {mark : Printout} {text : List Char}
    (h : Prints options mark text) :
    Prints options (Printer.separator rest mark) (if rest.isEmpty then [] else text) := by
  rw [Printer.separator]
  split
  · exact prints_empty
  · exact h

theorem isSpace_margin (depth : Nat) : ∀ c ∈ margin options depth, isSpace c = true := by
  rw [margin]
  generalize options.startIndent + depth = levels
  induction levels with
  | zero => exact fun _ hc => absurd hc List.not_mem_nil
  | succ levels ih =>
      intro c hc
      rw [indentation, String.toList_append] at hc
      rcases List.mem_append.1 hc with hunit | hrest
      · have hindent := isIndentation_unit options.indent c hunit
        rw [isIndentation] at hindent
        rw [isSpace, hindent, Bool.true_or]
      · exact ih c hrest

/-- What an entry prints at a depth. -/
def entryText (options : RenderOptions) (depth : Nat) (entry : String × Value) : List Char :=
  ((Printer.entry depth [] entry.1 entry.2).content options.indent.unit options.startIndent).toList

/-- Where an entry stands decides on its error, and on nothing else that it prints. -/
theorem prints_entry {depth : Nat} {entry : String × Value}
    (h : (Printer.entry depth [] entry.1 entry.2).Ok) (path : List String) :
    Prints options (Printer.entry depth path entry.1 entry.2) (entryText options depth entry) := by
  have hbelow := Printer.entry_below 0 path depth [] entry.1 entry.2
  rw [Nat.zero_add, List.append_nil] at hbelow
  rw [hbelow]
  refine ⟨(Printout.ok_below ..).2 h, ?_⟩
  rw [Printout.content_below, Nat.add_zero]
  rfl

/-- What separates entries on lines of their own. -/
theorem prints_lineMark (options : RenderOptions) :
    Prints options (.text "," ++ .newline) [',', '\n'] :=
  (prints_text ",").append (prints_text "\n")

variable {entries : List (String × Value)} {depth : Nat}

theorem prints_inlineEntries (options : RenderOptions)
    (h : ∀ entry ∈ entries, (Printer.entry depth [] entry.1 entry.2).Ok) (path : List String) :
    Prints options (Printer.inlineEntries depth path entries)
      (joined [] [',', ' '] (entryText options depth) entries) := by
  induction entries with
  | nil => exact prints_empty
  | cons entry rest ih =>
      rw [List.forall_mem_cons] at h
      exact ((prints_entry h.1 _).append (prints_separator rest (prints_text ", "))).append (ih h.2)

theorem prints_lineEntries (options : RenderOptions)
    (h : ∀ entry ∈ entries, (Printer.entry depth [] entry.1 entry.2).Ok) (path : List String) :
    Prints options (Printer.lineEntries depth path entries)
      (joined (margin options depth) [',', '\n'] (entryText options depth) entries) := by
  induction entries with
  | nil => exact prints_empty
  | cons entry rest ih =>
      rw [List.forall_mem_cons] at h
      exact (((prints_indentTo depth).append (prints_entry h.1 _)).append
        (prints_separator rest (prints_lineMark options))).append (ih h.2)

theorem prints_records (h : ∀ entry ∈ entries, (Printer.entry depth [] entry.1 entry.2).Ok)
    (path : List String) (index : Nat) :
    Prints options
      (Printer.records depth path index (entries.map fun entry => .map ⟨[entry]⟩))
      (joined (margin options depth) [',', '\n'] (entryText options depth) entries) := by
  induction entries generalizing index with
  | nil => exact prints_empty
  | cons entry rest ih =>
      rw [List.forall_mem_cons] at h
      have hseparator := prints_separator (rest.map fun entry => Value.map ⟨[entry]⟩)
        (prints_lineMark options)
      rw [List.isEmpty_map] at hseparator
      exact (((prints_indentTo depth).append (prints_entry h.1 _)).append hseparator).append
        (ih h.2 (index + 1))

end

/-! ## Printed text is read back -/

section

variable {options : RenderOptions} {nested : Reader (String × Value)} {fuel : Nat}
  {entries : List (String × Value)}

/-- At every depth the entry has a text, which is read as the entry. -/
def ReadsBack (options : RenderOptions) (read : Reader (String × Value))
    (entry : String × Value) : Prop :=
  ∀ depth, (Printer.entry depth [] entry.1 entry.2).Ok ∧
    Reads read (entryText options depth entry) entry

theorem readModification_empty {rest : List Char} (hrest : Stops rest) :
    readModification nested fuel rest = some (∅, rest) := by
  cases rest with
  | nil => rfl
  | cons c more =>
      have hc : c ≠ '(' := (hrest c rfl).2.1
      rw [readModification]
      intro _ heq
      exact hc (List.cons.inj heq).1

/-- Maps on one line and maps on several are read alike: a line break is a blank. -/
theorem readModification_joined {depth : Nat} {lead pad blanks : List Char}
    (h : ∀ entry ∈ entries, ReadsBack options nested entry)
    (hlead : ∀ c ∈ lead, isSpace c = true) (hpad : ∀ c ∈ pad, isSpace c = true)
    (hblanks : ∀ c ∈ blanks, isSpace c = true) (hne : entries ≠ [])
    (hfuel : entries.length ≤ fuel) (rest : List Char) :
    readModification nested fuel
        ('(' :: (blanks ++
          (joined lead (',' :: pad) (entryText options depth) entries ++ ')' :: rest))) =
      some (⟨entries⟩, rest) := by
  have hreads : ∀ entry ∈ entries, Reads nested (entryText options depth entry) entry :=
    fun entry hentry => (h entry hentry depth).2
  have hitems : readItems ')' nested fuel
      (blanks ++ (joined lead (',' :: pad) (entryText options depth) entries ++
        ([] ++ ')' :: rest))) = some (entries, rest) :=
    readItems_joined hreads hlead hpad (List.forall_mem_nil _) (.inl rfl) hne hfuel hblanks
  rw [List.nil_append] at hitems
  rw [readModification, hitems]
  rfl

/-- The printout has a text that is read as these entries. It is empty or starts with a
parenthesis, so it does not carry on a name before it. -/
def ReadsMap (options : RenderOptions) (nested : Reader (String × Value)) (fuel : Nat)
    (p : Printout) (entries : List (String × Value)) : Prop :=
  ∃ text, Prints options p text ∧ (∀ c ∈ text.head?, c = '(') ∧
    ∀ rest, Stops rest →
      readModification nested fuel (text ++ rest) = some (⟨entries⟩, rest)

theorem readsMap_inline (h : ∀ entry ∈ entries, ReadsBack options nested entry)
    (hne : entries ≠ []) (hfuel : entries.length ≤ fuel) (depth : Nat) (path : List String) :
    ReadsMap options nested fuel
      (.text "(" ++ Printer.inlineEntries depth path entries ++ .text ")") entries := by
  have hprints := prints_inlineEntries options (fun entry hentry => (h entry hentry depth).1) path
  refine ⟨_, ((prints_text "(").append hprints).append (prints_text ")"), ?_, ?_⟩
  · exact fun c hc => (Option.some.inj hc).symm
  · intro rest _
    have hblank : ∀ c ∈ [' '], isSpace c = true := List.forall_mem_singleton.2 rfl
    simpa using readModification_joined h (List.forall_mem_nil _) hblank (List.forall_mem_nil _)
      hne hfuel rest

theorem readsMap_lines (h : ∀ entry ∈ entries, ReadsBack options nested entry)
    (hne : entries ≠ []) (hfuel : entries.length ≤ fuel) (depth : Nat) (path : List String) :
    ReadsMap options nested fuel
      (.text "(" ++ .newline ++ Printer.lineEntries depth path entries ++ .text ")") entries := by
  have hprints := prints_lineEntries options (fun entry hentry => (h entry hentry depth).1) path
  refine ⟨_, (((prints_text "(").append (prints_text "\n")).append hprints).append
    (prints_text ")"), ?_, ?_⟩
  · exact fun c hc => (Option.some.inj hc).symm
  · intro rest _
    have hbreak : ∀ c ∈ ['\n'], isSpace c = true := List.forall_mem_singleton.2 rfl
    simpa using readModification_joined h (isSpace_margin depth) hbreak hbreak hne hfuel rest

theorem readsMap_modification (h : ∀ entry ∈ entries, ReadsBack options nested entry)
    (hfuel : entries.length ≤ fuel) (depth : Nat) (path : List String) :
    ReadsMap options nested fuel (Printer.modification depth path ⟨entries⟩) entries := by
  rw [Printer.modification]
  split
  · rename_i hlength
    obtain rfl : entries = [] := List.length_eq_zero_iff.1 hlength
    refine ⟨[], prints_empty, ?_, fun rest hrest => readModification_empty hrest⟩
    intro c hc
    cases hc
  · rename_i hlength
    exact readsMap_inline h (List.ne_nil_of_length_pos (by omega)) hfuel depth path
  · rename_i hlength
    exact readsMap_inline h (List.ne_nil_of_length_pos (by omega)) hfuel depth path
  · rename_i hlength _ _
    have hne : entries ≠ [] := fun heq => hlength (by rw [heq]; rfl)
    exact readsMap_lines h hne hfuel (depth + 1) path

end

/-! ## Literals in braces -/

/-- Literals with a comma and perhaps blanks between them. -/
def literalsText (pad : List Char) (scalars : List Scalar) : List Char :=
  joined [] (',' :: pad) (fun scalar => (literalText scalar).toList) scalars

def rowText (row : List Scalar) : List Char :=
  '\x7b' :: (literalsText [] row ++ ['\x7d'])

section

variable {nested : Reader (String × Value)} {fuel : Nat} {scalars : List Scalar}

theorem toList_braced (mark : String) (text : α → String) (items : List α) :
    (Printer.braced mark (items.map text)).toList =
      '\x7b' :: (joined [] mark.toList (fun item => (text item).toList) items ++ ['\x7d']) := by
  rw [Printer.braced, String.toList_append, String.toList_append, toList_intercalate, joined_map]
  rfl

theorem scalarTexts_eq (h : ∀ scalar ∈ scalars, Readable scalar) :
    Printer.scalarTexts scalars = .ok (scalars.map literalText) := by
  induction scalars with
  | nil => rfl
  | cons scalar rest ih =>
      rw [List.forall_mem_cons] at h
      rw [Printer.scalarTexts, h.1.text?, ih h.2]
      rfl

theorem itemTexts_scalars (scalars : List Scalar) :
    Printer.itemTexts (scalars.map .scalar) = Printer.scalarTexts scalars := by
  induction scalars with
  | nil => rfl
  | cons scalar rest ih => rw [List.map_cons, Printer.itemTexts, Printer.scalarTexts, ih]

theorem rowTexts_eq {rows : List (List Scalar)}
    (h : ∀ row ∈ rows, ∀ scalar ∈ row, Readable scalar) :
    Printer.rowTexts (rows.map .ofLiterals) =
      .ok (rows.map fun row => Printer.braced "," (row.map literalText)) := by
  induction rows with
  | nil => rfl
  | cons row rest ih =>
      rw [List.forall_mem_cons] at h
      have hrow : Printer.rowText (.ofLiterals row) =
          .ok (Printer.braced "," (row.map literalText)) := by
        rw [Value.ofLiterals, Printer.rowText, itemTexts_scalars, scalarTexts_eq h.1]
        rfl
      rw [List.map_cons, Printer.rowTexts, hrow, ih h.2]
      rfl

theorem stops_brace (rest : List Char) : Stops ('\x7d' :: rest) :=
  stops_cons (by decide) rest

theorem readItems_literals {pad : List Char} (h : ∀ scalar ∈ scalars, Readable scalar)
    (hpad : ∀ c ∈ pad, isSpace c = true) (hne : scalars ≠ []) (hfuel : scalars.length ≤ fuel)
    (rest : List Char) :
    readItems '\x7d' readLiteral fuel (literalsText pad scalars ++ '\x7d' :: rest) =
      some (scalars, rest) := by
  show readItems '\x7d' readLiteral fuel
    ([] ++ (literalsText pad scalars ++ ([] ++ '\x7d' :: rest))) = _
  exact readItems_joined (fun scalar hscalar => (h scalar hscalar).reads) (List.forall_mem_nil _)
    hpad (List.forall_mem_nil _) (.inr rfl) hne hfuel (List.forall_mem_nil _)

/-- What is left behind the first of several literals in braces. -/
def afterFirst (pad : List Char) (more : List Scalar) (rest : List Char) : List Char :=
  (if more.isEmpty then [] else ',' :: pad) ++ (literalsText pad more ++ '\x7d' :: rest)

theorem readLiteral_first {pad : List Char} {first : Scalar} {more : List Scalar}
    (h : Readable first) (rest : List Char) :
    readLiteral (literalsText pad (first :: more) ++ '\x7d' :: rest) =
      some (first, afterFirst pad more rest) := by
  have hstops : Stops (afterFirst pad more rest) := by
    cases more with
    | nil => exact stops_brace rest
    | cons second others => exact stops_comma _
  have hinput : literalsText pad (first :: more) ++ '\x7d' :: rest =
      (literalText first).toList ++ afterFirst pad more rest := by
    simp [literalsText, joined, afterFirst]
  rw [hinput]
  exact h.reads.back _ hstops

theorem reads_row {row : List Scalar} (h : ∀ scalar ∈ row, Readable scalar)
    (hfuel : row.length ≤ fuel) : Reads (readRow fuel) (rowText row) row := by
  refine ⟨⟨'\x7b', _, rfl, by decide⟩, fun rest _ => ?_⟩
  have hinput : rowText row ++ rest = '\x7b' :: (literalsText [] row ++ '\x7d' :: rest) := by
    simp [rowText]
  rw [hinput, readRow]
  cases row with
  | nil => rfl
  | cons first more =>
      rw [readLiteral_first (h first List.mem_cons_self)]
      exact readItems_literals h (List.forall_mem_nil _) (List.cons_ne_nil first more) hfuel rest

theorem readBraced_literals {pad : List Char} {first : Scalar} {more : List Scalar}
    (h : ∀ scalar ∈ first :: more, Readable scalar) (hpad : ∀ c ∈ pad, isSpace c = true)
    (hfuel : (first :: more).length ≤ fuel) (rest : List Char) :
    readBraced nested fuel (literalsText pad (first :: more) ++ '\x7d' :: rest) =
      some (if isTupleMark (afterFirst pad more rest) then .tuple (first :: more)
        else .ofLiterals (first :: more), rest) := by
  unfold readBraced
  rw [readLiteral_first (h first List.mem_cons_self)]
  simp only [readItems_literals h hpad (List.cons_ne_nil first more) hfuel, Option.map_some]

theorem readBraced_tuple (h : ∀ scalar ∈ scalars, Readable scalar)
    (hfuel : scalars.length ≤ fuel) (rest : List Char) :
    readBraced nested fuel (literalsText [' '] scalars ++ '\x7d' :: rest) =
      some (.tuple scalars, rest) := by
  cases scalars with
  | nil => rfl
  | cons first more =>
      have hmark : isTupleMark (afterFirst [' '] more rest) = true := by
        cases more <;> rfl
      have hblank : ∀ c ∈ [' '], isSpace c = true := List.forall_mem_singleton.2 rfl
      rw [readBraced_literals h hblank hfuel, hmark, if_pos rfl]

/-- Behind the first comma of a list stands the next literal, and no literal starts with
a blank. -/
theorem readBraced_list (h : ∀ scalar ∈ scalars, Readable scalar) (hmany : 2 ≤ scalars.length)
    (hfuel : scalars.length ≤ fuel) (rest : List Char) :
    readBraced nested fuel (literalsText [] scalars ++ '\x7d' :: rest) =
      some (.ofLiterals scalars, rest) := by
  match scalars with
  | first :: second :: others =>
      have hsecond := h second (List.mem_cons_of_mem _ List.mem_cons_self)
      obtain ⟨c, more, htext, hc⟩ := hsecond.reads.front
      have hmark : isTupleMark (afterFirst [] (second :: others) rest) = false := by
        have hafter : ∃ tail, afterFirst [] (second :: others) rest = ',' :: c :: tail := by
          simp [afterFirst, literalsText, joined, htext]
        obtain ⟨tail, htail⟩ := hafter
        rw [htail, isTupleMark, beq_eq_false_iff_ne]
        rintro rfl
        exact absurd hc (by decide)
      rw [readBraced_literals h (List.forall_mem_nil _) hfuel, hmark, if_neg Bool.false_ne_true]

theorem readBraced_rows {rows : List (List Scalar)} (hne : rows ≠ [])
    (h : ∀ row ∈ rows, ∀ scalar ∈ row, Readable scalar) (hfuel : rows.length ≤ fuel)
    (hfuels : ∀ row ∈ rows, row.length ≤ fuel) (rest : List Char) :
    readBraced nested fuel (joined [] [','] rowText rows ++ '\x7d' :: rest) =
      some (.ofRows rows, rest) := by
  have hitems : readItems '\x7d' (readRow fuel) fuel
      ([] ++ (joined [] [','] rowText rows ++ ([] ++ '\x7d' :: rest))) = some (rows, rest) :=
    readItems_joined (fun row hrow => reads_row (h row hrow) (hfuels row hrow))
      (List.forall_mem_nil _) (List.forall_mem_nil _) (List.forall_mem_nil _) (.inr rfl) hne hfuel
      (List.forall_mem_nil _)
  rw [List.nil_append, List.nil_append] at hitems
  obtain ⟨first, more, rfl⟩ := List.exists_cons_of_ne_nil hne
  obtain ⟨tail, htail⟩ : ∃ tail,
      joined [] [','] rowText (first :: more) ++ '\x7d' :: rest = '\x7b' :: tail := by
    simp [joined, rowText]
  rw [htail] at hitems ⊢
  have hnone : readLiteral ('\x7b' :: tail) = none := rfl
  unfold readBraced
  rw [hnone]
  simp only [hitems, Option.map_some]

theorem readBraced_records {options : RenderOptions} {entries : List (String × Value)}
    {depth : Nat} (hne : entries ≠ []) (h : ∀ entry ∈ entries, ReadsBack options nested entry)
    (hfuel : entries.length ≤ fuel) (rest : List Char) :
    readBraced nested fuel
        ('\n' :: (joined (margin options (depth + 1)) [',', '\n']
          (entryText options (depth + 1)) entries ++
          (('\n' :: margin options depth) ++ '\x7d' :: rest))) =
      some (.ofRecords entries, rest) := by
  have htrail : ∀ c ∈ '\n' :: margin options depth, isSpace c = true :=
    List.forall_mem_cons.2 ⟨rfl, isSpace_margin depth⟩
  have hbreak : ∀ c ∈ ['\n'], isSpace c = true := List.forall_mem_singleton.2 rfl
  have hitems : readItems '\x7d' nested fuel
      ([] ++ (joined (margin options (depth + 1)) [',', '\n']
          (entryText options (depth + 1)) entries ++
          (('\n' :: margin options depth) ++ '\x7d' :: rest))) = some (entries, rest) :=
    readItems_joined (fun entry hentry => (h entry hentry (depth + 1)).2)
      (isSpace_margin (depth + 1)) hbreak htrail (.inr rfl) hne hfuel (List.forall_mem_nil _)
  rw [List.nil_append] at hitems
  have hnone : ∀ tail, readLiteral ('\n' :: tail) = none := fun _ => rfl
  unfold readBraced
  rw [hnone]
  simp only [hitems, Option.map_some]

end

/-! ## Entries -/

section

variable {options : RenderOptions} {fuel : Nat} {key : String} {value : Value}

theorem IsName.isWordChar (h : IsName key) : ∀ c ∈ key.toList, isWordChar c = true := by
  intro c hc
  have hletter := List.all_eq_true.1 h.chars c hc
  rw [Reading.isWordChar, hletter, Bool.true_or]

/-- An entry is read back if what it prints behind its name is. -/
theorem readsBack_of_tail (hkey : IsName key)
    (h : ∀ depth, ∃ tail, Prints options (Printer.entry depth [] key value) (key.toList ++ tail) ∧
      (∀ c ∈ tail.head?, c = '(' ∨ c = '=') ∧
      ∀ rest, Stops rest →
        readValue (readEntry fuel) fuel (tail ++ rest) = some (value, rest)) :
    ReadsBack options (readEntry (fuel + 1)) (key, value) := by
  intro depth
  obtain ⟨tail, ⟨hok, htext⟩, hmark, hread⟩ := h depth
  have hkeychars := hkey.isWordChar
  refine ⟨hok, ?_, fun rest hrest => ?_⟩
  · have hne : key.toList ≠ [] := fun hnil => hkey.ne_empty (String.toList_eq_nil_iff.1 hnil)
    obtain ⟨c, more, hcons⟩ := List.exists_cons_of_ne_nil hne
    rw [hcons] at hkeychars
    refine ⟨c, more ++ tail, ?_, isSpace_of_isWordChar (hkeychars c List.mem_cons_self)⟩
    rw [entryText, htext, hcons, List.cons_append]
  · have hend : ∀ c ∈ (tail ++ rest).head?, isWordChar c = false := by
      intro c hc
      cases tail with
      | nil => exact (hrest c hc).1
      | cons first others =>
          rcases hmark c hc with rfl | rfl <;> rfl
    rw [entryText, htext, List.append_assoc, readEntry, takeWhile_word hkeychars hend,
      dropWhile_word hkeychars hend, hread rest hrest, String.ofList_toList]
    rfl

theorem readValue_braced {nested : Reader (String × Value)} (rest : List Char) :
    readValue nested fuel ('=' :: '\x7b' :: rest) = readBraced nested fuel rest := by
  have hnone : readLiteral ('\x7b' :: rest) = none := rfl
  rw [readValue, hnone]

theorem readValue_literal {nested : Reader (String × Value)} {scalar : Scalar}
    {input rest : List Char} (h : readLiteral input = some (scalar, rest)) :
    readValue nested fuel ('=' :: input) = some (.scalar scalar, rest) := by
  unfold readValue
  simp only [h]

theorem readValue_map {nested : Reader (String × Value)} {input : List Char}
    (h : ∀ c ∈ input.head?, c ≠ '=') :
    readValue nested fuel input =
      (readModification nested fuel input).map fun (m, rest) => (.map m, rest) := by
  rw [readValue]
  rintro rest rfl
  exact h '=' rfl rfl

theorem readsBack_scalar {scalar : Scalar} (hkey : IsName key) (h : Readable scalar) :
    ReadsBack options (readEntry (fuel + 1)) (key, .scalar scalar) := by
  refine readsBack_of_tail hkey fun depth => ⟨'=' :: (literalText scalar).toList, ?_, ?_, ?_⟩
  · rw [Printer.entry, h.text?]
    have hchars : (key ++ "=" ++ literalText scalar).toList =
        key.toList ++ '=' :: (literalText scalar).toList := by simp
    rw [← hchars]
    exact prints_text _
  · exact fun c hc => .inr (Option.some.inj hc).symm
  · intro rest hrest
    exact readValue_literal (h.reads.back rest hrest)

theorem readsBack_tuple {scalars : List Scalar} (hkey : IsName key)
    (h : ∀ scalar ∈ scalars, Readable scalar) (hfuel : scalars.length ≤ fuel) :
    ReadsBack options (readEntry (fuel + 1)) (key, .tuple scalars) := by
  refine readsBack_of_tail hkey fun depth =>
    ⟨'=' :: '\x7b' :: (literalsText [' '] scalars ++ ['\x7d']), ?_, ?_, ?_⟩
  · rw [Printer.entry, scalarTexts_eq h]
    have hchars : (key ++ "=" ++ Printer.braced ", " (scalars.map literalText)).toList =
        key.toList ++ '=' :: '\x7b' :: (literalsText [' '] scalars ++ ['\x7d']) := by
      rw [String.toList_append, String.toList_append, toList_braced, List.append_assoc]
      rfl
    rw [← hchars]
    exact prints_text _
  · exact fun c hc => .inr (Option.some.inj hc).symm
  · intro rest _
    simpa [readValue_braced] using readBraced_tuple h hfuel rest

theorem readsBack_map {entries : List (String × Value)} (hkey : IsName key)
    (h : ∀ entry ∈ entries, ReadsBack options (readEntry fuel) entry)
    (hfuel : entries.length ≤ fuel) :
    ReadsBack options (readEntry (fuel + 1)) (key, .map ⟨entries⟩) := by
  refine readsBack_of_tail hkey fun depth => ?_
  obtain ⟨text, hprints, hopen, hread⟩ := readsMap_modification h hfuel depth []
  refine ⟨text, ?_, fun c hc => .inl (hopen c hc), fun rest hrest => ?_⟩
  · rw [Printer.entry]
    exact (prints_text key).append hprints
  · have hinput : ∀ c ∈ (text ++ rest).head?, c ≠ '=' := by
      intro c hc
      cases text with
      | nil => exact (hrest c hc).2.2
      | cons first more =>
          rw [hopen c hc]
          decide
    rw [readValue_map hinput, hread rest hrest]
    rfl

/-- A list on one line: what is printed behind the name is the text of the list. -/
theorem prints_flat (options : RenderOptions) (key : String) {items : List Value} {content : String}
    (h : Printer.listLayout items = .flat (.ok content)) (depth : Nat) :
    Prints options (Printer.entry depth [] key (.list items))
      (key.toList ++ '=' :: content.toList) := by
  rw [Printer.entry, h]
  have hcontent : ("=" ++ content).toList = '=' :: content.toList := String.toList_append
  rw [← hcontent]
  exact (prints_text key).append (prints_text ("=" ++ content))

theorem readsBack_literals {scalars : List Scalar} (hkey : IsName key)
    (hmany : 2 ≤ scalars.length) (h : ∀ scalar ∈ scalars, Readable scalar)
    (hfuel : scalars.length ≤ fuel) :
    ReadsBack options (readEntry (fuel + 1)) (key, .ofLiterals scalars) := by
  refine readsBack_of_tail hkey fun depth =>
    ⟨'=' :: '\x7b' :: (literalsText [] scalars ++ ['\x7d']), ?_, ?_, ?_⟩
  · have hlayout : Printer.listLayout (scalars.map .scalar) =
        .flat (.ok (Printer.braced "," (scalars.map literalText))) := by
      have htexts := (itemTexts_scalars scalars).trans (scalarTexts_eq h)
      match scalars with
      | first :: rest =>
          rw [Printer.listLayout, htexts]
          rfl
    have hprints := prints_flat options key hlayout depth
    rw [toList_braced] at hprints
    exact hprints
  · exact fun c hc => .inr (Option.some.inj hc).symm
  · intro rest _
    simpa [readValue_braced] using readBraced_list h hmany hfuel rest

theorem readsBack_rows {rows : List (List Scalar)} (hkey : IsName key) (hne : rows ≠ [])
    (h : ∀ row ∈ rows, ∀ scalar ∈ row, Readable scalar) (hfuel : rows.length ≤ fuel)
    (hfuels : ∀ row ∈ rows, row.length ≤ fuel) :
    ReadsBack options (readEntry (fuel + 1)) (key, .ofRows rows) := by
  refine readsBack_of_tail hkey fun depth =>
    ⟨'=' :: '\x7b' :: (joined [] [','] rowText rows ++ ['\x7d']), ?_, ?_, ?_⟩
  · have hlayout : Printer.listLayout (rows.map .ofLiterals) = .flat (.ok (Printer.braced ","
        (rows.map fun row => Printer.braced "," (row.map literalText)))) := by
      have htexts := rowTexts_eq h
      obtain ⟨first, rest, rfl⟩ := List.exists_cons_of_ne_nil hne
      rw [Printer.listLayout, htexts]
      rfl
    have hprints := prints_flat options key hlayout depth
    rw [toList_braced] at hprints
    simp only [toList_braced] at hprints
    exact hprints
  · exact fun c hc => .inr (Option.some.inj hc).symm
  · intro rest _
    simpa [readValue_braced] using readBraced_rows hne h hfuel hfuels rest

theorem readsBack_records {entries : List (String × Value)} (hkey : IsName key)
    (hne : entries ≠ []) (h : ∀ entry ∈ entries, ReadsBack options (readEntry fuel) entry)
    (hfuel : entries.length ≤ fuel) :
    ReadsBack options (readEntry (fuel + 1)) (key, .ofRecords entries) := by
  have hok : ∀ depth, ∀ entry ∈ entries, (Printer.entry depth [] entry.1 entry.2).Ok :=
    fun depth entry hentry => (h entry hentry depth).1
  refine readsBack_of_tail hkey fun depth => ⟨['=', '\x7b'] ++ ['\n'] ++
    joined (margin options (depth + 1)) [',', '\n'] (entryText options (depth + 1)) entries ++
    ['\n'] ++ margin options depth ++ ['\x7d'], ?_, ?_, ?_⟩
  · have hlayout : Printer.listLayout (entries.map fun entry => .map ⟨[entry]⟩) = .records := by
      obtain ⟨first, rest, rfl⟩ := List.exists_cons_of_ne_nil hne
      rfl
    rw [Value.ofRecords, Printer.entry, hlayout]
    exact (prints_text key).append ((((((prints_text "=\x7b").append (prints_text "\n")).append
      (prints_records (hok (depth + 1)) [] 0)).append (prints_text "\n")).append
      (prints_indentTo depth)).append (prints_text "\x7d"))
  · exact fun c hc => .inr (Option.some.inj hc).symm
  · intro rest _
    simpa [readValue_braced] using readBraced_records hne h hfuel rest

end

/-! ## Values -/

theorem length_le_sizeOf [SizeOf α] (items : List α) : items.length ≤ sizeOf items := by
  induction items with
  | nil => exact Nat.zero_le _
  | cons item rest ih =>
      rw [List.length_cons, List.cons.sizeOf_spec]
      omega

theorem sizeOf_value_lt {entries : List (String × Value)} {entry : String × Value}
    (h : entry ∈ entries) : sizeOf entry.2 < sizeOf entries := by
  have hentry := List.sizeOf_lt_of_mem h
  obtain ⟨key, value⟩ := entry
  rw [Prod.mk.sizeOf_spec] at hentry
  show sizeOf value < _
  omega

theorem ReadableValue.readsBack {options : RenderOptions} {value : Value}
    (h : ReadableValue value) {fuel : Nat} (hfuel : sizeOf value ≤ fuel) {key : String}
    (hkey : IsName key) : ReadsBack options (readEntry (fuel + 1)) (key, value) := by
  induction h generalizing fuel key with
  | scalar h => exact readsBack_scalar hkey h
  | @tuple scalars h =>
      have hlength := length_le_sizeOf scalars
      rw [Value.tuple.sizeOf_spec] at hfuel
      exact readsBack_tuple hkey h (by omega)
  | @map entries hnames hvalues ih =>
      have hlength := length_le_sizeOf entries
      rw [Value.map.sizeOf_spec, Modification.mk.sizeOf_spec] at hfuel
      obtain ⟨less, rfl⟩ : ∃ less, fuel = less + 1 := ⟨fuel - 1, by omega⟩
      refine readsBack_map hkey (fun entry hentry => ?_) (by omega)
      have hsize := sizeOf_value_lt hentry
      exact ih entry hentry (by omega) (hnames entry hentry)
  | @literals scalars hmany h =>
      have hlength := length_le_sizeOf (scalars.map Value.scalar)
      rw [List.length_map] at hlength
      rw [Value.ofLiterals, Value.list.sizeOf_spec] at hfuel
      exact readsBack_literals hkey hmany h (by omega)
  | @rows rows hne h =>
      have hlength := length_le_sizeOf (rows.map Value.ofLiterals)
      rw [List.length_map] at hlength
      rw [Value.ofRows, Value.list.sizeOf_spec] at hfuel
      refine readsBack_rows hkey hne h (by omega) fun row hrow => ?_
      have hitem := List.sizeOf_lt_of_mem (List.mem_map_of_mem (f := Value.ofLiterals) hrow)
      have hrowlength := length_le_sizeOf (row.map Value.scalar)
      rw [List.length_map] at hrowlength
      rw [Value.ofLiterals, Value.list.sizeOf_spec] at hitem
      omega
  | @records entries hne hnames hvalues ih =>
      have hlength := length_le_sizeOf (entries.map fun entry => Value.map ⟨[entry]⟩)
      rw [List.length_map] at hlength
      rw [Value.ofRecords, Value.list.sizeOf_spec] at hfuel
      obtain ⟨less, rfl⟩ : ∃ less, fuel = less + 1 := ⟨fuel - 1, by omega⟩
      refine readsBack_records hkey hne (fun entry hentry => ?_) (by omega)
      have hitem := List.sizeOf_lt_of_mem
        (List.mem_map_of_mem (f := fun entry => Value.map ⟨[entry]⟩) hentry)
      have hsize := sizeOf_value_lt (List.mem_singleton_self entry)
      rw [Value.map.sizeOf_spec, Modification.mk.sizeOf_spec] at hitem
      exact ih entry hentry (by omega) (hnames entry hentry)

/-- A readable modification is rendered, and the reader finds it in the text. -/
theorem ReadableModification.read_render {m : Modification} (h : ReadableModification m)
    (options : RenderOptions) {fuel : Nat} (hfuel : sizeOf m ≤ fuel) :
    ∃ text, render options (.modification m) = .ok text ∧
      readModification (readEntry fuel) fuel text.toList = some (m, []) := by
  obtain ⟨entries⟩ := m
  have hlength := length_le_sizeOf entries
  rw [Modification.mk.sizeOf_spec] at hfuel
  obtain ⟨less, rfl⟩ : ∃ less, fuel = less + 1 := ⟨fuel - 1, by omega⟩
  have hentries : ∀ entry ∈ entries, ReadsBack options (readEntry (less + 1)) entry := by
    intro entry hentry
    have hsize := sizeOf_value_lt hentry
    obtain ⟨hname, hvalue⟩ := h entry hentry
    exact hvalue.readsBack (by omega) hname
  have hcount : entries.length ≤ less + 1 := by omega
  obtain ⟨text, ⟨hok, htext⟩, -, hread⟩ := readsMap_modification hentries hcount 0 []
  refine ⟨_, render_eq_ok.2 ⟨hok, rfl⟩, ?_⟩
  have hend : Stops [] := by
    intro c hc
    cases hc
  show readModification _ _ (Printout.content _ _ (Printer.modification 0 [] ⟨entries⟩)).toList = _
  rw [htext, ← List.append_nil text]
  exact hread [] hend

/-- Two modifications of words and literals with one text are one modification: the same
names with the same values in the same order, at every depth. -/
theorem rendered_modification_injective (options : RenderOptions) {m m' : Modification}
    (h : ReadableModification m) (h' : ReadableModification m') :
    ∃ text text', render options (.modification m) = .ok text ∧
      render options (.modification m') = .ok text' ∧ (text = text' → m = m') := by
  have hfuel : sizeOf m ≤ sizeOf m + sizeOf m' := Nat.le_add_right ..
  have hfuel' : sizeOf m' ≤ sizeOf m + sizeOf m' := Nat.le_add_left ..
  obtain ⟨text, hrender, hread⟩ := h.read_render options hfuel
  obtain ⟨text', hrender', hread'⟩ := h'.read_render options hfuel'
  refine ⟨text, text', hrender, hrender', ?_⟩
  rintro rfl
  rw [hread] at hread'
  exact (Prod.mk.inj (Option.some.inj hread')).1

/-- A tuple, a list with the same literals, and a string that holds what separates them. -/
theorem rendered_modification_injective_pair :
    let entry (value : Value) : Modification :=
      ⟨[("note", .quoted "x=\x7b1, 2\x7d)"), ("points", value)]⟩
    ∃ text text',
      render {} (.modification (entry (.tuple [.integer 1, .integer (-2)]))) = .ok text ∧
      render {} (.modification (entry (.ofLiterals [.integer 1, .integer (-2)]))) = .ok text' ∧
      text ≠ text' := by
  intro entry
  have hpair : ∀ scalar ∈ [Scalar.integer 1, .integer (-2)], Readable scalar := by
    intro scalar hscalar
    simp only [List.mem_cons, List.not_mem_nil, or_false] at hscalar
    rcases hscalar with rfl | rfl <;> exact .integer _
  have hentry : ∀ {value}, ReadableValue value → ReadableModification (entry value) := by
    intro value hvalue other hother
    simp only [entry, List.mem_cons, List.not_mem_nil, or_false] at hother
    have hnote : IsName "note" := ⟨by decide, by decide⟩
    have hpoints : IsName "points" := ⟨by decide, by decide⟩
    rcases hother with rfl | rfl
    · exact ⟨hnote, .scalar (.quoted _)⟩
    · exact ⟨hpoints, hvalue⟩
  have hlist : ReadableValue (.ofLiterals [.integer 1, .integer (-2)]) :=
    .literals (by decide) hpair
  obtain ⟨text, text', htext, htext', hinj⟩ := rendered_modification_injective {}
    (hentry (.tuple hpair)) (hentry hlist)
  refine ⟨text, text', htext, htext', fun heq => ?_⟩
  have hentries := congrArg Modification.entries (hinj heq)
  simp [entry, Value.ofLiterals] at hentries

end Reading

end ModelSource

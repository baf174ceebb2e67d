import ModelSource.Printer.Value

/-!
# Reading literals and sequences

A reader takes the characters that are left and gives back what it read and the
rest. This file has the readers of the two things that modifications are made of,
literals and sequences between brackets, and shows that they read what is printed.

A text is read back if the reader finds its end on its own: it returns what the
text stands for and everything behind it, whatever that is, as long as it does not
carry a word on (`Stops`). A string literal may hold any of the characters that
separate things elsewhere, so it is read with its escapes; the other literals are
words.

Sequences differ in where they leave blanks and break lines. `readItems` skips
blanks before an item and before the mark behind it, so one lemma is enough for all
of them (`readItems_joined`).
-/

namespace ModelSource

namespace Text

theorem readBody_escape (text rest : List Char) :
    readBody (escape text ++ '"' :: rest) = some (text, rest) := by
  induction text with
  | nil => rfl
  | cons c more ih =>
      rw [escape]
      cases hc : needsBackslash c with
      | true =>
          rw [if_pos rfl, List.cons_append, List.cons_append, readBody, ih]
          rfl
      | false =>
          have hplain : c ≠ '"' ∧ c ≠ '\\' := by
            rw [needsBackslash, Bool.or_eq_false_iff] at hc
            exact ⟨beq_eq_false_iff_ne.1 hc.1, beq_eq_false_iff_ne.1 hc.2⟩
          rw [if_neg Bool.false_ne_true, List.cons_append, readBody, ih]
          · rfl
          · exact hplain.1
          · intro _ _ heq
            exact absurd heq hplain.2

/-- A string literal ends where its text ends, whatever the text is. -/
theorem readQuoted_quote (text : String) (rest : List Char) :
    readQuoted ((quote text).toList ++ rest) = some (text.toList, rest) := by
  have hchars : (quote text).toList ++ rest = '"' :: (escape text.toList ++ '"' :: rest) := by
    simp [quote]
  rw [hchars, readQuoted, readBody_escape]

end Text

namespace Reading

/-- Reads something from the front of the input. -/
abbrev Reader (α : Type) : Type :=
  List Char → Option (α × List Char)

def isSpace (c : Char) : Bool :=
  c == ' ' || c == '\t' || c == '\n'

/-- The characters of names, numbers and truth values. -/
def isWordChar (c : Char) : Bool :=
  c.isAlphanum || c == '_' || c == '-'

def skipSpaces (input : List Char) : List Char :=
  input.dropWhile isSpace

/-- The number that digits stand for, if they are digits. -/
def digits? (digits : List Char) : Option Nat :=
  if digits ≠ [] ∧ digits.all Char.isDigit then some (Nat.ofDigitChars 10 digits 0) else none

def integer? : List Char → Option Int
  | '-' :: digits => (digits? digits).map fun n => -(n : Int)
  | digits => (digits? digits).map Int.ofNat

/-- A word that is a literal. -/
def wordLiteral? (word : List Char) : Option Scalar :=
  match integer? word with
  | some n => some (.integer n)
  | none =>
    if word = "true".toList then some (.bool true)
    else if word = "false".toList then some (.bool false)
    else none

def readLiteral : Reader Scalar := fun input =>
  match Text.readQuoted input with
  | some (body, rest) => some (.quoted (String.ofList body), rest)
  | none =>
    (wordLiteral? (input.takeWhile isWordChar)).map fun scalar =>
      (scalar, input.dropWhile isWordChar)

/-- Items with commas between them, up to and including the closing character. -/
def readItems (close : Char) (read : Reader α) : Nat → Reader (List α)
  | 0, _ => none
  | fuel + 1, input =>
    match read (skipSpaces input) with
    | none => none
    | some (item, rest) =>
      match skipSpaces rest with
      | [] => none
      | c :: rest =>
        if c = close then some ([item], rest)
        else if c = ',' then
          (readItems close read fuel rest).map fun (items, rest) => (item :: items, rest)
        else none

/-! ## What it means to be read back -/

/-- The input does not carry on what was read before it. -/
def Stops (input : List Char) : Prop :=
  ∀ c ∈ input.head?, isWordChar c = false ∧ c ≠ '(' ∧ c ≠ '='

/-- The text is read as `a`, and what follows it is left. -/
structure Reads (read : Reader α) (text : List Char) (a : α) : Prop where
  /-- The text does not start with a blank. -/
  front : ∃ c rest, text = c :: rest ∧ isSpace c = false
  back : ∀ rest, Stops rest → read (text ++ rest) = some (a, rest)

theorem stops_cons {c : Char} (h : isWordChar c = false ∧ c ≠ '(' ∧ c ≠ '=') (rest : List Char) :
    Stops (c :: rest) := by
  intro first hfirst
  obtain rfl : c = first := Option.some.inj hfirst
  exact h

theorem stops_comma (rest : List Char) : Stops (',' :: rest) :=
  stops_cons (by decide) rest

/-- Blanks and then a character at which words end. -/
theorem stops_append {blanks rest : List Char} (hblanks : ∀ c ∈ blanks, isSpace c = true)
    (hrest : Stops rest) : Stops (blanks ++ rest) := by
  cases blanks with
  | nil => exact hrest
  | cons c more =>
      have hc := hblanks c List.mem_cons_self
      simp only [isSpace, Bool.or_eq_true, beq_iff_eq] at hc
      refine stops_cons ?_ (more ++ rest)
      rcases hc with (rfl | rfl) | rfl <;> decide

theorem skipSpaces_append {blanks : List Char} (h : ∀ c ∈ blanks, isSpace c = true)
    (rest : List Char) : skipSpaces (blanks ++ rest) = skipSpaces rest :=
  List.dropWhile_append_of_pos h

theorem skipSpaces_cons {c : Char} (h : isSpace c = false) (rest : List Char) :
    skipSpaces (c :: rest) = c :: rest := by
  rw [skipSpaces, List.dropWhile_cons_of_neg]
  simp [h]

theorem Reads.after_spaces {read : Reader α} {text blanks rest : List Char} {a : α}
    (h : Reads read text a) (hblanks : ∀ c ∈ blanks, isSpace c = true) (hrest : Stops rest) :
    read (skipSpaces (blanks ++ (text ++ rest))) = some (a, rest) := by
  obtain ⟨c, more, htext, hc⟩ := h.front
  have hkept : skipSpaces (text ++ rest) = text ++ rest := by
    rw [htext, List.cons_append, skipSpaces_cons hc]
  rw [skipSpaces_append hblanks, hkept]
  exact h.back rest hrest

/-! ## Words -/

theorem takeWhile_word {p : Char → Bool} {word rest : List Char} (hword : ∀ c ∈ word, p c = true)
    (hrest : ∀ c ∈ rest.head?, p c = false) : (word ++ rest).takeWhile p = word := by
  rw [List.takeWhile_append_of_pos hword]
  cases rest with
  | nil => rw [List.takeWhile_nil, List.append_nil]
  | cons c more =>
      have hc := hrest c rfl
      rw [List.takeWhile_cons_of_neg (by simp [hc]), List.append_nil]

theorem dropWhile_word {p : Char → Bool} {word rest : List Char} (hword : ∀ c ∈ word, p c = true)
    (hrest : ∀ c ∈ rest.head?, p c = false) : (word ++ rest).dropWhile p = rest := by
  rw [List.dropWhile_append_of_pos hword]
  cases rest with
  | nil => rfl
  | cons c more =>
      have hc := hrest c rfl
      rw [List.dropWhile_cons_of_neg (by simp [hc])]

theorem isWordChar_ne {c : Char} (h : isWordChar c = true) {other : Char}
    (hother : isWordChar other = false) : c ≠ other := by
  rintro rfl
  rw [h] at hother
  cases hother

theorem isSpace_of_isWordChar {c : Char} (h : isWordChar c = true) : isSpace c = false := by
  have hne := @isWordChar_ne c h
  simp only [isSpace, Bool.or_eq_false_iff, beq_eq_false_iff_ne]
  exact ⟨⟨hne (by decide), hne (by decide)⟩, hne (by decide)⟩

/-- A word that is a literal is read as that literal. -/
theorem reads_word {word : List Char} {scalar : Scalar} (hword : ∀ c ∈ word, isWordChar c = true)
    (hne : word ≠ []) (hliteral : wordLiteral? word = some scalar) :
    Reads readLiteral word scalar := by
  obtain ⟨c, more, rfl⟩ := List.exists_cons_of_ne_nil hne
  have hc : isWordChar c = true := hword c List.mem_cons_self
  refine ⟨⟨c, more, rfl, isSpace_of_isWordChar hc⟩, fun rest hrest => ?_⟩
  have hquote : Text.readQuoted (c :: more ++ rest) = none := by
    have hne : c ≠ '"' := isWordChar_ne hc (by decide)
    rw [List.cons_append, Text.readQuoted]
    intro _ heq
    exact hne (List.cons.inj heq).1
  rw [readLiteral, hquote]
  have hend : ∀ c ∈ rest.head?, isWordChar c = false := fun c hc => (hrest c hc).1
  simp only [takeWhile_word hword hend, dropWhile_word hword hend, hliteral, Option.map_some]

/-- A literal whose text stands for nothing else: no real, and no text that is
written as it is. -/
inductive Readable : Scalar → Prop where
  | bool (value : Bool) : Readable (.bool value)
  | integer (value : Int) : Readable (.integer value)
  | quoted (text : String) : Readable (.quoted text)

/-- The source text of a literal that has one. -/
def literalText (scalar : Scalar) : String :=
  (scalar.text? none).toOption.getD ""

theorem Readable.text? {scalar : Scalar} (h : Readable scalar) :
    scalar.text? none = .ok (literalText scalar) := by
  cases h <;> rfl

theorem isWordChar_of_isDigit {c : Char} (h : c.isDigit = true) : isWordChar c = true := by
  rw [isWordChar, Char.isAlphanum, h, Bool.or_true, Bool.true_or, Bool.true_or]

theorem digits?_toDigits (n : Nat) : digits? (Nat.toDigits 10 n) = some n := by
  have hall : (Nat.toDigits 10 n).all Char.isDigit = true :=
    List.all_eq_true.2 fun _ hc => Nat.isDigit_of_mem_toDigits (by decide) (by decide) hc
  rw [digits?, if_pos ⟨Nat.toDigits_ne_nil, hall⟩, Nat.ofDigitChars_ten_toDigits]

theorem integer?_toDigits (n : Nat) : integer? (Nat.toDigits 10 n) = some (n : Int) := by
  rw [integer?, digits?_toDigits]
  · rfl
  · intro digits hsign
    have hmem : '-' ∈ Nat.toDigits 10 n := hsign ▸ List.mem_cons_self
    have hdigit := Nat.isDigit_of_mem_toDigits (by decide) (by decide) hmem
    exact absurd hdigit (by decide)

theorem isWordChar_toDigits {n : Nat} : ∀ c ∈ Nat.toDigits 10 n, isWordChar c = true :=
  fun _ hc => isWordChar_of_isDigit (Nat.isDigit_of_mem_toDigits (by decide) (by decide) hc)

/-- A sign and digits. -/
theorem toList_integer (n : Int) :
    (toString n).toList = (if n < 0 then ['-'] else []) ++ Nat.toDigits 10 n.natAbs := by
  cases n with
  | ofNat m => exact Nat.toList_repr
  | negSucc m =>
      have hsign : toString (Int.negSucc m) = "-" ++ (m + 1).repr := rfl
      rw [hsign, String.toList_append, Nat.toList_repr, if_pos (Int.negSucc_lt_zero m)]
      rfl

theorem reads_integer (n : Int) : Reads readLiteral (toString n).toList (.integer n) := by
  cases n with
  | ofNat m =>
      have hchars : (toString (Int.ofNat m)).toList = Nat.toDigits 10 m := toList_integer m
      rw [hchars]
      refine reads_word isWordChar_toDigits Nat.toDigits_ne_nil ?_
      rw [wordLiteral?, integer?_toDigits]
      rfl
  | negSucc m =>
      have hchars : (toString (Int.negSucc m)).toList = '-' :: Nat.toDigits 10 (m + 1) :=
        (toList_integer (Int.negSucc m)).trans (by rw [if_pos (Int.negSucc_lt_zero m)]; rfl)
      rw [hchars]
      refine reads_word ?_ (List.cons_ne_nil _ _) ?_
      · intro c hc
        rcases List.mem_cons.1 hc with rfl | hc
        · decide
        · exact isWordChar_toDigits c hc
      · rw [wordLiteral?, integer?, digits?_toDigits]
        rfl

theorem Readable.reads {scalar : Scalar} (h : Readable scalar) :
    Reads readLiteral (literalText scalar).toList scalar := by
  cases h with
  | bool value =>
      cases value with
      | false => exact reads_word (List.all_eq_true.1 (by decide)) (by decide) (by decide)
      | true => exact reads_word (List.all_eq_true.1 (by decide)) (by decide) (by decide)
  | integer value => exact reads_integer value
  | quoted text =>
      have hfront : (Text.quote text).toList = '"' :: (Text.escape text.toList ++ ['"']) := by
        simp [Text.quote]
      refine ⟨⟨'"', _, hfront, by decide⟩, fun rest _ => ?_⟩
      show readLiteral ((Text.quote text).toList ++ rest) = _
      rw [readLiteral, Text.readQuoted_quote]
      simp only [String.ofList_toList]

/-! ## Sequences -/

/-- Items one after the other, each behind `lead`, with `mark` between them. -/
def joined (lead mark : List Char) (text : α → List Char) : List α → List Char
  | [] => []
  | item :: rest =>
    lead ++ text item ++ (if rest.isEmpty then [] else mark) ++ joined lead mark text rest

theorem toList_intercalate (mark : String) (texts : List String) :
    (String.intercalate mark texts).toList = joined [] mark.toList String.toList texts := by
  induction texts with
  | nil => rfl
  | cons first rest ih =>
      cases rest with
      | nil => simp [joined, String.intercalate_singleton]
      | cons second more =>
          rw [String.intercalate_cons_cons, String.toList_append, String.toList_append, ih, joined]
          rfl

theorem joined_map (lead mark : List Char) (text : β → List Char) (f : α → β) (items : List α) :
    joined lead mark text (items.map f) = joined lead mark (fun item => text (f item)) items := by
  induction items with
  | nil => rfl
  | cons item rest ih => rw [List.map_cons, joined, joined, ih, List.isEmpty_map]

/-- A sequence of texts that are read back is read back. The blanks after a mark, those
before an item and those at the end of the sequence are free. -/
theorem readItems_joined {read : Reader α} {text : α → List Char} {close : Char}
    {lead pad trail rest : List Char} {items : List α} {fuel : Nat}
    (hitems : ∀ item ∈ items, Reads read (text item) item)
    (hlead : ∀ c ∈ lead, isSpace c = true) (hpad : ∀ c ∈ pad, isSpace c = true)
    (htrail : ∀ c ∈ trail, isSpace c = true) (hclose : close = ')' ∨ close = '\x7d')
    (hne : items ≠ []) (hfuel : items.length ≤ fuel) {blanks : List Char}
    (hblanks : ∀ c ∈ blanks, isSpace c = true) :
    readItems close read fuel
        (blanks ++ (joined lead (',' :: pad) text items ++ (trail ++ close :: rest))) =
      some (items, rest) := by
  have hstop : isSpace close = false ∧ Stops (close :: rest) := by
    rcases hclose with rfl | rfl
    · exact ⟨by decide, stops_cons (by decide) rest⟩
    · exact ⟨by decide, stops_cons (by decide) rest⟩
  induction items generalizing fuel blanks with
  | nil => exact absurd rfl hne
  | cons item more ih =>
      obtain ⟨fuel, rfl⟩ : ∃ less, fuel = less + 1 := ⟨fuel - 1, by simp at hfuel; omega⟩
      have hitem := hitems item List.mem_cons_self
      have hbefore : ∀ c ∈ blanks ++ lead, isSpace c = true := by
        intro c hc
        exact (List.mem_append.1 hc).elim (hblanks c) (hlead c)
      cases more with
      | nil =>
          have hinput : blanks ++ (joined lead (',' :: pad) text [item] ++
                (trail ++ close :: rest)) =
              blanks ++ lead ++ (text item ++ (trail ++ close :: rest)) := by
            simp [joined]
          rw [readItems, hinput, hitem.after_spaces hbefore (stops_append htrail hstop.2)]
          simp only [skipSpaces_append htrail, skipSpaces_cons hstop.1, if_true]
      | cons next others =>
          have hinput : blanks ++ (joined lead (',' :: pad) text (item :: next :: others) ++
                (trail ++ close :: rest)) =
              blanks ++ lead ++ (text item ++ (',' :: (pad ++
                (joined lead (',' :: pad) text (next :: others) ++
                  (trail ++ close :: rest))))) := by
            rw [joined]
            simp
          have hmore := ih (fun other hother => hitems other (List.mem_cons_of_mem _ hother))
            (List.cons_ne_nil next others) (Nat.le_of_succ_le_succ hfuel) hpad
          have hcomma : ',' ≠ close := by
            rcases hclose with rfl | rfl <;> decide
          rw [readItems, hinput, hitem.after_spaces hbefore (stops_comma _)]
          simp only [skipSpaces_cons (by decide : isSpace ',' = false), if_neg hcomma, if_true,
            hmore, Option.map_some]

end Reading

end ModelSource

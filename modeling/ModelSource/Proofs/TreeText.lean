import ModelSource.Proofs.NumberText
import ModelSource.Tree

/-!
# A tree is told by its text

Texts of trees have no blanks between their parts, and nothing says how long a part
is. It is found out from the left: the first character tells what kind of tree there is
(`Genus`), a string ends at the first quote that is not escaped, a number where the
characters of numbers end, and an array or an object at its closing bracket.

So the statement to prove is one about what stands in front of any rest (`Told`), and
it is one lemma for every kind of tree. Only the numbers ask something of the rest: it
must not carry the number on, and commas and brackets do not.
-/

namespace ModelSource.Tree

/-! ## Strings -/

/-- The digit that a hexadecimal character stands for. -/
def hexValue (c : Char) : Nat :=
  if c.isDigit then c.toNat - 48 else c.toNat - 87

/-- The character that a letter behind a backslash stands for. -/
def namedEscape : Char → Char
  | 'b' => '\x08'
  | 'f' => '\x0c'
  | 'n' => '\n'
  | 'r' => '\r'
  | 't' => '\t'
  | c => c

/-- One character of a string, and what is left. -/
def unescape : List Char → Option (Char × List Char)
  | '\\' :: 'u' :: _ :: _ :: high :: low :: rest =>
    some (Char.ofNat (16 * hexValue high + hexValue low), rest)
  | '\\' :: mark :: rest => some (namedEscape mark, rest)
  | c :: rest => some (c, rest)
  | [] => none

theorem hexValue_hexDigit {n : Nat} (h : n < 16) : hexValue (hexDigit n) = n := by
  revert n
  decide

/-- Every character is read back from its escape. -/
theorem unescape_escapeChar (c : Char) (rest : List Char) :
    unescape (escapeChar c ++ rest) = some (c, rest) := by
  rw [escapeChar]
  -- the seven escapes with a letter of their own
  iterate 7
    split
    · next h =>
        subst h
        rfl
  split
  · have hhigh := hexValue_hexDigit (n := c.toNat / 16) (by omega)
    have hlow := hexValue_hexDigit (n := c.toNat % 16) (by omega)
    have hcode : 16 * (c.toNat / 16) + c.toNat % 16 = c.toNat := Nat.div_add_mod _ _
    simp only [List.cons_append, List.nil_append, unescape, hhigh, hlow, hcode, Char.ofNat_toNat]
  · next hback _ _ _ _ _ _ =>
      rw [List.singleton_append, unescape]
      · exact fun _ _ _ _ _ heq => absurd heq hback
      · exact fun _ _ heq => absurd heq hback

theorem escapeChar_front (c : Char) : ∃ first more, escapeChar c = first :: more ∧ first ≠ '"' := by
  rw [escapeChar]
  split
  · exact ⟨_, _, rfl, by decide⟩
  · next hquote =>
      iterate 7
        split
        · exact ⟨_, _, rfl, by decide⟩
      exact ⟨c, [], rfl, hquote⟩

/-- Escaped characters up to a quote end where the text ends. -/
theorem escaped_prefix {first second rest rest' : List Char}
    (h : first.flatMap escapeChar ++ '"' :: rest = second.flatMap escapeChar ++ '"' :: rest') :
    first = second ∧ rest = rest' := by
  induction first generalizing second with
  | nil =>
      cases second with
      | nil => exact ⟨rfl, (List.cons.inj h).2⟩
      | cons d more =>
          obtain ⟨lead, tail, hlead, hne⟩ := escapeChar_front d
          rw [List.flatMap_cons, hlead] at h
          exact absurd (List.cons.inj h).1.symm hne
  | cons c more ih =>
      cases second with
      | nil =>
          obtain ⟨lead, tail, hlead, hne⟩ := escapeChar_front c
          rw [List.flatMap_cons, hlead] at h
          exact absurd (List.cons.inj h).1 hne
      | cons d others =>
          have hread := congrArg unescape h
          rw [List.flatMap_cons, List.flatMap_cons, List.append_assoc, List.append_assoc,
            unescape_escapeChar, unescape_escapeChar] at hread
          obtain ⟨rfl, hmore⟩ := Prod.mk.inj (Option.some.inj hread)
          obtain ⟨rfl, hrest⟩ := ih hmore
          exact ⟨rfl, hrest⟩

theorem toList_stringText (text : String) :
    (stringText text).toList = '"' :: (text.toList.flatMap escapeChar ++ ['"']) := by
  simp [stringText]

theorem stringText_prefix {first second : String} {rest rest' : List Char}
    (h : (stringText first).toList ++ rest = (stringText second).toList ++ rest') :
    first = second ∧ rest = rest' := by
  rw [toList_stringText, toList_stringText] at h
  simp only [List.cons_append, List.append_assoc, List.nil_append, List.cons.injEq, true_and] at h
  obtain ⟨hchars, hrest⟩ := escaped_prefix h
  exact ⟨String.toList_inj.1 hchars, hrest⟩

/-! ## Numbers -/

/-- What follows does not carry a number on. -/
def Ends (rest : List Char) : Prop :=
  ∀ c ∈ rest.head?, Reading.isNumberChar c = false

theorem ends_cons {c : Char} (h : Reading.isNumberChar c = false) (rest : List Char) :
    Ends (c :: rest) := by
  rintro first ⟨⟩
  exact h

/-- Numbers end where the characters of numbers do. -/
theorem number_prefix {first second rest rest' : List Char}
    (hfirst : ∀ c ∈ first, Reading.isNumberChar c = true)
    (hsecond : ∀ c ∈ second, Reading.isNumberChar c = true) (hrest : Ends rest)
    (hrest' : Ends rest') (h : first ++ rest = second ++ rest') :
    first = second ∧ rest = rest' := by
  have htake := congrArg (List.takeWhile Reading.isNumberChar) h
  have hdrop := congrArg (List.dropWhile Reading.isNumberChar) h
  rw [Reading.takeWhile_word hfirst hrest, Reading.takeWhile_word hsecond hrest'] at htake
  rw [Reading.dropWhile_word hfirst hrest, Reading.dropWhile_word hsecond hrest'] at hdrop
  exact ⟨htake, hdrop⟩

theorem integer_injective {n m : Int} (h : (toString n).toList = (toString m).toList) : n = m := by
  have hn := (Reading.reads_integer n).back [] nofun
  rw [h, (Reading.reads_integer m).back [] nofun] at hn
  cases hn
  rfl

theorem integer_chars (n : Int) : ∀ c ∈ (toString n).toList, c = '-' ∨ c.isDigit = true := by
  intro c hc
  rw [Reading.toList_integer] at hc
  rcases List.mem_append.1 hc with hsign | hdigit
  · split at hsign
    · exact .inl (List.mem_singleton.1 hsign)
    · cases hsign
  · exact .inr (isDigit_toDigits _ c hdigit)

theorem isNumberChar_integer (n : Int) :
    ∀ c ∈ (toString n).toList, Reading.isNumberChar c = true := by
  intro c hc
  rcases integer_chars n c hc with rfl | hdigit
  · decide
  · exact Reading.isNumberChar_of_isDigit hdigit

/-- The text of a finite real: characters of numbers, among them a point or an exponent. -/
theorem real_chars {x : Binary64} (h : x.isFinite = true) :
    (∀ c ∈ (numberText x).toList, Reading.isNumberChar c = true) ∧
      ('.' ∈ (numberText x).toList ∨ 'e' ∈ (numberText x).toList) := by
  rw [numberText, if_pos h]
  obtain ⟨body, v, htext, hspells, -⟩ := numberStyle.toList_finiteText x
  rw [htext]
  refine ⟨List.forall_mem_append.2 ⟨?_, hspells.isNumberChar⟩, ?_⟩
  · cases x.isNegative with
    | true => exact List.forall_mem_singleton.2 rfl
    | false => exact nofun
  · exact hspells.marked.imp (List.mem_append_right _) (List.mem_append_right _)

theorem real_ne_integer {x : Binary64} (h : x.isFinite = true) (n : Int) :
    (numberText x).toList ≠ (toString n).toList := by
  intro heq
  have hmark := (real_chars h).2
  rw [heq] at hmark
  rcases hmark with hpoint | hexponent
  · exact absurd (integer_chars n _ hpoint) (by decide)
  · exact absurd (integer_chars n _ hexponent) (by decide)

theorem real_injective {x y : Binary64} (hx : x.isFinite = true) (hy : y.isFinite = true)
    (h : (numberText x).toList = (numberText y).toList) : x = y := by
  rw [numberText, numberText, if_pos hx, if_pos hy] at h
  exact numberStyle.finiteText_injective (String.toList_inj.1 h)

/-! ## Trees -/

mutual

/-- The reals in a tree. -/
def reals : Tree → List Binary64
  | .real x => [x]
  | .array items => itemReals items
  | .object members => memberReals members
  | .null | .bool _ | .integer _ | .text _ => []

def itemReals : List Tree → List Binary64
  | [] => []
  | item :: rest => item.reals ++ itemReals rest

def memberReals : List (String × Tree) → List Binary64
  | [] => []
  | (_, value) :: rest => value.reals ++ memberReals rest

end

@[simp] theorem reals_array (items : List Tree) : (array items).reals = items.flatMap reals := by
  rw [reals]
  induction items with
  | nil => rfl
  | cons item rest ih => rw [itemReals, ih, List.flatMap_cons]

@[simp] theorem reals_object (members : List (String × Tree)) :
    (object members).reals = members.flatMap fun member => member.2.reals := by
  rw [reals]
  induction members with
  | nil => rfl
  | cons member rest ih => rw [memberReals, ih, List.flatMap_cons]

/-- All reals in the tree have digits. -/
def Finite (t : Tree) : Prop :=
  ∀ x ∈ t.reals, x.isFinite = true

/-- What the first character of a text tells about a tree. -/
inductive Genus where
  | null
  | bool
  | number
  | text
  | array
  | object

def genus : Tree → Genus
  | .null => .null
  | .bool _ => .bool
  | .integer _ | .real _ => .number
  | .text _ => .text
  | .array _ => .array
  | .object _ => .object

def Genus.ofChar? (c : Char) : Option Genus :=
  if Reading.isNumberChar c then some .number
  else
    match c with
    | 'n' => some .null
    | 't' | 'f' => some .bool
    | '"' => some .text
    | '[' => some .array
    | '\x7b' => some .object
    | _ => none

theorem number_front {text : List Char} (hne : text ≠ [])
    (h : ∀ c ∈ text, Reading.isNumberChar c = true) :
    ∃ c rest, text = c :: rest ∧ Genus.ofChar? c = some .number := by
  obtain ⟨c, rest, rfl⟩ := List.exists_cons_of_ne_nil hne
  exact ⟨c, rest, rfl, if_pos (h c List.mem_cons_self)⟩

/-- A member: its name, a colon and its value. -/
def memberText (member : String × Tree) : String :=
  stringText member.1 ++ ":" ++ member.2.compact

theorem compactItems_eq (items : List Tree) : compactItems items = items.map compact := by
  induction items with
  | nil => rfl
  | cons item rest ih => rw [compactItems, ih, List.map_cons]

theorem compactMembers_eq (members : List (String × Tree)) :
    compactMembers members = members.map memberText := by
  induction members with
  | nil => rfl
  | cons member rest ih => rw [compactMembers, ih, List.map_cons, memberText]

theorem toList_array (items : List Tree) :
    (array items).compact.toList =
      '[' :: (Reading.joined [] [','] (fun item => item.compact.toList) items ++ [']']) := by
  rw [compact, compactItems_eq, String.toList_append, String.toList_append,
    Reading.toList_intercalate, Reading.joined_map]
  rfl

theorem toList_object (members : List (String × Tree)) :
    (object members).compact.toList =
      '\x7b' :: (Reading.joined [] [','] (fun member => (memberText member).toList) members
        ++ ['\x7d']) := by
  rw [compact, compactMembers_eq, String.toList_append, String.toList_append,
    Reading.toList_intercalate, Reading.joined_map]
  rfl

theorem compact_front {t : Tree} (h : t.Finite) :
    ∃ c rest, t.compact.toList = c :: rest ∧ Genus.ofChar? c = some t.genus := by
  cases t with
  | null => exact ⟨'n', _, rfl, rfl⟩
  | bool value =>
      cases value with
      | true => exact ⟨'t', _, rfl, rfl⟩
      | false => exact ⟨'f', _, rfl, rfl⟩
  | integer n =>
      refine number_front (fun hnil => ?_) (isNumberChar_integer n)
      rw [compact, Reading.toList_integer] at hnil
      exact Nat.toDigits_ne_nil (List.append_eq_nil_iff.1 hnil).2
  | real x =>
      obtain ⟨hchars, hmark⟩ := real_chars (h x (by simp [reals]))
      refine number_front (fun hnil => ?_) hchars
      rw [compact] at hnil
      rw [hnil] at hmark
      simp at hmark
  | text value => exact ⟨'"', _, by rw [compact, toList_stringText], rfl⟩
  | array items => exact ⟨'[', _, toList_array items, rfl⟩
  | object members => exact ⟨'\x7b', _, toList_object members, rfl⟩

/-- What stands behind an item: the end, or a comma and the next one. -/
theorem joined_cons {α : Type} (text : α → List Char) (a : α) (rest : List α) :
    Reading.joined [] [','] text (a :: rest) =
      text a ++ if rest = [] then [] else ',' :: Reading.joined [] [','] text rest := by
  cases rest with
  | nil => simp [Reading.joined]
  | cons b more => simp [Reading.joined]

/-- A sequence of texts that find their own end, with commas between them, ends where the
closing character stands. -/
theorem joined_prefix {α : Type} {text : α → List Char} {valid : α → Prop} {close : Char}
    (hcomma : ',' ≠ close) (hclose : Reading.isNumberChar close = false)
    (hfront : ∀ b, valid b → ∃ c rest, text b = c :: rest ∧ c ≠ close) {first second : List α}
    (hfirst : ∀ a ∈ first, valid a) (hsecond : ∀ b ∈ second, valid b)
    (hitem : ∀ a ∈ first, ∀ b, valid b → ∀ rest rest', Ends rest → Ends rest' →
      text a ++ rest = text b ++ rest' → a = b ∧ rest = rest')
    {rest rest' : List Char}
    (h : Reading.joined [] [','] text first ++ close :: rest =
      Reading.joined [] [','] text second ++ close :: rest') :
    first = second ∧ rest = rest' := by
  have hends : ∀ (others : List α) (rest : List Char),
      Ends ((if others = [] then [] else ',' :: Reading.joined [] [','] text others) ++
        close :: rest) := by
    intro others rest
    split
    · exact ends_cons hclose rest
    · exact ends_cons (by decide) _
  induction first generalizing second with
  | nil =>
      cases second with
      | nil => exact ⟨rfl, (List.cons.inj h).2⟩
      | cons b others =>
          obtain ⟨c, more, hb, hne⟩ := hfront b (hsecond b List.mem_cons_self)
          rw [joined_cons, hb] at h
          exact absurd (List.cons.inj h).1.symm hne
  | cons a others ih =>
      cases second with
      | nil =>
          obtain ⟨c, more, ha, hne⟩ := hfront a (hfirst a List.mem_cons_self)
          rw [joined_cons, ha] at h
          exact absurd (List.cons.inj h).1 hne
      | cons b others' =>
          rw [joined_cons, joined_cons, List.append_assoc, List.append_assoc] at h
          obtain ⟨rfl, htail⟩ := hitem a List.mem_cons_self b (hsecond b List.mem_cons_self) _ _
            (hends others rest) (hends others' rest') h
          rw [List.forall_mem_cons] at hfirst hsecond hitem
          -- both go on behind a comma, or both end here
          by_cases hlast : others = []
          · by_cases hlast' : others' = []
            · subst hlast hlast'
              exact ⟨rfl, (List.cons.inj htail).2⟩
            · rw [if_pos hlast, if_neg hlast'] at htail
              exact absurd (List.cons.inj htail).1.symm hcomma
          · by_cases hlast' : others' = []
            · rw [if_neg hlast, if_pos hlast'] at htail
              exact absurd (List.cons.inj htail).1 hcomma
            · rw [if_neg hlast, if_neg hlast'] at htail
              obtain ⟨rfl, hrest⟩ := ih hfirst.2 hsecond.2 hitem.2 (List.cons.inj htail).2
              exact ⟨rfl, hrest⟩

theorem finite_leaf {t : Tree} (h : t.reals = []) : t.Finite := by
  rw [Finite, h]
  exact nofun

theorem finite_array {items : List Tree} :
    (array items).Finite ↔ ∀ item ∈ items, item.Finite := by
  rw [Finite, reals_array, List.forall_mem_flatMap]
  rfl

theorem finite_object {members : List (String × Tree)} :
    (object members).Finite ↔ ∀ member ∈ members, member.2.Finite := by
  rw [Finite, reals_object, List.forall_mem_flatMap]
  rfl

/-- The tree is told by the front of its text, whatever follows. -/
def Told (t : Tree) : Prop :=
  ∀ u, u.Finite → ∀ rest rest', Ends rest → Ends rest' →
    t.compact.toList ++ rest = u.compact.toList ++ rest' → t = u ∧ rest = rest'

theorem genus_eq {t u : Tree} (ht : t.Finite) (hu : u.Finite) {rest rest' : List Char}
    (h : t.compact.toList ++ rest = u.compact.toList ++ rest') : t.genus = u.genus := by
  obtain ⟨c, more, htext, hgenus⟩ := compact_front ht
  obtain ⟨c', more', htext', hgenus'⟩ := compact_front hu
  rw [htext, htext'] at h
  exact Option.some.inj (hgenus.symm.trans ((List.cons.inj h).1 ▸ hgenus'))

theorem told_array {items : List Tree} (hfinite : (array items).Finite)
    (htold : ∀ item ∈ items, item.Told) : (array items).Told := by
  intro u hu rest rest' _ _ h
  have hgenus := genus_eq hfinite hu h
  have hfront : ∀ item : Tree, item.Finite →
      ∃ c rest, item.compact.toList = c :: rest ∧ c ≠ ']' := by
    intro item hitem
    obtain ⟨c, more, htext, hgenus⟩ := compact_front hitem
    refine ⟨c, more, htext, ?_⟩
    rintro rfl
    cases hgenus
  cases u with
  | array items' =>
      rw [toList_array, toList_array] at h
      simp only [List.cons_append, List.append_assoc, List.nil_append, List.cons.injEq,
        true_and] at h
      obtain ⟨rfl, hrest⟩ := joined_prefix (by decide) (by decide) hfront
        (finite_array.1 hfinite) (finite_array.1 hu) htold h
      exact ⟨rfl, hrest⟩
  | null | bool | integer | real | text | object => cases hgenus

/-- A member ends where its value ends. -/
theorem memberText_prefix {member other : String × Tree} (htold : member.2.Told)
    (hother : other.2.Finite) {rest rest' : List Char} (hrest : Ends rest) (hrest' : Ends rest')
    (h : (memberText member).toList ++ rest = (memberText other).toList ++ rest') :
    member = other ∧ rest = rest' := by
  simp only [memberText, String.toList_append, List.append_assoc] at h
  obtain ⟨hkey, hvalue⟩ := stringText_prefix h
  obtain ⟨hvalue, hrest⟩ := htold other.2 hother _ _ hrest hrest' (List.cons.inj hvalue).2
  exact ⟨Prod.ext hkey hvalue, hrest⟩

theorem told_object {members : List (String × Tree)} (hfinite : (object members).Finite)
    (htold : ∀ member ∈ members, member.2.Told) : (object members).Told := by
  intro u hu rest rest' _ _ h
  have hgenus := genus_eq hfinite hu h
  have hfront : ∀ member : String × Tree, member.2.Finite →
      ∃ c rest, (memberText member).toList = c :: rest ∧ c ≠ '\x7d' := by
    intro member _
    have htext : (memberText member).toList = '"' :: ((memberText member).toList.drop 1) := by
      rw [memberText, String.toList_append, String.toList_append, toList_stringText]
      rfl
    exact ⟨'"', _, htext, by decide⟩
  cases u with
  | object members' =>
      rw [toList_object, toList_object] at h
      simp only [List.cons_append, List.append_assoc, List.nil_append, List.cons.injEq,
        true_and] at h
      obtain ⟨rfl, hrest⟩ := joined_prefix (by decide) (by decide) hfront
        (finite_object.1 hfinite) (finite_object.1 hu)
        (fun member hmem other hother _ _ => memberText_prefix (htold member hmem) hother) h
      exact ⟨rfl, hrest⟩
  | null | bool | integer | real | text | array => cases hgenus

theorem told_integer (n : Int) : (integer n).Told := by
  intro u hu rest rest' hrest hrest' h
  have hgenus := genus_eq (finite_leaf rfl) hu h
  cases u with
  | integer m =>
      obtain ⟨htext, hrest⟩ :=
        number_prefix (isNumberChar_integer n) (isNumberChar_integer m) hrest hrest' h
      exact ⟨congrArg integer (integer_injective htext), hrest⟩
  | real x =>
      have hx := hu x (List.mem_singleton.2 rfl)
      obtain ⟨htext, -⟩ :=
        number_prefix (isNumberChar_integer n) (real_chars hx).1 hrest hrest' h
      exact absurd htext.symm (real_ne_integer hx n)
  | null | bool | text | array | object => cases hgenus

theorem told_real {x : Binary64} (hx : x.isFinite = true) : (real x).Told := by
  intro u hu rest rest' hrest hrest' h
  have hgenus := genus_eq (by simpa [Finite, reals] using hx) hu h
  cases u with
  | integer m =>
      obtain ⟨htext, -⟩ :=
        number_prefix (real_chars hx).1 (isNumberChar_integer m) hrest hrest' h
      exact absurd htext (real_ne_integer hx m)
  | real y =>
      have hy := hu y (List.mem_singleton.2 rfl)
      obtain ⟨htext, hrest⟩ :=
        number_prefix (real_chars hx).1 (real_chars hy).1 hrest hrest' h
      exact ⟨congrArg real (real_injective hx hy htext), hrest⟩
  | null | bool | text | array | object => cases hgenus

theorem told_text (value : String) : (text value).Told := by
  intro u hu rest rest' _ _ h
  have hgenus := genus_eq (finite_leaf rfl) hu h
  cases u with
  | text other =>
      obtain ⟨rfl, hrest⟩ := stringText_prefix h
      exact ⟨rfl, hrest⟩
  | null | bool | integer | real | array | object => cases hgenus

theorem told_null : null.Told := by
  intro u hu rest rest' _ _ h
  have hgenus := genus_eq (finite_leaf rfl) hu h
  cases u with
  | null => exact ⟨rfl, List.append_cancel_left h⟩
  | bool | integer | real | text | array | object => cases hgenus

theorem told_bool (value : Bool) : (bool value).Told := by
  intro u hu rest rest' _ _ h
  have hgenus := genus_eq (finite_leaf rfl) hu h
  cases u with
  | bool other =>
      have hvalue : value = other := by
        cases value <;> cases other
        · rfl
        · cases (List.cons.inj h).1
        · cases (List.cons.inj h).1
        · rfl
      subst hvalue
      exact ⟨rfl, List.append_cancel_left h⟩
  | null | integer | real | text | array | object => cases hgenus

mutual

theorem told (t : Tree) (h : t.Finite) : t.Told := by
  match t with
  | .null => exact told_null
  | .bool value => exact told_bool value
  | .integer n => exact told_integer n
  | .real x => exact told_real (h x (List.mem_singleton.2 rfl))
  | .text value => exact told_text value
  | .array items => exact told_array h (told_items items (finite_array.1 h))
  | .object members => exact told_object h (told_members members (finite_object.1 h))

theorem told_items (items : List Tree) (h : ∀ item ∈ items, item.Finite) :
    ∀ item ∈ items, item.Told := by
  match items with
  | [] => exact nofun
  | item :: rest =>
      rw [List.forall_mem_cons] at h ⊢
      exact ⟨told item h.1, told_items rest h.2⟩

theorem told_members (members : List (String × Tree)) (h : ∀ member ∈ members, member.2.Finite) :
    ∀ member ∈ members, member.2.Told := by
  match members with
  | [] => exact nofun
  | (key, value) :: rest =>
      rw [List.forall_mem_cons] at h ⊢
      exact ⟨told value h.1, told_members rest h.2⟩

end

/-- No two trees have one text, if all their reals have digits. -/
theorem compact_injective {t u : Tree} (ht : t.Finite) (hu : u.Finite)
    (h : t.compact = u.compact) : t = u :=
  (told t ht u hu [] [] nofun nofun (by rw [h])).1

end ModelSource.Tree

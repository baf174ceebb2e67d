import ModelSource.Proofs.Grouping
import ModelSource.Proofs.Lines

/-!
# The line of an if-expression says how it was nested

An if-expression inside another one goes in as its line, without parentheses around it, in
whatever part it stands. What is left is a sequence of words in which nothing marks where an
inner expression ends. It can be read back all the same, since every `if` has an `else`: after
a part that has been read to its end, the next word is `elseif` or `else`, and it belongs to the
innermost expression that has had no `else` yet. `words_append_inj` is that argument, for a tree
that is followed by anything at all; two trees with one text have the same words, because a
text is cut into its words at the spaces.

The other half is that there is a line. A tree is built from the inside out, and at every
place an if-expression may be handed to the builder around it as a construct or as its line
(`Ways`). The builder takes in the same expression either way, and the calls are legal.
-/

namespace ModelSource

/-! ## Trees -/

/-- The words that hold an if-expression together. -/
def ifKeywords : List String :=
  ["if", "then", "elseif", "else"]

/-- A word that is no keyword. -/
structure Atom where
  text : Expression
  nonempty : text ≠ ""
  unspaced : ∀ c ∈ text.toList, Text.isBlank c = false
  plain : text ∉ ifKeywords

theorem Atom.text_ne {word : Atom} {keyword : String} (h : keyword ∈ ifKeywords) :
    word.text ≠ keyword := by
  rintro rfl
  exact word.plain h

/-- Nested if-expressions. -/
inductive IfTree where
  | atom (word : Atom)
  /-- A test and a body, further tests with a body each, and the else. -/
  | choice (test body : IfTree) (branches : List (IfTree × IfTree)) (orelse : IfTree)

/-- How an if-expression is handed to the builder around it. -/
inductive Handing where
  | asConstruct
  | asLine

/-- How each if-expression inside one is handed over, by its place. The parts are numbered:
the test, the body and the else, and then those of the branches. -/
abbrev Ways : Type :=
  List Nat → Handing

def Ways.inside (ways : Ways) (part : Nat) : Ways :=
  fun place => ways (part :: place)

/-- What has been made of a tree. -/
inductive IfPart where
  | atom (text : Expression)
  | construct (c : Construct)

namespace IfPart

def line : IfPart → Except Error Expression
  | .atom text => .ok text
  | .construct c => c.inline

def clause (handing : Handing) : IfPart → Except Error Clause
  | .atom text => .ok (.expression text)
  | .construct c =>
    match handing with
    | .asConstruct => .ok (.construct c)
    | .asLine => c.inline.map .expression

end IfPart

def branchCalls (branches : List (Expression × Clause)) : List BuilderCall :=
  branches.flatMap fun branch => [.elseif branch.1, .thenDo [branch.2]]

/-- The calls that fill an if-expression with one clause for each part. -/
def ifCalls (body : Clause) (branches : List (Expression × Clause)) (last : Clause) :
    List BuilderCall :=
  .thenDo [body] :: (branchCalls branches ++ [.orelse [last]])

namespace IfTree

mutual

/-- Builds the tree from the inside out. -/
def build (ways : Ways) : IfTree → Except Error IfPart
  | .atom word => .ok (.atom word.text)
  | .choice test body branches orelse => do
    let test ← (← build (ways.inside 0) test).line
    let body ← (← build (ways.inside 1) body).clause (ways [1])
    let last ← (← build (ways.inside 2) orelse).clause (ways [2])
    let branches ← buildBranches ways 3 branches
    let c ← (ConstructBuilder.openIf test).build (ifCalls body branches last)
    return .construct c

/-- Builds tests and bodies, of which the first test is the part of that number. -/
def buildBranches (ways : Ways) (part : Nat) :
    List (IfTree × IfTree) → Except Error (List (Expression × Clause))
  | [] => .ok []
  | (test, body) :: rest => do
    let test ← (← build (ways.inside part) test).line
    let body ← (← build (ways.inside (part + 1)) body).clause (ways [part + 1])
    let rest ← buildBranches ways (part + 2) rest
    return (test, body) :: rest

end

/-- The text of a tree: an atom, or the line of the construct that is built. -/
def text (ways : Ways) (t : IfTree) : Except Error Expression := do
  (← t.build ways).line

mutual

/-- The words of the text. -/
def words : IfTree → List String
  | .atom word => [word.text]
  | .choice test body branches orelse =>
    "if" :: (words test ++ "then" :: (words body ++
      (branchWords branches ++ "else" :: words orelse)))

def branchWords : List (IfTree × IfTree) → List String
  | [] => []
  | (test, body) :: rest =>
    "elseif" :: (words test ++ "then" :: (words body ++ branchWords rest))

end

/-! ## The words determine the tree -/

mutual

/-- Whatever follows a tree, its words say where it ends. -/
theorem words_append_inj {t u : IfTree} {rest rest' : List String}
    (h : t.words ++ rest = u.words ++ rest') : t = u ∧ rest = rest' := by
  match t, u with
  | .atom ⟨text, _, _, _⟩, .atom ⟨text', _, _, _⟩ =>
      simp only [words, List.singleton_append, List.cons.injEq] at h
      obtain ⟨rfl, hrest⟩ := h
      exact ⟨rfl, hrest⟩
  | .atom word, .choice .. =>
      simp only [words, List.cons_append, List.cons.injEq] at h
      exact absurd h.1 (Atom.text_ne (by decide))
  | .choice .., .atom word =>
      simp only [words, List.cons_append, List.cons.injEq] at h
      exact absurd h.1.symm (Atom.text_ne (by decide))
  | .choice test body branches orelse, .choice test' body' branches' orelse' =>
      -- Each part ends at the same place on both sides, so the words behind it are left.
      simp only [words, List.cons_append, List.append_assoc, List.cons.injEq, true_and] at h
      obtain ⟨rfl, hthen⟩ := words_append_inj h
      obtain ⟨rfl, hbranches⟩ := words_append_inj (List.cons.inj hthen).2
      obtain ⟨rfl, hlast⟩ := branchWords_append_inj hbranches
      obtain ⟨rfl, hrest⟩ := words_append_inj hlast
      exact ⟨rfl, hrest⟩

/-- Branches end at the `else`, since each of them starts with another word. -/
theorem branchWords_append_inj {branches branches' : List (IfTree × IfTree)}
    {rest rest' : List String}
    (h : branchWords branches ++ "else" :: rest = branchWords branches' ++ "else" :: rest') :
    branches = branches' ∧ rest = rest' := by
  match branches, branches' with
  | [], [] => exact ⟨rfl, (List.cons.inj h).2⟩
  | [], (test, body) :: more => simp [branchWords] at h
  | (test, body) :: more, [] => simp [branchWords] at h
  | (test, body) :: more, (test', body') :: more' =>
      simp only [branchWords, List.cons_append, List.append_assoc, List.cons.injEq,
        true_and] at h
      obtain ⟨rfl, hthen⟩ := words_append_inj h
      obtain ⟨rfl, hmore⟩ := words_append_inj (List.cons.inj hthen).2
      obtain ⟨rfl, hrest⟩ := branchWords_append_inj hmore
      exact ⟨rfl, hrest⟩

end

theorem words_injective {t u : IfTree} (h : t.words = u.words) : t = u :=
  (words_append_inj (congrArg (· ++ []) h)).1

/-! ## The text determines the words -/

/-- Words with a space before each. -/
def spaced (ws : List String) : List Char :=
  ws.flatMap fun word => ' ' :: word.toList

@[simp] theorem spaced_nil : spaced [] = [] :=
  rfl

@[simp] theorem spaced_cons (word : String) (ws : List String) :
    spaced (word :: ws) = ' ' :: (word.toList ++ spaced ws) :=
  rfl

@[simp] theorem spaced_append (ws ws' : List String) :
    spaced (ws ++ ws') = spaced ws ++ spaced ws' :=
  List.flatMap_append

/-- A text is cut into its words at the spaces. -/
theorem pieces_spaced {first : List Char} {ws : List String} (hfirst : ' ' ∉ first)
    (h : ∀ word ∈ ws, ' ' ∉ word.toList) :
    Text.pieces (· == ' ') (first ++ spaced ws) = first :: ws.map String.toList := by
  induction ws generalizing first with
  | nil => rw [spaced_nil, List.append_nil, Text.pieces_of_not_mem hfirst, List.map_nil]
  | cons word rest ih =>
      rw [List.forall_mem_cons] at h
      rw [spaced_cons, Text.pieces_append_cons (by decide), Text.pieces_of_not_mem hfirst,
        ih h.1 h.2]
      rfl

theorem spaced_injective {ws ws' : List String} (h : ∀ word ∈ ws, ' ' ∉ word.toList)
    (h' : ∀ word ∈ ws', ' ' ∉ word.toList) (heq : spaced ws = spaced ws') : ws = ws' := by
  have hpieces : [] :: ws.map String.toList = [] :: ws'.map String.toList := by
    rw [← pieces_spaced List.not_mem_nil h, ← pieces_spaced List.not_mem_nil h', heq]
  have hinjective : Function.Injective String.toList := fun _ _ => String.toList_inj.1
  exact List.map_injective_iff.2 hinjective (List.cons.inj hpieces).2

mutual

theorem space_not_mem_words (t : IfTree) : ∀ word ∈ t.words, ' ' ∉ word.toList := by
  match t with
  | .atom word =>
      intro text htext hspace
      obtain rfl := List.mem_singleton.1 htext
      exact absurd (word.unspaced ' ' hspace) (by decide)
  | .choice test body branches orelse =>
      have htest := space_not_mem_words test
      have hbody := space_not_mem_words body
      have hbranches := space_not_mem_branchWords branches
      have hlast := space_not_mem_words orelse
      simp only [words, List.forall_mem_cons, List.forall_mem_append]
      exact ⟨by decide, htest, by decide, hbody, hbranches, by decide, hlast⟩

theorem space_not_mem_branchWords (branches : List (IfTree × IfTree)) :
    ∀ word ∈ branchWords branches, ' ' ∉ word.toList := by
  match branches with
  | [] => exact List.forall_mem_nil _
  | (test, body) :: rest =>
      have htest := space_not_mem_words test
      have hbody := space_not_mem_words body
      have hrest := space_not_mem_branchWords rest
      simp only [branchWords, List.forall_mem_cons, List.forall_mem_append]
      exact ⟨by decide, htest, by decide, hbody, hrest⟩

end

end IfTree

/-! ## The calls that fill an if-expression -/

/-- The clause is taken in as an expression. -/
def Clause.Inlines (clause : Clause) (text : Expression) : Prop :=
  ConstructBuilder.flatten clause = .ok (.expression text)

theorem Clause.Inlines.inlined {clause : Clause} {text : Expression} (h : clause.Inlines text) :
    clause.inlined = .expression text :=
  (ConstructBuilder.inlined_of_flatten h).symm

/-- It makes no difference how an if-expression is handed over. -/
theorem IfPart.clause_of_line {made : IfPart} {text : Expression} (h : made.line = .ok text)
    (handing : Handing) : ∃ clause, made.clause handing = .ok clause ∧ clause.Inlines text := by
  cases made with
  | atom =>
      cases h
      exact ⟨_, rfl, rfl⟩
  | construct c =>
      have hline : c.inline = .ok text := h
      have hkind : c.bodyKind = .expression := (Construct.inline_eq_ok.1 ⟨text, hline⟩).1
      cases handing with
      | asConstruct =>
          refine ⟨.construct c, rfl, ?_⟩
          rw [Clause.Inlines, ConstructBuilder.flatten, if_pos hkind, hline]
          rfl
      | asLine =>
          refine ⟨.expression text, ?_, rfl⟩
          rw [IfPart.clause, hline]
          rfl

def Branch.ofClause (branch : Expression × Clause) : Branch :=
  ⟨branch.1, [branch.2.inlined]⟩

/-- An if-expression with one clause for each part. -/
def Construct.ofClauses (test : Expression) (body : Clause)
    (branches : List (Expression × Clause)) (last : Clause) : Construct where
  kind := .ifThen
  bodyKind := .expression
  test := some test
  indices := []
  body := [body.inlined]
  branches := branches.map Branch.ofClause
  orelse := some [last.inlined]

namespace BuilderCall

variable {body last : Clause} {branches : List (Expression × Clause)}

theorem clauses_ifCalls :
    (ifCalls body branches last).flatMap clauses = body :: (branches.map Prod.snd ++ [last]) := by
  simp [ifCalls, branchCalls, clauses, List.flatMap_assoc, List.map_eq_flatMap]

theorem given_ifCalls :
    given (ifCalls body branches last) =
      (body :: (branches.map Prod.snd ++ [last])).map Clause.inlined := by
  rw [← clauses_ifCalls, List.map_flatMap]
  rfl

theorem branchCalls_cons (branch : Expression × Clause) (rest : List (Expression × Clause))
    (calls : List BuilderCall) :
    branchCalls (branch :: rest) ++ calls =
      .elseif branch.1 :: .thenDo [branch.2] :: (branchCalls rest ++ calls) :=
  rfl

theorem bodyOf_branchCalls : bodyOf (branchCalls branches ++ [.orelse [last]]) = [] := by
  cases branches with
  | nil => exact bodyOf_cons_of_turns rfl
  | cons branch rest => exact bodyOf_cons_of_turns rfl

theorem branchesOf_branchCalls :
    branchesOf (branchCalls branches ++ [.orelse [last]]) = branches.map Branch.ofClause := by
  induction branches with
  | nil => rfl
  | cons branch rest ih =>
      rw [branchCalls_cons, branchesOf_cons_of_some rfl, branchesOf_cons_of_none rfl, ih,
        bodyOf_cons_of_stays rfl, bodyOf_branchCalls]
      rfl

theorem elseOf_branchCalls :
    elseOf (branchCalls branches ++ [.orelse [last]]) = some [last.inlined] := by
  induction branches with
  | nil => rfl
  | cons branch rest ih =>
      rw [branchCalls_cons, elseOf_cons_of_not rfl, elseOf_cons_of_not rfl, ih]

theorem elseLast_branchCalls : ElseLast (branchCalls branches ++ [.orelse [last]]) := by
  induction branches with
  | nil => exact List.pairwise_singleton _ _
  | cons branch rest ih =>
      rw [branchCalls_cons, elseLast_cons, elseLast_cons]
      exact ⟨nofun, nofun, ih⟩

theorem available_ifCalls : ∀ call ∈ ifCalls body branches last, call.Available .ifThen := by
  intro call hcall
  simp only [ifCalls, branchCalls, List.mem_cons, List.mem_append, List.mem_flatMap,
    List.not_mem_nil, or_false] at hcall
  rcases hcall with rfl | ⟨branch, -, rfl | rfl⟩ | rfl
  · exact .inl rfl
  · exact rfl
  · exact .inl rfl
  · exact .inl rfl

theorem bodyOf_ifCalls : bodyOf (ifCalls body branches last) = [body.inlined] := by
  rw [ifCalls, bodyOf_cons_of_stays rfl, bodyOf_branchCalls]
  rfl

theorem branchesOf_ifCalls :
    branchesOf (ifCalls body branches last) = branches.map Branch.ofClause := by
  rw [ifCalls, branchesOf_cons_of_none rfl, branchesOf_branchCalls]

theorem elseOf_ifCalls : elseOf (ifCalls body branches last) = some [last.inlined] := by
  rw [ifCalls, elseOf_cons_of_not rfl, elseOf_branchCalls]

theorem kind_of_mem_given
    (h : ∀ clause ∈ body :: (branches.map Prod.snd ++ [last]), ∃ text, clause.Inlines text) :
    ∀ clause ∈ given (ifCalls body branches last), clause.kind = .expression := by
  rw [given_ifCalls, List.forall_mem_map]
  intro source hsource
  obtain ⟨text, htext⟩ := h source hsource
  rw [htext.inlined]
  rfl

theorem legal_ifCalls
    (h : ∀ clause ∈ body :: (branches.map Prod.snd ++ [last]), ∃ text, clause.Inlines text) :
    Legal .ifThen (ifCalls body branches last) where
  available := available_ifCalls
  elseLast := elseLast_cons.2 ⟨nofun, elseLast_branchCalls⟩
  alike := by
    intro first hfirst second hsecond
    rw [kind_of_mem_given h first hfirst, kind_of_mem_given h second hsecond]
  complete := by
    intro _
    rw [bodyOf_ifCalls, branchesOf_ifCalls, elseOf_ifCalls]
    refine ⟨rfl, rfl, ?_, _, rfl, rfl⟩
    intro branch hbranch
    obtain ⟨source, -, rfl⟩ := List.mem_map.1 hbranch
    rfl

end BuilderCall

open BuilderCall ConstructBuilder in
theorem ConstructBuilder.build_ifCalls {test : Expression} {body last : Clause}
    {branches : List (Expression × Clause)}
    (h : ∀ clause ∈ body :: (branches.map Prod.snd ++ [last]), ∃ text, clause.Inlines text) :
    (openIf test).build (ifCalls body branches last) =
      .ok (Construct.ofClauses test body branches last) := by
  have hlegal := legal_ifCalls h
  have hflat : ∀ call ∈ ifCalls body branches last, ∀ clause ∈ call.clauses,
      flatten clause = .ok clause.inlined := by
    intro call hcall clause hclause
    have hmem := List.mem_flatMap.2 ⟨call, hcall, hclause⟩
    rw [clauses_ifCalls] at hmem
    obtain ⟨text, htext⟩ := h clause hmem
    rw [htext.inlined]
    exact htext
  have hfresh : (openIf test).Fresh := .openIf test
  rw [hfresh.build_of_legal hflat hlegal, hfresh.assemble_after hlegal.elseLast, bodyOf_ifCalls,
    branchesOf_ifCalls, elseOf_ifCalls]
  have hheld : settled none (given (ifCalls body branches last)) = some .expression := by
    rw [settled_eq (kind_of_mem_given h), given_ifCalls]
    rfl
  rw [hheld]
  rfl

theorem Construct.inline_ofClauses (test : Expression) {bodyLine more lastLine : Expression}
    {body last : Clause} {branches : List (Expression × Clause)} (hbody : body.Inlines bodyLine)
    (hmore : inlineBranches (branches.map Branch.ofClause) = .ok more)
    (hlast : last.Inlines lastLine) :
    (ofClauses test body branches last).inline =
      .ok ("if " ++ test ++ " then " ++ bodyLine ++ more ++ " else " ++ lastLine) := by
  simp [inline, ofClauses, hbody.inlined, hlast.inlined, hmore, singleExpression, Except.map]

namespace IfTree

open ConstructBuilder

mutual

/-- A tree can be built, and its line is its words with spaces between them. -/
theorem build_line (ways : Ways) (t : IfTree) : ∃ made line,
    t.build ways = .ok made ∧ made.line = .ok line ∧ ' ' :: line.toList = spaced t.words := by
  match t with
  | .atom word => exact ⟨_, _, rfl, rfl, by simp [words]⟩
  | .choice test body branches orelse =>
      obtain ⟨testMade, testLine, htest, htestLine, htestWords⟩ := build_line (ways.inside 0) test
      obtain ⟨bodyMade, bodyLine, hbody, hbodyLine, hbodyWords⟩ := build_line (ways.inside 1) body
      obtain ⟨lastMade, lastLine, hlast, hlastLine, hlastWords⟩ := build_line (ways.inside 2) orelse
      obtain ⟨handed, more, hbranches, htexts, hmore, hmoreWords⟩ :=
        buildBranches_line ways 3 branches
      obtain ⟨bodyClause, hbodyClause, hbodyText⟩ := IfPart.clause_of_line hbodyLine (ways [1])
      obtain ⟨lastClause, hlastClause, hlastText⟩ := IfPart.clause_of_line hlastLine (ways [2])
      -- From here on only the expressions count that the clauses are taken in as.
      have hbuild : (openIf testLine).build (ifCalls bodyClause handed lastClause) =
          .ok (.ofClauses testLine bodyClause handed lastClause) := by
        refine build_ifCalls ?_
        simp only [List.forall_mem_cons, List.forall_mem_append, List.forall_mem_map]
        exact ⟨⟨_, hbodyText⟩, htexts, ⟨_, hlastText⟩, List.forall_mem_nil _⟩
      refine ⟨.construct _, _, ?_, Construct.inline_ofClauses testLine hbodyText hmore hlastText,
        ?_⟩
      · simp only [build, bind, Except.bind, htest, htestLine, hbody, hbodyClause, hlast,
          hlastClause, hbranches, hbuild]
        rfl
      · simp [words, ← htestWords, ← hbodyWords, ← hlastWords, ← hmoreWords]

theorem buildBranches_line (ways : Ways) (part : Nat) (branches : List (IfTree × IfTree)) :
    ∃ handed line, buildBranches ways part branches = .ok handed ∧
      (∀ branch ∈ handed, ∃ text, branch.2.Inlines text) ∧
      Construct.inlineBranches (handed.map Branch.ofClause) = .ok line ∧
      line.toList = spaced (branchWords branches) := by
  match branches with
  | [] => exact ⟨[], "", rfl, List.forall_mem_nil _, rfl, rfl⟩
  | (test, body) :: rest =>
      obtain ⟨testMade, testLine, htest, htestLine, htestWords⟩ :=
        build_line (ways.inside part) test
      obtain ⟨bodyMade, bodyLine, hbody, hbodyLine, hbodyWords⟩ :=
        build_line (ways.inside (part + 1)) body
      obtain ⟨handed, more, hrest, htexts, hmore, hmoreWords⟩ :=
        buildBranches_line ways (part + 2) rest
      obtain ⟨bodyClause, hbodyClause, hbodyText⟩ :=
        IfPart.clause_of_line hbodyLine (ways [part + 1])
      refine ⟨(testLine, bodyClause) :: handed,
        " elseif " ++ testLine ++ " then " ++ bodyLine ++ more, ?_, ?_, ?_, ?_⟩
      · simp only [buildBranches, bind, Except.bind, htest, htestLine, hbody, hbodyClause, hrest]
        rfl
      · exact List.forall_mem_cons.2 ⟨⟨bodyLine, hbodyText⟩, htexts⟩
      · simp [Construct.inlineBranches, Construct.singleExpression, Branch.ofClause,
          hbodyText.inlined, hmore, Except.map]
      · simp [branchWords, ← htestWords, ← hbodyWords, ← hmoreWords]

end

theorem text_eq (ways : Ways) (t : IfTree) :
    ∃ line, t.text ways = .ok line ∧ ' ' :: line.toList = spaced t.words := by
  obtain ⟨made, line, hmade, hline, hwords⟩ := build_line ways t
  refine ⟨line, ?_, hwords⟩
  rw [text, hmade]
  exact hline

/-- Every tree has a text, however its parts are handed over, and two trees have one text only
if they are the same tree. -/
theorem text_determines_tree (t u : IfTree) (ways ways' : Ways) :
    (∃ line, t.text ways = .ok line) ∧ (t.text ways = u.text ways' ↔ t = u) := by
  obtain ⟨line, hline, hwords⟩ := text_eq ways t
  obtain ⟨line', hline', hwords'⟩ := text_eq ways' u
  refine ⟨⟨line, hline⟩, ?_, ?_⟩
  · intro h
    rw [hline, hline'] at h
    cases h
    refine words_injective (spaced_injective t.space_not_mem_words u.space_not_mem_words ?_)
    rw [← hwords, hwords']
  · rintro rfl
    rw [← hwords'] at hwords
    rw [hline, hline', String.toList_inj.1 (List.cons.inj hwords).2]

/-- The `elseif` is the inner expression's, which has had no `else` when it comes. -/
example :
    let a : IfTree := .atom ⟨"a", by decide, List.forall_mem_singleton.2 rfl, by decide⟩
    (choice a (choice a a [(a, a)] a) [] a).text (fun _ => .asConstruct) =
      .ok "if a then if a then a elseif a then a else a else a" :=
  rfl

end IfTree

end ModelSource

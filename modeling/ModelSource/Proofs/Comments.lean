import Mathlib.Data.List.Chain
import ModelSource.Proofs.Layout

/-!
# Comments stay comments

The lines of a comment are the user's, and the marks around them are put there
without a look at what the lines hold. For comments that end with their line there
is nothing that could go wrong as long as a line is a line. A block comment ends
where its closing mark first occurs, and that may happen early: inside a line, which
is the caller's to avoid, or across a seam, where a star and a slash meet that were
written by different hands. This file shows that they never meet.

The seams are all alike. Between a line and what is written next there is a gap
without a slash, and every gap ends in a blank; so a star before the gap is not
followed by a slash, and a slash behind it does not follow a star
(`Unclosed.across`). That holds for the opening mark, for a line break with
indentation and continuation, and for the closing mark up to its star.
-/

namespace ModelSource

/-! ## Reading comments -/

/-- Where a reader of comments stands. -/
inductive Lexing where
  | between
  | inLine
  | inBlock

/-- The text is nothing but comments and blanks. A comment that starts with two slashes ends
with its line, a block where its closing mark first occurs. -/
def onlyComments : Lexing → List Char → Bool
  | .between, [] => true
  | .between, '/' :: '/' :: rest => onlyComments .inLine rest
  | .between, '/' :: '*' :: rest => onlyComments .inBlock rest
  | .between, c :: rest => Text.isBlank c && onlyComments .between rest
  | .inLine, [] => true
  | .inLine, c :: rest => onlyComments (if c = '\n' then .between else .inLine) rest
  | .inBlock, [] => false
  | .inBlock, '*' :: '/' :: rest => onlyComments .between rest
  | .inBlock, _ :: rest => onlyComments .inBlock rest

/-- The text does not hold the closing mark of a block. -/
def Unclosed (text : List Char) : Prop :=
  ¬ ['*', '/'] <:+: text

theorem unclosed_iff_isChain {text : List Char} :
    Unclosed text ↔ text.IsChain fun a b => ¬ (a = '*' ∧ b = '/') := by
  constructor
  · intro h
    refine (List.isChain_isInfix text).imp ?_
    rintro a b hpair ⟨rfl, rfl⟩
    exact h hpair
  · intro h hmark
    have hpair := List.IsChain.infix h hmark
    exact List.isChain_pair.1 hpair ⟨rfl, rfl⟩

instance (text : List Char) : Decidable (Unclosed text) :=
  decidable_of_iff _ unclosed_iff_isChain.symm

/-- No mark comes about at a gap without a slash that ends in a blank. -/
theorem Unclosed.across {before gap after : List Char} (hbefore : Unclosed before)
    (hslash : '/' ∉ gap) (hblank : gap.getLast? = some ' ') (hafter : Unclosed after) :
    Unclosed (before ++ (gap ++ after)) := by
  rw [unclosed_iff_isChain] at hbefore hafter ⊢
  have hgap : gap.IsChain fun a b => ¬ (a = '*' ∧ b = '/') := by
    refine (List.isChain_isInfix gap).imp ?_
    rintro a b hpair ⟨-, rfl⟩
    exact hslash (hpair.subset (by simp))
  have hlast : ∀ a ∈ gap.getLast?, ∀ b ∈ after.head?, ¬ (a = '*' ∧ b = '/') := by
    rintro a ha b - ⟨rfl, -⟩
    rw [hblank] at ha
    cases ha
  have hfirst : ∀ a ∈ before.getLast?, ∀ b ∈ (gap ++ after).head?, ¬ (a = '*' ∧ b = '/') := by
    rintro a - b hb ⟨-, rfl⟩
    cases gap with
    | nil => cases hblank
    | cons c more =>
        obtain rfl : c = '/' := Option.some.inj hb
        exact hslash List.mem_cons_self
  exact hbefore.append (hgap.append hafter hlast) hfirst

theorem onlyComments_blanks {blanks : List Char} (h : ∀ c ∈ blanks, Text.isBlank c = true)
    (rest : List Char) :
    onlyComments .between (blanks ++ rest) = onlyComments .between rest := by
  induction blanks with
  | nil => rfl
  | cons c more ih =>
      rw [List.forall_mem_cons] at h
      have hc : c ≠ '/' := by
        rintro rfl
        exact absurd h.1 (by decide)
      rw [List.cons_append, onlyComments, h.1, Bool.true_and, ih h.2]
      · intro _ heq _
        exact hc heq
      · intro _ heq _
        exact hc heq

theorem onlyComments_line {text : List Char} (h : '\n' ∉ text) (rest : List Char) :
    onlyComments .inLine (text ++ '\n' :: rest) = onlyComments .between rest := by
  induction text with
  | nil => simp [onlyComments]
  | cons c more ih =>
      have hc : c ≠ '\n' := fun heq => h (heq ▸ List.mem_cons_self)
      rw [List.cons_append, onlyComments, if_neg hc, ih fun hmem => h (List.mem_cons_of_mem c hmem)]

/-- A block is read to its closing mark if that does not occur before, nor with the first of
its characters. -/
theorem onlyComments_block {body : List Char} (h : Unclosed (body ++ ['*'])) (rest : List Char) :
    onlyComments .inBlock (body ++ '*' :: '/' :: rest) = onlyComments .between rest := by
  induction body with
  | nil => rfl
  | cons c more ih =>
      have hmore : Unclosed (more ++ ['*']) := fun hmark =>
        h (hmark.trans (List.suffix_cons c _).isInfix)
      have hstep : onlyComments .inBlock (c :: (more ++ '*' :: '/' :: rest)) =
          onlyComments .inBlock (more ++ '*' :: '/' :: rest) := by
        rw [onlyComments]
        -- A star here with a slash behind it would be a mark before its time.
        rintro after rfl hnext
        cases more with
        | nil => cases hnext
        | cons next others =>
            obtain rfl : next = '/' := (List.cons.inj hnext).1
            exact h (List.prefix_append ['*', '/'] (others ++ ['*'])).isInfix
      rw [List.cons_append, hstep, ih hmore]

/-! ## Raw text -/

/-- What stands before each line of raw text. -/
def RenderOptions.margin (options : RenderOptions) (indented : Bool) : String :=
  if indented then indentation options.indent.unit options.startIndent else ""

theorem isIndentation_margin (options : RenderOptions) (indented : Bool) :
    ∀ c ∈ (options.margin indented).toList, isIndentation c = true := by
  cases indented with
  | false => exact List.forall_mem_nil _
  | true =>
      show ∀ c ∈ (indentation options.indent.unit options.startIndent).toList, _
      rw [indentation_eq]
      exact isIndentation_levels options options.startIndent

/-- Lines behind a margin, each of them ended. -/
def terminated (margin : String) (lines : List String) : String :=
  String.join (lines.map fun line => margin ++ line ++ "\n")

theorem terminated_cons (margin line : String) (rest : List String) :
    terminated margin (line :: rest) = margin ++ line ++ "\n" ++ terminated margin rest := by
  rw [terminated, List.map_cons, String.join_cons]
  rfl

theorem rawLines_eq (options : RenderOptions) (indented : Bool) (lines : List String) :
    (Printer.rawLines 0 indented lines).Ok ∧
      (Printer.rawLines 0 indented lines).content options.indent.unit options.startIndent =
        terminated (options.margin indented) lines := by
  induction lines with
  | nil => exact ⟨rfl, String.join_nil⟩
  | cons line rest ih =>
      obtain ⟨hok, hcontent⟩ := ih
      rw [Printer.rawLines, terminated_cons]
      cases indented with
      | false =>
          simp only [Bool.false_eq_true, if_false, Printout.ok_append, Printout.ok_empty,
            Printout.ok_text, Printout.ok_newline, hok, and_self, true_and, RenderOptions.margin,
            String.empty_append]
          rw [Printout.content_append _ _ (by simp), hcontent]
          rfl
      | true =>
          refine ⟨by simp [hok], ?_⟩
          rw [Printout.content_append _ _ (by simp), hcontent]
          simp [Printout.content_append, RenderOptions.margin]

theorem render_rawText (options : RenderOptions) (text : RawText) :
    render options (.element (.text text)) =
      .ok (terminated (options.margin text.indented) text.lines) := by
  obtain ⟨hok, hcontent⟩ := rawLines_eq options text.indented text.lines
  exact render_eq_ok.2 ⟨hok, hcontent⟩

/-! ## Marked lines -/

namespace CommentStyle

theorem length_markLines (style : CommentStyle) (mark : String) (lines : List String) :
    (style.markLines mark lines).length = lines.length := by
  induction lines generalizing mark with
  | nil => rfl
  | cons this rest ih =>
      cases rest with
      | nil => rfl
      | cons next more =>
          rw [markLines, List.length_cons, ih]
          rfl

/-- The marks have no line breaks, so marked lines have none. -/
theorem not_mem_markLines {style : CommentStyle} {mark : String} {lines : List String}
    (hmark : '\n' ∉ mark.toList) (h : ∀ line ∈ lines, '\n' ∉ line.toList) :
    ∀ line ∈ style.markLines mark lines, '\n' ∉ line.toList := by
  induction lines generalizing mark with
  | nil => exact List.forall_mem_nil _
  | cons this rest ih =>
      rw [List.forall_mem_cons] at h
      cases rest with
      | nil =>
          have hclosing : '\n' ∉ style.closing.toList := by cases style <;> decide
          rw [markLines, List.forall_mem_singleton]
          simp [hmark, h.1, hclosing]
      | cons next more =>
          have hcontinuation : '\n' ∉ style.continuation.toList := by cases style <;> decide
          rw [markLines, List.forall_mem_cons]
          refine ⟨?_, ih hcontinuation h.2⟩
          simp [hmark, h.1]

/-- Where all marks are the same and nothing is closed, every line has the mark. -/
theorem markLines_eq_map {style : CommentStyle} (hsame : style.continuation = style.opening)
    (hclosing : style.closing = "") (lines : List String) :
    style.markLines style.opening lines = lines.map (style.opening ++ ·) := by
  induction lines with
  | nil => rfl
  | cons this rest ih =>
      cases rest with
      | nil => rw [markLines, hclosing, String.append_empty, List.map_singleton]
      | cons next more =>
          rw [markLines, hsame, ih]
          rfl

/-- A block up to its closing mark, and the mark is the first. -/
theorem exists_block {style : CommentStyle} (hcontinuation : style.continuation = " * ")
    (hclosing : style.closing = " */") {margin : String}
    (hmargin : ∀ c ∈ margin.toList, isIndentation c = true) {lines : List String}
    (hne : lines ≠ []) (hlines : ∀ line ∈ lines, Unclosed line.toList) (mark : String) :
    ∃ body : String,
      terminated margin (style.markLines mark lines) = margin ++ mark ++ body ++ "*/" ++ "\n" ∧
        Unclosed (body ++ "*").toList := by
  -- The mark is general, since only the first line has the one that opens the block.
  induction lines generalizing mark with
  | nil => exact absurd rfl hne
  | cons this rest ih =>
      rw [List.forall_mem_cons] at hlines
      cases rest with
      | nil =>
          refine ⟨this ++ " ", ?_, ?_⟩
          · rw [markLines, hclosing, terminated_cons]
            simp [terminated, String.append_assoc]
          · have hslash : '/' ∉ [' '] := by decide
            have hstar : Unclosed ['*'] := unclosed_iff_isChain.2 (.singleton _)
            rw [String.append_assoc, String.toList_append]
            exact hlines.1.across hslash rfl hstar
      | cons next more =>
          obtain ⟨body, htext, hbody⟩ := ih (List.cons_ne_nil next more) hlines.2 " * "
          refine ⟨this ++ "\n" ++ margin ++ " * " ++ body, ?_, ?_⟩
          · rw [markLines, hcontinuation, terminated_cons, htext]
            simp only [String.append_assoc]
          · have hslash : '/' ∉ '\n' :: (margin.toList ++ [' ', '*', ' ']) := by
              intro hmem
              rcases List.mem_cons.1 hmem with heq | hmem
              · cases heq
              · rcases List.mem_append.1 hmem with hmem | hmem
                · exact absurd (hmargin '/' hmem) (by decide)
                · exact absurd hmem (by decide)
            have hblank : ('\n' :: (margin.toList ++ [' ', '*', ' '])).getLast? = some ' ' := by
              rw [← List.cons_append, List.getLast?_append]
              rfl
            have hcross := hlines.1.across hslash hblank hbody
            simpa using hcross

/-- The marks of a block open it and leave a gap. -/
theorem exists_opened_block {style : CommentStyle} (hstyle : style = .block ∨ style = .docBlock)
    {margin : String} (hmargin : ∀ c ∈ margin.toList, isIndentation c = true)
    {lines : List String} (hne : lines ≠ []) (hlines : ∀ line ∈ lines, Unclosed line.toList) :
    ∃ body : String,
      terminated margin (style.markLines style.opening lines) =
          margin ++ "/*" ++ body ++ "*/" ++ "\n" ∧
        Unclosed (body ++ "*").toList := by
  obtain ⟨gap, hopening, hslash, hblank⟩ : ∃ gap : String, style.opening = "/*" ++ gap ∧
      '/' ∉ gap.toList ∧ gap.toList.getLast? = some ' ' := by
    rcases hstyle with rfl | rfl
    · exact ⟨" ", rfl, by decide, rfl⟩
    · exact ⟨"* ", rfl, by decide, rfl⟩
  have hmarks : style.continuation = " * " ∧ style.closing = " */" := by
    rcases hstyle with rfl | rfl <;> exact ⟨rfl, rfl⟩
  obtain ⟨body, htext, hbody⟩ :=
    exists_block hmarks.1 hmarks.2 hmargin hne hlines style.opening
  refine ⟨gap ++ body, ?_, ?_⟩
  · rw [htext, hopening]
    simp only [String.append_assoc]
  · have hnothing : Unclosed [] := unclosed_iff_isChain.2 .nil
    rw [String.append_assoc, String.toList_append]
    exact hnothing.across hslash hblank hbody

/-- The other marks are slashes. -/
theorem slashes_markLines {style : CommentStyle} (hstyle : style = .line ∨ style = .doc)
    (lines : List String) :
    ∀ line ∈ style.markLines style.opening lines, ∃ rest, line = "//" ++ rest := by
  have hmarks : style.continuation = style.opening ∧ style.closing = "" := by
    rcases hstyle with rfl | rfl <;> exact ⟨rfl, rfl⟩
  obtain ⟨more, hopening⟩ : ∃ more : String, style.opening = "//" ++ more := by
    rcases hstyle with rfl | rfl
    · exact ⟨" ", rfl⟩
    · exact ⟨"/ ", rfl⟩
  rw [markLines_eq_map hmarks.1 hmarks.2, List.forall_mem_map]
  intro line _
  exact ⟨more ++ line, by rw [hopening, String.append_assoc]⟩

end CommentStyle

/-! ## Comments -/

theorem isBlank_of_isIndentation {c : Char} (h : isIndentation c = true) :
    Text.isBlank c = true := by
  rw [isIndentation, Bool.or_eq_true, beq_iff_eq, beq_iff_eq] at h
  rcases h with rfl | rfl <;> decide

theorem onlyComments_slashes {margin : String}
    (hmargin : ∀ c ∈ margin.toList, isIndentation c = true) {lines : List String}
    (hslashes : ∀ line ∈ lines, ∃ rest, line = "//" ++ rest)
    (hbreak : ∀ line ∈ lines, '\n' ∉ line.toList) :
    onlyComments .between (terminated margin lines).toList = true := by
  induction lines with
  | nil => rfl
  | cons line rest ih =>
      rw [List.forall_mem_cons] at hslashes hbreak
      obtain ⟨⟨content, rfl⟩, hslashes⟩ := hslashes
      have hcontent : '\n' ∉ content.toList := fun hmem => hbreak.1 (by simp [hmem])
      have htext : (terminated margin (("//" ++ content) :: rest)).toList = margin.toList ++
          '/' :: '/' :: (content.toList ++ '\n' :: (terminated margin rest).toList) := by
        rw [terminated_cons]
        simp
      rw [htext, onlyComments_blanks fun c hc => isBlank_of_isIndentation (hmargin c hc),
        onlyComments, onlyComments_line hcontent]
      exact ih hslashes hbreak.2

theorem onlyComments_opened_block {margin body : String}
    (hmargin : ∀ c ∈ margin.toList, isIndentation c = true)
    (hbody : Unclosed (body ++ "*").toList) :
    onlyComments .between (margin ++ "/*" ++ body ++ "*/" ++ "\n").toList = true := by
  have htext : (margin ++ "/*" ++ body ++ "*/" ++ "\n").toList =
      margin.toList ++ '/' :: '*' :: (body.toList ++ '*' :: '/' :: ['\n']) := by
    simp
  rw [String.toList_append] at hbody
  rw [htext, onlyComments_blanks fun c hc => isBlank_of_isIndentation (hmargin c hc),
    onlyComments, onlyComments_block hbody]
  rfl

theorem onlyComments_comment {style : CommentStyle} {margin : String} {lines : List String}
    (hmargin : ∀ c ∈ margin.toList, isIndentation c = true) (hplain : style ≠ .plain)
    (hbreak : ∀ line ∈ style.markLines style.opening lines, '\n' ∉ line.toList)
    (hunclosed : style = .block ∨ style = .docBlock → ∀ line ∈ lines, Unclosed line.toList) :
    onlyComments .between (terminated margin (style.markLines style.opening lines)).toList =
      true := by
  have hcases : (style = .line ∨ style = .doc) ∨ (style = .block ∨ style = .docBlock) := by
    cases style <;> simp at hplain ⊢
  rcases hcases with hslashes | hblock
  · exact onlyComments_slashes hmargin (CommentStyle.slashes_markLines hslashes lines) hbreak
  · by_cases hne : lines = []
    · subst hne
      rfl
    · obtain ⟨body, htext, hbody⟩ :=
        CommentStyle.exists_opened_block hblock hmargin hne (hunclosed hblock)
      rw [htext]
      exact onlyComments_opened_block hmargin hbody

/-- A comment is read as comments and nothing else, whatever its lines hold, if they are lines
and, for a block, do not close it themselves. There are as many lines as were given. In the
styles that end with the line, each of them is indentation and then two slashes; a block is
indentation, the opening, and a body in which the closing mark does not occur, not even with its
first character, before it ends the last line. No lines give no text. -/
theorem comment_lexes_as_comment (lines : List String) (style : CommentStyle) (indented : Bool)
    (options : RenderOptions) (hlines : ∀ line ∈ lines, '\n' ∉ line.toList) :
    ∃ text, render options (.element (.text (.comment lines style indented))) = .ok text ∧
      (∀ c ∈ (options.margin indented).toList, isIndentation c = true) ∧
      (style ≠ .plain →
        (style = .block ∨ style = .docBlock → ∀ line ∈ lines, Unclosed line.toList) →
        onlyComments .between text.toList = true) ∧
      (∃ output : List String, text = String.join (output.map (· ++ "\n")) ∧
        output.length = lines.length ∧ (∀ line ∈ output, '\n' ∉ line.toList) ∧
        (style = .line ∨ style = .doc →
          ∀ line ∈ output, ∃ rest, line = options.margin indented ++ "//" ++ rest)) ∧
      (style = .block ∨ style = .docBlock → lines ≠ [] →
        (∀ line ∈ lines, Unclosed line.toList) →
        ∃ body, text = options.margin indented ++ "/*" ++ body ++ "*/" ++ "\n" ∧
          Unclosed (body ++ "*").toList) ∧
      (lines = [] → text = "") := by
  have hmargin := isIndentation_margin options indented
  have hopening : '\n' ∉ style.opening.toList := by cases style <;> decide
  have hbreak : ∀ line ∈ style.markLines style.opening lines, '\n' ∉ line.toList :=
    CommentStyle.not_mem_markLines hopening hlines
  refine ⟨_, render_rawText options _, hmargin, ?_, ?_, ?_, ?_⟩
  · intro hplain hunclosed
    exact onlyComments_comment hmargin hplain hbreak hunclosed
  · refine ⟨(style.markLines style.opening lines).map (options.margin indented ++ ·),
      ?_, ?_, ?_, ?_⟩
    · rw [List.map_map]
      rfl
    · rw [List.length_map, CommentStyle.length_markLines]
    · rw [List.forall_mem_map]
      intro line hline hmem
      rw [String.toList_append] at hmem
      rcases List.mem_append.1 hmem with hmem | hmem
      · exact absurd (hmargin '\n' hmem) (by decide)
      · exact hbreak line hline hmem
    · intro hstyle
      rw [List.forall_mem_map]
      intro line hline
      obtain ⟨rest, rfl⟩ := CommentStyle.slashes_markLines hstyle lines line hline
      exact ⟨rest, String.append_assoc.symm⟩
  · intro hstyle hne hunclosed
    exact CommentStyle.exists_opened_block hstyle hmargin hne hunclosed
  · rintro rfl
    exact String.join_nil

theorem comment_lexes_as_comment_hostile :
    (∀ line ∈ ["/ starts", "", "ends in *"], Unclosed line.toList) ∧
      render { indent := .tab, startIndent := 1 }
          (.element (.text (.comment ["/ starts", "", "ends in *"] .docBlock true))) =
        .ok "\t/** / starts\n\t * \n\t * ends in * */\n" ∧
      onlyComments .between "\t/** / starts\n\t * \n\t * ends in * */\n".toList = true := by
  have hunclosed : ∀ line ∈ ["/ starts", "", "ends in *"], Unclosed line.toList := by
    decide +kernel
  have hrender : render { indent := .tab, startIndent := 1 }
      (.element (.text (.comment ["/ starts", "", "ends in *"] .docBlock true))) =
        .ok "\t/** / starts\n\t * \n\t * ends in * */\n" := by decide +kernel
  obtain ⟨text, htext, -, hcomments, -⟩ :=
    comment_lexes_as_comment ["/ starts", "", "ends in *"] .docBlock true
      { indent := .tab, startIndent := 1 } (by decide)
  obtain rfl : _ = text := Except.ok.inj (hrender.symm.trans htext)
  exact ⟨hunclosed, hrender, hcomments (by decide) fun _ => hunclosed⟩

end ModelSource

import Mathlib.Data.List.DropRight
import ModelSource.Printout

/-!
# Where the emitter stands

The emitter never looks back at its buffer. It moves its column on by the text that
comes in, and there are two ways in which it moves: a text without a line break adds
its length, and a text with one puts the column behind the last break that it holds,
wherever the column was before. To move it one character at a time would come to the same
(`columnAfter_eq`), so it does not matter in which parts a text is written (`write_write`),
and indentation that is added level by level is a text like any other (`writeIndent_eq`).
The line that the buffer ends with changes in the same two ways (`openLine_append`), so the
column stays its length.

All that a call can do is said once, in `Call.apply_eq`: it adds one text and changes
the depth by at most one. The rest is an induction over a run of calls.
-/

namespace ModelSource

/-- What stands behind the last line break, or everything if there is none. -/
def openLine (text : List Char) : List Char :=
  text.rtakeWhile fun c => c != '\n'

theorem openLine_concat (text : List Char) (c : Char) :
    openLine (text ++ [c]) = if c = '\n' then [] else openLine text ++ [c] := by
  rw [openLine, List.rtakeWhile_concat]
  by_cases hc : c = '\n' <;> simp [hc, openLine]

theorem openLine_append (before text : List Char) :
    openLine (before ++ text) =
      if '\n' ∈ text then openLine text else openLine before ++ text := by
  -- an open line is known by its last character, so the text is taken from its end
  induction text using List.reverseRecOn with
  | nil => simp
  | append_singleton text c ih =>
      rw [← List.append_assoc, openLine_concat, openLine_concat, ih]
      by_cases hc : c = '\n'
      · rw [if_pos hc, if_pos hc, if_pos (by simp [hc])]
      · have hmem : '\n' ∈ text ++ [c] ↔ '\n' ∈ text := by simp [Ne.symm hc]
        rw [if_neg hc, if_neg hc]
        split
        · next htext => rw [if_pos (hmem.2 htext)]
        · next htext => rw [if_neg fun h => htext (hmem.1 h), List.append_assoc]

/-- The last line break of a text is the one that its open line stands behind. -/
theorem behindBreak?_eq (text : List Char) :
    behindBreak? text = if '\n' ∈ text then some (openLine text) else none := by
  induction text with
  | nil => rfl
  | cons c rest ih =>
      rw [behindBreak?, ih, ← List.singleton_append, openLine_append]
      by_cases hrest : '\n' ∈ rest
      · rw [if_pos hrest, if_pos (List.mem_append_right _ hrest), if_pos hrest]
      · rw [if_neg hrest, if_neg hrest]
        by_cases hc : c = '\n'
        · rw [if_pos hc, if_pos (by simp [hc]), hc]
          rfl
        · rw [if_neg hc, if_neg (by simp [Ne.symm hc, hrest])]

/-- The column after text that starts in the given one, character by character. -/
def columnAfter (column : Nat) : List Char → Nat
  | [] => column
  | c :: rest => columnAfter (if c = '\n' then 0 else column + 1) rest

theorem columnAfter_append (column : Nat) (first second : List Char) :
    columnAfter column (first ++ second) = columnAfter (columnAfter column first) second := by
  induction first generalizing column with
  | nil => rfl
  | cons c rest ih => exact ih _

/-- A line break in the text sets the column, and a text without one adds to it. -/
theorem columnAfter_eq (column : Nat) (text : List Char) :
    columnAfter column text =
      if '\n' ∈ text then (openLine text).length else column + text.length := by
  induction text generalizing column with
  | nil => rfl
  | cons c rest ih =>
      rw [columnAfter, ih, ← List.singleton_append, openLine_append]
      by_cases hrest : '\n' ∈ rest
      · rw [if_pos hrest, if_pos (List.mem_append_right _ hrest), if_pos hrest]
      · rw [if_neg hrest, if_neg hrest]
        by_cases hc : c = '\n'
        · rw [if_pos hc, if_pos (by simp [hc]), hc, Nat.zero_add]
          rfl
        · rw [if_neg hc, if_neg (by simp [Ne.symm hc, hrest]), List.length_append,
            List.length_singleton, Nat.add_assoc]

namespace Emitter

/-- What an emitter can be asked to do. -/
inductive Call where
  | write (text : String)
  | writeIndent
  | newline
  | line (text : String)
  | indent
  | dedent

def Call.apply (e : Emitter) : Call → Emitter
  | .write text => e.write text
  | .writeIndent => e.writeIndent
  | .newline => e.newline
  | .line text => e.line text
  | .indent => e.indent
  | .dedent => e.dedent

/-- The levels by which a call changes the depth, if there are as many. -/
def Call.change : Call → Int
  | .indent => 1
  | .dedent => -1
  | .write _ | .writeIndent | .newline | .line _ => 0

/-- The emitter after calls, made one after the other. -/
def run (e : Emitter) (calls : List Call) : Emitter :=
  calls.foldl Call.apply e

variable (e : Emitter)

theorem write_eq (text : String) :
    e.write text =
      { e with buffer := e.buffer ++ text, column := columnAfter e.column text.toList } := by
  rw [write, behindBreak?_eq, columnAfter_eq, ← String.length_toList]
  by_cases hbreak : '\n' ∈ text.toList
  · rw [if_pos hbreak, if_pos hbreak]
  · rw [if_neg hbreak, if_neg hbreak]

theorem write_write (first second : String) :
    (e.write first).write second = e.write (first ++ second) := by
  simp only [write_eq, String.append_assoc, String.toList_append, columnAfter_append]

@[simp] theorem write_empty : e.write "" = e := by
  simp [write_eq, columnAfter]

theorem writeLevels_eq (levels : Nat) :
    e.writeLevels levels = e.write (indentation e.unit levels) := by
  induction levels generalizing e with
  | zero => exact e.write_empty.symm
  | succ levels ih =>
      have hlevel : e.write e.unit =
          { e with buffer := e.buffer ++ e.unit, column := e.column + e.unit.length } := by
        rw [write, behindBreak?_eq, if_neg e.unbroken]
      rw [writeLevels, ← hlevel, ih, write_write]
      rfl

theorem writeIndent_eq : e.writeIndent = e.write (indentation e.unit e.depth) :=
  e.writeLevels_eq e.depth

/-- A call adds one text, which may be empty, and changes the depth. -/
theorem Call.apply_eq (call : Call) :
    ∃ text, call.apply e = { e.write text with depth := (e.depth + call.change).toNat } := by
  have hsame : (e.depth + 0 : Int).toNat = e.depth := by omega
  cases call with
  | write text => exact ⟨text, by rw [change, hsame]; rfl⟩
  | writeIndent => exact ⟨indentation e.unit e.depth, by rw [change, hsame]; exact e.writeIndent_eq⟩
  | newline => exact ⟨"\n", by rw [change, hsame]; rfl⟩
  | line text =>
      refine ⟨indentation e.unit e.depth ++ (text ++ "\n"), ?_⟩
      show (e.writeIndent.write text).write "\n" = _
      rw [change, hsame, writeIndent_eq, write_write, write_write]
      rfl
  | indent =>
      refine ⟨"", ?_⟩
      rw [change, write_empty, show (e.depth + 1 : Int).toNat = e.depth + 1 by omega]
      rfl
  | dedent =>
      refine ⟨"", ?_⟩
      rw [change, write_empty, show (e.depth + -1 : Int).toNat = e.depth - 1 by omega]
      rfl

variable {e}

/-- The column is the length of the line that the buffer ends with. -/
def Exact (e : Emitter) : Prop :=
  e.column = (openLine e.buffer.toList).length

theorem Exact.write (h : e.Exact) (text : String) : (e.write text).Exact := by
  rw [write_eq, Exact]
  show columnAfter e.column text.toList = (openLine (e.buffer ++ text).toList).length
  rw [String.toList_append, columnAfter_eq, openLine_append, h]
  split
  · rfl
  · rw [List.length_append]

theorem Exact.apply (h : e.Exact) (call : Call) : (call.apply e).Exact := by
  obtain ⟨text, heq⟩ := call.apply_eq e
  rw [heq]
  exact h.write text

theorem Exact.run (h : e.Exact) (calls : List Call) : (e.run calls).Exact := by
  induction calls generalizing e with
  | nil => exact h
  | cons call rest ih => exact ih (h.apply call)

theorem depth_run (calls : List Call) :
    ((e.run calls).depth : Int) =
      calls.foldl (fun depth call => max 0 (depth + call.change)) (e.depth : Int) := by
  induction calls generalizing e with
  | nil => rfl
  | cons call rest ih =>
      obtain ⟨text, heq⟩ := call.apply_eq e
      have hdepth : ((call.apply e).depth : Int) = max 0 (e.depth + call.change) := by
        rw [heq]
        show ((e.depth + call.change).toNat : Int) = max 0 (e.depth + call.change)
        omega
      show ((run (call.apply e) rest).depth : Int) = _
      rw [ih, hdepth]
      rfl

/-- A run that starts at a depth and indents so often leads no deeper than both together. -/
theorem depth_run_le (calls : List Call) :
    (e.run calls).depth ≤ e.depth + calls.countP fun call => call.change = 1 := by
  induction calls generalizing e with
  | nil => exact Nat.le_refl _
  | cons call rest ih =>
      obtain ⟨text, heq⟩ := call.apply_eq e
      have hstep : (call.apply e).depth ≤ e.depth + if call.change = 1 then 1 else 0 := by
        rw [heq]
        show (e.depth + call.change).toNat ≤ _
        split
        · omega
        · next hchange =>
            have hless : call.change ≤ 0 := by
              cases call with
              | indent => exact absurd rfl hchange
              | dedent => decide
              | write | writeIndent | newline | line => exact Int.le_refl 0
            omega
      calc (run (call.apply e) rest).depth
          ≤ (call.apply e).depth + rest.countP fun call => call.change = 1 := ih
        _ ≤ e.depth + (call :: rest).countP fun call => call.change = 1 := by
            simp only [List.countP_cons, decide_eq_true_eq]
            omega

theorem buffer_run (calls : List Call) : ∃ added, (e.run calls).buffer = e.buffer ++ added := by
  induction calls generalizing e with
  | nil => exact ⟨"", String.append_empty.symm⟩
  | cons call rest ih =>
      obtain ⟨text, heq⟩ := call.apply_eq e
      obtain ⟨added, hadded⟩ := ih (e := call.apply e)
      refine ⟨text ++ added, ?_⟩
      show (run (call.apply e) rest).buffer = _
      rw [hadded, heq, ← String.append_assoc]
      rfl

/-- After any calls at all the column is the number of characters behind the last line
break of the buffer, and the depth is the one at the start with a level more for every
indent and, as long as there is one, a level less for every dedent. What is in the buffer
after the earlier calls is what it starts with after the later ones. -/
theorem run_column_exact (indent : Indent) (depth : Nat) (earlier later : List Call) :
    let before := (start indent depth).run earlier
    let after := (start indent depth).run (earlier ++ later)
    after.column = (openLine after.buffer.toList).length ∧
      (after.depth : Int) =
        (earlier ++ later).foldl (fun depth call => max 0 (depth + call.change)) (depth : Int) ∧
      ∃ added, after.buffer = before.buffer ++ added := by
  intro before after
  have hstart : (start indent depth).Exact := rfl
  have hafter : after = before.run later := List.foldl_append
  refine ⟨hstart.run (earlier ++ later), depth_run (earlier ++ later), ?_⟩
  rw [hafter]
  exact buffer_run later

example : ((start .tab 0).run [.dedent, .indent, .line "Ω\nβ", .write "x\nyz"]).column = 2 := by
  decide

end Emitter

end ModelSource

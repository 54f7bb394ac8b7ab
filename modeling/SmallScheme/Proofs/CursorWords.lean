import SmallScheme.Proofs.Hover

/-!
# The word under the cursor

From a column of a line the word is looked for in both directions. What is found is the same
from every column of the word, the one right after it included.

* **`Run`** — a line taken apart into a word, which may be empty, and what stands on either
  side of it;
* **`exists_run`** — every column of a line is in a run, or right after its word;
* **`Run.wordAt_eq`** — from each of these columns the word of the run is found;
* **`word_is_maximal_run`** — what is found, told by columns.
-/

namespace SmallScheme.Editor

/-- Up to a delimiter goes all that stands before one. -/
theorem untilDelimiter_append {w rest : List Char} (hw : ∀ c ∈ w, isDelimiter c = false)
    (hrest : rest.head?.all isDelimiter) : untilDelimiter (w ++ rest) = w := by
  have hinside : ∀ c ∈ w, (!isDelimiter c) = true := by
    intro c hc
    rw [hw c hc]
    rfl
  have hstop : untilDelimiter rest = [] := (untilDelimiter_eq_nil_iff rest).mpr hrest
  rw [untilDelimiter] at hstop ⊢
  rw [List.takeWhile_append_of_pos hinside, hstop, List.append_nil]

/-- A line taken apart into a word without delimiters and what stands before and after it. There
are delimiters around the word, unless the line starts or ends there; between two delimiters it
is empty. -/
structure Run where
  before : List Char
  word : List Char
  after : List Char
  delimited : isDelimited before after
  inside : ∀ c ∈ word, isDelimiter c = false

namespace Run

variable (r : Run)

/-- The line that is taken apart. -/
def line : List Char :=
  r.before ++ (r.word ++ r.after)

/-- The column of the first character of the word. -/
def start : Nat :=
  r.before.length

/-- The column after the last character of the word. -/
def stop : Nat :=
  r.start + r.word.length

theorem delimited_before : r.before.getLast?.all isDelimiter :=
  (Bool.and_eq_true_iff.mp r.delimited).1

theorem delimited_after : r.after.head?.all isDelimiter :=
  (Bool.and_eq_true_iff.mp r.delimited).2

/-! ## The columns of the word -/

theorem length_line : r.line.length = r.stop + r.after.length := by
  rw [line, stop, start, List.length_append, List.length_append, Nat.add_assoc]

theorem extract_line : r.line.extract r.start r.stop = r.word := by
  rw [List.extract_eq_take_drop, stop, Nat.add_sub_cancel_left, start, line, List.drop_left,
    List.take_left]

theorem exists_delimiter_before (h : 0 < r.start) :
    ∃ c, r.line[r.start - 1]? = some c ∧ isDelimiter c := by
  have hdelimited := r.delimited_before
  have hne : r.before ≠ [] := List.ne_nil_of_length_pos h
  have hlast : r.line[r.start - 1]? = r.before.getLast? := by
    rw [line, start, List.getElem?_append_left (Nat.sub_one_lt_of_lt h),
      List.getLast?_eq_getElem?]
  rw [List.getLast?_eq_some_getLast hne] at hlast hdelimited
  exact ⟨_, hlast, hdelimited⟩

theorem exists_delimiter_after (h : r.stop < r.line.length) :
    ∃ c, r.line[r.stop]? = some c ∧ isDelimiter c := by
  have hdelimited := r.delimited_after
  have hhead : r.line[r.stop]? = r.after.head? := by
    rw [line, stop, start, ← List.append_assoc, ← List.length_append,
      List.getElem?_append_right (Nat.le_refl _), Nat.sub_self, List.head?_eq_getElem?]
  rw [r.length_line] at h
  obtain ⟨c, after, hafter⟩ := List.exists_cons_of_length_pos (by omega : 0 < r.after.length)
  rw [hafter] at hhead hdelimited
  exact ⟨c, hhead, hdelimited⟩

/-! ## The columns from which the word is found -/

/-- Before a column of the word, it goes on as far as it starts. -/
theorem wordBefore_line {k : Nat} (hk : k ≤ r.word.length) :
    wordBefore r.line (r.start + k) = (r.word.take k).reverse := by
  rw [wordBefore, line, start, List.take_length_add_append, List.take_append_of_le_length hk,
    List.reverse_append]
  refine untilDelimiter_append (fun c hc => ?_) ?_
  · exact r.inside c (List.mem_of_mem_take (List.mem_reverse.mp hc))
  · rw [List.head?_reverse]
    exact r.delimited_before

/-- From a column of the word on, it goes on as far as it ends. -/
theorem wordAfter_line {k : Nat} (hk : k ≤ r.word.length) :
    wordAfter r.line (r.start + k) = r.word.drop k := by
  rw [wordAfter, line, start, List.drop_length_add_append, List.drop_append_of_le_length hk]
  exact untilDelimiter_append (fun c hc => r.inside c (List.mem_of_mem_drop hc)) r.delimited_after

/-- The word of a run, if it has one. -/
def word? : Option String :=
  if r.word.isEmpty then none else some (String.ofList r.word)

/-- **The word of a run is found from every one of its columns.** -/
theorem wordAt_eq {text : String} {number column : Nat} (hline : lineAt? text number = some r.line)
    (hstart : r.start ≤ column) (hstop : column ≤ r.stop) :
    wordAt text ⟨number, column⟩ = .ok { word? := r.word?, start := ⟨number, r.start⟩ } := by
  have hcolumn : column ≤ r.line.length := by
    rw [length_line]
    omega
  obtain ⟨k, rfl⟩ := Nat.exists_eq_add_of_le hstart
  have hk : k ≤ r.word.length := Nat.le_of_add_le_add_left hstop
  rw [wordAt, hline]
  dsimp only
  rw [if_pos hcolumn, r.wordBefore_line hk, r.wordAfter_line hk, List.reverse_reverse,
    List.take_append_drop, List.length_reverse, List.length_take, Nat.min_eq_left hk,
    Nat.add_sub_cancel]
  rfl

end Run

/-! ## The run around a column -/

theorem head?_dropWhile_delimited (cs : List Char) :
    (cs.dropWhile (fun c => !isDelimiter c)).head?.all isDelimiter := by
  have hnot := List.head?_dropWhile_not (fun c => !isDelimiter c) cs
  cases h : (cs.dropWhile (fun c => !isDelimiter c)).head? with
  | none => rfl
  | some c => simpa [h] using hnot

/-- The run that is found from a column: what belongs to the word on either side of it. -/
def Run.around (line : List Char) (column : Nat) : Run where
  before := ((line.take column).reverse.dropWhile (fun c => !isDelimiter c)).reverse
  word := (wordBefore line column).reverse ++ wordAfter line column
  after := (line.drop column).dropWhile (fun c => !isDelimiter c)
  delimited := by
    rw [isDelimited, List.getLast?_reverse, head?_dropWhile_delimited, head?_dropWhile_delimited]
    rfl
  inside := by
    intro c hc
    rw [List.mem_append, List.mem_reverse] at hc
    rcases hc with hc | hc
    · simpa using List.mem_takeWhile_imp hc
    · simpa using List.mem_takeWhile_imp hc

/-- Every column of a line is in a run, or right after its word. -/
theorem exists_run {line : List Char} {column : Nat} (h : column ≤ line.length) :
    ∃ r : Run, r.line = line ∧ r.start ≤ column ∧ column ≤ r.stop := by
  have hbefore : ((line.take column).reverse.dropWhile (fun c => !isDelimiter c)).reverse ++
      (wordBefore line column).reverse = line.take column := by
    rw [wordBefore, ← List.reverse_append, List.takeWhile_append_dropWhile, List.reverse_reverse]
  have hlength := congrArg List.length hbefore
  rw [List.length_append, List.length_reverse, List.length_reverse, List.length_take,
    Nat.min_eq_left h] at hlength
  refine ⟨.around line column, ?_, ?_, ?_⟩
  · have hafter : wordAfter line column ++ (line.drop column).dropWhile (fun c => !isDelimiter c) =
        line.drop column := List.takeWhile_append_dropWhile
    simp only [Run.line, Run.around]
    rw [List.append_assoc, hafter, ← List.append_assoc, hbefore, List.take_append_drop]
  · simp only [Run.start, Run.around, List.length_reverse]
    omega
  · simp only [Run.stop, Run.start, Run.around, List.length_append, List.length_reverse]
    omega

theorem wordAt_eq_error_iff {text : String} {p : Position} {line : List Char}
    (hline : lineAt? text p.line = some line) :
    wordAt text p = .error .beyondLine ↔ line.length < p.column := by
  rw [wordAt, hline]
  dsimp only
  split_ifs with h
  · simpa using h
  · simpa using h

/-- The number of characters of the word at a position. -/
def WordAt.length (w : WordAt) : Nat :=
  w.word?.elim 0 String.length

theorem Run.length_word? (r : Run) (start : Position) :
    WordAt.length { word? := r.word?, start } = r.word.length := by
  rw [WordAt.length, Run.word?]
  split_ifs with h
  · rw [List.isEmpty_iff.mp h]
    rfl
  · exact String.length_ofList

/-- **The word at a position is all that stands there between two delimiters.** On a line of the
text, a column is at fault if it is beyond the line's end, and only then. From any other column
comes the word from its first column up to the one after its last character, and the column
asked for is one of these. No character of the word is a delimiter; there are delimiters before
it and after it, unless the line starts or ends there. Asking from any of these columns has the
same answer. -/
theorem word_is_maximal_run (text : String) (p : Position) (chars : List Char)
    (hline : lineAt? text p.line = some chars) :
    (wordAt text p = .error .beyondLine ↔ chars.length < p.column) ∧
    (p.column ≤ chars.length → ∃ found, wordAt text p = .ok found ∧ found.start.line = p.line ∧
      let start := found.start.column
      let stop := start + found.length
      start ≤ p.column ∧ p.column ≤ stop ∧ stop ≤ chars.length ∧
      found.word? =
        (if start = stop then none else some (String.ofList (chars.extract start stop))) ∧
      (∀ c ∈ chars.extract start stop, isDelimiter c = false) ∧
      (0 < start → ∃ c, chars[start - 1]? = some c ∧ isDelimiter c) ∧
      (stop < chars.length → ∃ c, chars[stop]? = some c ∧ isDelimiter c) ∧
      ∀ column, start ≤ column → column ≤ stop →
        wordAt text { p with column } = .ok found) := by
  refine ⟨wordAt_eq_error_iff hline, fun hcolumn => ?_⟩
  obtain ⟨r, rfl, hstart, hstop⟩ := exists_run hcolumn
  refine ⟨_, r.wordAt_eq hline hstart hstop, rfl, ?_⟩
  rw [r.length_word?]
  refine ⟨hstart, hstop, ?_, ?_, ?_, r.exists_delimiter_before, r.exists_delimiter_after,
    fun column => r.wordAt_eq hline⟩
  · rw [r.length_line]
    exact Nat.le_add_right r.stop _
  · show r.word? =
      if r.start = r.stop then none else some (String.ofList (r.line.extract r.start r.stop))
    rw [r.extract_line, Run.word?]
    simp [Run.stop]
  · show ∀ c ∈ r.line.extract r.start r.stop, isDelimiter c = false
    rw [r.extract_line]
    exact r.inside

/-- A word asked for from its middle and from right after it, and a column beyond a line that
has no end. -/
theorem word_is_maximal_run_right_after :
    let text := "(let* x)\r\nab"
    let word : WordAt := { word? := some "let*", start := ⟨0, 1⟩ }
    lineAt? text 0 = some "(let* x)\r\n".toList ∧ wordAt text ⟨0, 3⟩ = .ok word ∧
      wordAt text ⟨0, 5⟩ = .ok word ∧
      lineAt? text 1 = some "ab".toList ∧ wordAt text ⟨1, 3⟩ = .error .beyondLine := by
  intro text word
  have hfirst : lineAt? text 0 = some "(let* x)\r\n".toList := by decide +kernel
  have hlast : lineAt? text 1 = some "ab".toList := by decide +kernel
  have hword : wordAt text ⟨0, 3⟩ = .ok word := by decide +kernel
  obtain ⟨found, hfound, -, -, -, -, -, -, -, -, hcolumns⟩ :=
    (word_is_maximal_run text ⟨0, 3⟩ _ hfirst).2 (by decide)
  obtain rfl : word = found := Except.ok.inj (hword.symm.trans hfound)
  exact ⟨hfirst, hword, hcolumns 5 (by decide) (by decide), hlast,
    (word_is_maximal_run text ⟨1, 3⟩ _ hlast).1.mpr (by decide)⟩

end SmallScheme.Editor

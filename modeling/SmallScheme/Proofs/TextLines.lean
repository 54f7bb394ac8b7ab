import SmallScheme.Proofs.Scanning
import SmallScheme.Session.ReadLoop
import SmallScheme.Session.Script

/-!
# The lines of a text

Files and typed input are cut into lines before anything is read. For a text without
carriage returns both cuts are the same (`inputLines_eq_fileLines`), and a text in which no
string goes on beyond its line has the lexemes of its lines (`lexemes_fileLines`).
-/

namespace SmallScheme

namespace Text

/-! ## Line by line -/

/-- Induction over the lines of a text: it is empty, or one line without an end, or a line
with its end before another text. -/
theorem lineInduction {P : List Char → Prop} (nil : P [])
    (last : ∀ l, l ≠ [] → '\n' ∉ l → P l)
    (line : ∀ l rest, '\n' ∉ l → P rest → P (l ++ '\n' :: rest)) (cs : List Char) : P cs := by
  induction hn : cs.length using Nat.strong_induction_on generalizing cs with
  | _ n ih =>
    by_cases hcs : '\n' ∈ cs
    · obtain ⟨l, rest, rfl, hl⟩ := List.eq_append_cons_of_mem hcs
      refine line l rest hl (ih rest.length ?_ rest rfl)
      rw [← hn, List.length_append, List.length_cons]
      omega
    · by_cases hne : cs = []
      · rw [hne]
        exact nil
      · exact last cs hne hcs

theorem linesFrom_cons (isBreak : Char → Bool) (current : List Char) {c : Char} (hc : c ≠ '\r')
    (cs : List Char) :
    linesFrom isBreak current (c :: cs) =
      if isBreak c then (c :: current).reverse :: linesFrom isBreak [] cs
      else linesFrom isBreak (c :: current) cs := by
  rw [linesFrom]
  intro _ hreturn _
  exact hc hreturn

/-- What stands before the end of a line is part of it. -/
theorem linesFrom_append {isBreak : Char → Bool} (current : List Char) {l : List Char}
    (hbreak : ∀ c ∈ l, isBreak c = false) (hreturn : '\r' ∉ l) (rest : List Char) :
    linesFrom isBreak current (l ++ rest) = linesFrom isBreak (l.reverse ++ current) rest := by
  induction l generalizing current with
  | nil => rfl
  | cons c l ih =>
    obtain ⟨hc, hbreak⟩ := List.forall_mem_cons.mp hbreak
    rw [List.mem_cons, not_or] at hreturn
    rw [List.cons_append, linesFrom_cons _ _ (Ne.symm hreturn.1), hc, if_neg Bool.false_ne_true,
      ih _ hbreak hreturn.2]
    simp

theorem isNewline_of_not_mem {l : List Char} (h : '\n' ∉ l) : ∀ c ∈ l, isNewline c = false :=
  fun _ hc => beq_false_of_ne fun heq => h (heq ▸ hc)

theorem lines_append_newline {l : List Char} (hnewline : '\n' ∉ l) (hreturn : '\r' ∉ l)
    (rest : List Char) :
    lines isNewline (l ++ '\n' :: rest) = (l ++ ['\n']) :: lines isNewline rest := by
  have hend : isNewline '\n' = true := rfl
  rw [lines, linesFrom_append _ (isNewline_of_not_mem hnewline) hreturn,
    linesFrom_cons _ _ (by decide), if_pos hend]
  simp [lines]

theorem lines_of_not_mem {l : List Char} (hne : l ≠ []) (hnewline : '\n' ∉ l)
    (hreturn : '\r' ∉ l) : lines isNewline l = [l] := by
  have hrun := linesFrom_append [] (isNewline_of_not_mem hnewline) hreturn []
  rw [List.append_nil, List.append_nil, linesFrom] at hrun
  rw [lines, hrun]
  simp [hne]

/-! ## Line ends -/

theorem dropNewline_append (l : List Char) : dropNewline (l ++ ['\n']) = l := by
  simp [dropNewline]

theorem dropNewline_of_not_mem {l : List Char} (h : '\n' ∉ l) : dropNewline l = l := by
  unfold dropNewline
  rw [if_neg fun hlast => h (List.mem_of_getLast? hlast)]

theorem dropLineEnds_of_not_mem {l : List Char} (hnewline : '\n' ∉ l) (hreturn : '\r' ∉ l) :
    dropLineEnds l = l := by
  have hkeep : l.reverse.dropWhile (fun c => c == '\n' || c == '\r') = l.reverse := by
    cases hlast : l.reverse with
    | nil => rfl
    | cons c cs =>
      have hc : c ∈ l := List.mem_reverse.mp (hlast ▸ List.mem_cons_self)
      have hstays : (c == '\n' || c == '\r') = false := by grind
      rw [List.dropWhile_cons, hstays, if_neg Bool.false_ne_true]
  rw [dropLineEnds, hkeep, List.reverse_reverse]

theorem dropLineEnds_append (l : List Char) : dropLineEnds (l ++ ['\n']) = dropLineEnds l := by
  simp [dropLineEnds]

/-- A line loses its end, whichever rule is applied. -/
theorem dropLineEnds_eq_dropNewline {cs line : List Char} (hreturn : '\r' ∉ cs)
    (hline : line ∈ lines isNewline cs) : dropLineEnds line = dropNewline line := by
  induction cs using lineInduction with
  | nil => cases hline
  | last l hne hnewline =>
    rw [lines_of_not_mem hne hnewline hreturn, List.mem_singleton] at hline
    rw [hline, dropLineEnds_of_not_mem hnewline hreturn, dropNewline_of_not_mem hnewline]
  | line l rest hnewline ih =>
    rw [List.mem_append, not_or, List.mem_cons, not_or] at hreturn
    rw [lines_append_newline hnewline hreturn.1, List.mem_cons] at hline
    rcases hline with rfl | hline
    · rw [dropLineEnds_append, dropLineEnds_of_not_mem hnewline hreturn.1, dropNewline_append]
    · exact ih hreturn.2.2 hline

theorem unifyNewlines_of_not_mem {cs : List Char} (h : '\r' ∉ cs) : unifyNewlines cs = cs := by
  induction cs with
  | nil => rfl
  | cons c cs ih =>
    rw [List.mem_cons, not_or] at h
    have hc : (c == '\r') = false := beq_false_of_ne (Ne.symm h.1)
    rw [unifyNewlines, hc, ih h.2]
    · rfl
    · intro _ hreturn _
      exact h.1 hreturn.symm

end Text

/-! ## Strings that end on their line -/

/-- What has been read of a string is part of the lexeme that it ends up in. -/
theorem exists_string_of_quoted (offset start : Nat) {chars : List Char} {c : Char}
    (hc : c ∈ chars) (cs : List Char) :
    ∃ content, c ∈ content ∧
      (.quoted content ∈ (locatedFrom offset (.quoted start chars) cs).map (·.lexeme) ∨
        .unterminated content ∈
          (locatedFrom offset (.quoted start chars) cs).map (·.lexeme)) := by
  by_cases hcs : '"' ∈ cs
  · obtain ⟨content, rest, rfl, hcontent⟩ := List.eq_append_cons_of_mem hcs
    rw [locatedFrom_quoted_run _ _ _ hcontent, locatedFrom_quoted_quote]
    exact ⟨chars.reverse ++ content, by simp [hc], .inl (by simp)⟩
  · have hrun := locatedFrom_quoted_run offset start chars hcs []
    rw [List.append_nil, locatedFrom_nil] at hrun
    rw [hrun]
    exact ⟨chars.reverse ++ cs, by simp [hc], .inr (by simp [ScanMode.finish])⟩

/-- If no string goes on beyond its line, a line has its double quotes in pairs. -/
theorem even_count_of_line {l rest : List Char}
    (hstrings : ∀ content, .quoted content ∈ lexemes (l ++ '\n' :: rest) ∨
      .unterminated content ∈ lexemes (l ++ '\n' :: rest) → '\n' ∉ content) :
    Even (l.count '"') := by
  by_contra hodd
  have hquoted : (modeAfter 0 .between l).isQuoted = true := by
    rw [isQuoted_modeAfter]
    simpa [ScanMode.isQuoted] using hodd
  cases hmode : modeAfter 0 .between l with
  | between => simp [hmode, ScanMode.isQuoted] at hquoted
  | word start chars => simp [hmode, ScanMode.isQuoted] at hquoted
  | quoted start chars =>
    obtain ⟨content, hmem, hcontent⟩ := exists_string_of_quoted (0 + l.length + 1) start
      (List.mem_cons_self (a := '\n') (l := chars)) rest
    refine hstrings content ?_ hmem
    rw [lexemes, locatedLexemes_eq, locatedFrom_append, hmode,
      locatedFrom_quoted _ _ _ _ (by decide), List.map_append]
    exact hcontent.imp (List.mem_append_right _) (List.mem_append_right _)

/-- The lexemes of a text are those of its lines. -/
theorem flatMap_lexemes_lines {cs : List Char} (hreturn : '\r' ∉ cs)
    (hstrings : ∀ content, .quoted content ∈ lexemes cs ∨ .unterminated content ∈ lexemes cs →
      '\n' ∉ content) :
    ((Text.lines Text.isNewline cs).map Text.dropNewline).flatMap lexemes = lexemes cs := by
  induction cs using Text.lineInduction with
  | nil => rfl
  | last l hne hnewline =>
    rw [Text.lines_of_not_mem hne hnewline hreturn, List.map_singleton,
      Text.dropNewline_of_not_mem hnewline]
    simp
  | line l rest hnewline ih =>
    rw [List.mem_append, not_or, List.mem_cons, not_or] at hreturn
    have hcut := lexemes_append_blank rest (even_count_of_line hstrings) (c := '\n') (by decide)
    have hrest : ∀ content, .quoted content ∈ lexemes rest ∨
        .unterminated content ∈ lexemes rest → '\n' ∉ content := by
      intro content hcontent
      refine hstrings content ?_
      rw [hcut]
      exact hcontent.imp (List.mem_append_right _) (List.mem_append_right _)
    rw [Text.lines_append_newline hnewline hreturn.1, List.map_cons, List.flatMap_cons,
      Text.dropNewline_append, ih hreturn.2.2 hrest, hcut]

/-! ## Files and typed input -/

theorem fileLines_eq {text : String} (hreturn : '\r' ∉ text.toList) :
    Script.fileLines text =
      ((Text.lines Text.isNewline text.toList).map Text.dropNewline).map String.ofList := by
  rw [Script.fileLines, Text.unifyNewlines_of_not_mem hreturn, List.map_map]
  rfl

/-- Typed input is cut like a file. -/
theorem inputLines_eq_fileLines {text : String} (hreturn : '\r' ∉ text.toList) (raw : Bool) :
    ReadLoop.inputLines raw text = Script.fileLines text := by
  rw [fileLines_eq hreturn, List.map_map, ReadLoop.inputLines]
  refine List.map_congr_left fun line hline => ?_
  cases raw with
  | true => rfl
  | false => exact congrArg String.ofList (Text.dropLineEnds_eq_dropNewline hreturn hline)

theorem lexemes_fileLines {text : String} (hreturn : '\r' ∉ text.toList)
    (hstrings : ∀ content, .quoted content ∈ lexemes text.toList ∨
      .unterminated content ∈ lexemes text.toList → '\n' ∉ content) :
    (Script.fileLines text).flatMap (lexemes ·.toList) = lexemes text.toList := by
  rw [← flatMap_lexemes_lines hreturn hstrings, fileLines_eq hreturn, List.flatMap_map]
  simp

theorem lexemes_of_isBlank {cs : List Char} (h : ∀ c ∈ cs, Text.isBlank c) :
    lexemes cs = [] := by
  induction cs with
  | nil => rfl
  | cons c cs ih =>
    rw [List.forall_mem_cons] at h
    rw [lexemes_cons_blank h.1, ih h.2]

end SmallScheme

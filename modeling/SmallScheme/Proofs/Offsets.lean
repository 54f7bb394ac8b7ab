import SmallScheme.Proofs.ReadingOrder

/-!
# Offsets and positions

An offset counts the characters before a place, a position the lines before it and the
characters before it on its line. Neither loses anything: the offset can be reckoned from the
position and the lines of the text, and both tell which of two places comes first.

* **`exists_line_of_offset`** — the line of a position, and the offset reckoned from it;
* **`positionAt_before_iff`** — positions are in the order of their offsets;
* **`mergeSort_problems`** — so problems sorted by positions are flaws sorted by offsets.
-/

namespace SmallScheme

namespace Text

theorem newlineParts_eq_splitOn (cs : List Char) : newlineParts cs = cs.splitOn '\n' := by
  induction cs with
  | nil => rfl
  | cons c cs ih =>
    obtain ⟨first, rest, hcs⟩ := exists_newlineParts cs
    rw [List.splitOn_cons_eq_if_modifyHead, ← ih, hcs]
    show _ = if isNewline c then _ else _
    by_cases hc : isNewline c
    · rw [newlineParts_cons_of_newline hc, hcs, if_pos hc]
    · rw [newlineParts_cons (by simpa using hc) hcs, if_neg hc]
      rfl

/-- Every character of a text is in one of its parts or ends one, and nothing ends the last. -/
theorem sum_length_newlineParts (cs : List Char) :
    ((newlineParts cs).map (·.length + 1)).sum = cs.length + 1 := by
  induction cs with
  | nil => rfl
  | cons c cs ih =>
    by_cases hc : isNewline c
    · rw [newlineParts_cons_of_newline hc, List.map_cons, List.sum_cons, ih, List.length_cons,
        List.length_nil]
      omega
    · obtain ⟨first, rest, hcs⟩ := exists_newlineParts cs
      rw [hcs, List.map_cons, List.sum_cons] at ih
      rw [newlineParts_cons (by simpa using hc) hcs, List.map_cons, List.sum_cons,
        List.length_cons, List.length_cons]
      omega

end Text

namespace Editor

variable {cs : List Char} {i j : Nat}

/-- The lines before a position and the characters before it on its line make up the text
before it. -/
theorem exists_line_of_offset (hi : i ≤ cs.length) :
    let p := positionAt cs i
    let lines := cs.splitOn '\n'
    ∃ line, lines[p.line]? = some line ∧ p.column ≤ line.length ∧
      ((lines.take p.line).map (·.length + 1)).sum + p.column = i := by
  obtain ⟨a, b, rfl, rfl⟩ : ∃ a b, cs = a ++ b ∧ i = a.length :=
    ⟨cs.take i, cs.drop i, (List.take_append_drop i cs).symm, by simp [hi]⟩
  -- `init` are the lines that end in `a`, on its own and before `b` alike
  obtain ⟨first, rest, hb⟩ := Text.exists_newlineParts b
  obtain ⟨init, hinit, happend⟩ := Text.newlineParts_append a
  have hsum := Text.sum_length_newlineParts a
  have ha := happend (b := []) rfl
  rw [List.append_nil, List.append_nil] at ha
  rw [ha, List.map_append, List.sum_append, List.map_singleton, List.sum_singleton] at hsum
  rw [positionAt_length, ← Text.newlineParts_eq_splitOn, happend hb, ← hinit]
  refine ⟨Text.lastLine a ++ first, ?_, ?_, ?_⟩
  · simp
  · simp
  · rw [List.take_left]
    dsimp only
    omega

/-- **Positions are in the order of their offsets.** -/
theorem positionAt_before_iff (hi : i ≤ cs.length) (hj : j ≤ cs.length) :
    (positionAt cs i).before (positionAt cs j) ↔ i < j := by
  refine ⟨fun h => ?_, fun h => positionAt_before h hj⟩
  by_contra hle
  rw [Position.before_iff] at h
  have hpositions := positionAt_of_le (Nat.le_of_not_lt hle) hi
  omega

/-- Sorting by positions is sorting by offsets, also among flaws at the same place. -/
theorem mergeSort_problems {flaws : List Flaw} (h : ∀ f ∈ flaws, f.start ≤ cs.length) :
    (flaws.map (·.problem cs)).mergeSort (fun p q => !q.position.before p.position) =
      (flaws.mergeSort (fun f g => f.start ≤ g.start)).map (·.problem cs) := by
  refine (List.map_mergeSort fun f hf g hg => ?_).symm
  rw [Bool.eq_iff_iff, decide_eq_true_eq, Bool.not_eq_true', ← Bool.not_eq_true]
  show f.start ≤ g.start ↔ ¬ (positionAt cs g.start).before (positionAt cs f.start)
  rw [positionAt_before_iff (h g hg) (h f hf), Nat.not_lt]

/-- **Offsets and positions correspond.** The position of any offset of a text, its end
included, is on one of the lines between the newlines, and not beyond that line's end. All
lines before it, each with its newline, and the column add up to the offset. One offset is
smaller than another exactly if its position comes first, by line and then by column.

So to sort problems by their positions is to sort the flaws by their offsets, and the problems
of an index are sorted that way. -/
theorem offsets_and_positions (text : String) :
    let cs := text.toList
    let lines := cs.splitOn '\n'
    (∀ i ≤ cs.length,
      let p := positionAt cs i
      ∃ line, lines[p.line]? = some line ∧ p.column ≤ line.length ∧
        ((lines.take p.line).map (·.length + 1)).sum + p.column = i) ∧
    (∀ i ≤ cs.length, ∀ j ≤ cs.length, i < j ↔ (positionAt cs i).before (positionAt cs j)) ∧
    (∀ flaws : List Flaw, (∀ f ∈ flaws, f.start ≤ cs.length) →
      (flaws.map (·.problem cs)).mergeSort (fun p q => !q.position.before p.position) =
        (flaws.mergeSort (fun f g => f.start ≤ g.start)).map (·.problem cs)) ∧
    ∀ index, Index.ofText text = .ok index →
      ∃ found, (locatedLexemes cs).mapM Finding.ofLocated = .ok found ∧
        let flaws := found.filterMap Finding.flaw? ++
          (walk 0 (found.filterMap Finding.item?)).unmatched
        index.problems =
          (flaws.mergeSort (fun f g => f.start ≤ g.start)).map (·.problem cs) := by
  intro cs lines
  refine ⟨fun i hi => exists_line_of_offset hi, fun i hi j hj => (positionAt_before_iff hi hj).symm,
    fun flaws h => mergeSort_problems h, ?_⟩
  intro index hindex
  obtain ⟨found, hfound, rfl⟩ := Index.ofText_eq_ok_iff.mp hindex
  refine ⟨found, hfound, mergeSort_problems fun f hf => ?_⟩
  -- every flaw that is collected is met on the one pass, which says where flaws can stand
  have hmem : f ∈ flawsFrom 0 found := (perm_flawsFrom 0 found).mem_iff.mp hf
  have hbounds := ((pairwise_flaws hfound).2 f hmem).2
  omega

/-- An empty line, the end of a text that ends with a newline, and a parenthesis with nothing to
close before a word that is no token. -/
theorem offsets_and_positions_empty_line :
    let text := "x\n\n)1y\n"
    let cs := text.toList
    let lines := cs.splitOn '\n'
    let flaws : List Flaw := [⟨4, .unrecognized "1y", 2⟩, ⟨3, .unmatchedClose, 1⟩]
    let problems : List Problem := [⟨.unmatchedClose, ⟨2, 0⟩, 1⟩, ⟨.unrecognized "1y", ⟨2, 1⟩, 2⟩]
    (positionAt cs 2 = ⟨1, 0⟩ ∧ ∃ line, lines[1]? = some line ∧ 0 ≤ line.length ∧
      ((lines.take 1).map (·.length + 1)).sum + 0 = 2) ∧
    (positionAt cs 7 = ⟨3, 0⟩ ∧ (positionAt cs 2).before (positionAt cs 7)) ∧
    (flaws.map (·.problem cs)).mergeSort (fun p q => !q.position.before p.position) =
      (flaws.mergeSort (fun f g => f.start ≤ g.start)).map (·.problem cs) ∧
    ∃ found, (locatedLexemes cs).mapM Finding.ofLocated = .ok found ∧
      problems = ((found.filterMap Finding.flaw? ++
        (walk 0 (found.filterMap Finding.item?)).unmatched).mergeSort
          (fun f g => f.start ≤ g.start)).map (·.problem cs) := by
  intro text cs lines flaws problems
  obtain ⟨hlines, horder, hsort, hproblems⟩ := offsets_and_positions text
  have hempty : positionAt cs 2 = ⟨1, 0⟩ := by decide
  have hline := hlines 2 (by decide)
  rw [show positionAt text.toList 2 = ⟨1, 0⟩ from hempty] at hline
  have hstarts : ∀ f ∈ flaws, f.start ≤ cs.length := by
    have hlength : cs.length = 7 := by decide
    simp [flaws, hlength]
  have hindex : Index.ofText text = .ok { problems } := by
    let found : List Finding := [.item ⟨0, .word (.identifier "x")⟩, .item ⟨3, .closing⟩,
      .flaw ⟨4, .unrecognized "1y", 2⟩]
    have hfound : (locatedLexemes text.toList).mapM Finding.ofLocated = .ok found := by
      dsimp only [text, found]
      rfl
    refine Index.ofText_eq_ok_iff_flawsFrom.mpr ⟨found, hfound, ?_⟩
    dsimp only [text, problems, found]
    rfl
  exact ⟨⟨hempty, hline⟩,
    ⟨by decide, (horder 2 (by decide) 7 (by decide)).mp (by decide)⟩, hsort flaws hstarts,
    hproblems _ hindex⟩

end Editor

end SmallScheme

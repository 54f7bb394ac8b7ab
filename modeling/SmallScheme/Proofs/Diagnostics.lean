import SmallScheme.Editor.Diagnostic
import SmallScheme.Proofs.Findings

/-!
# Marks agree with reading

An editor marks a text without reading it as a program: the index passes over what is at
fault and goes on. Still its marks tell what reading the whole text would come to.
`Index.outcome` compares the two, and `diagnostics_agree` reads it off the marks: none if
the text can be read, one warning if lists are left open, an error if it is at fault.
-/

namespace SmallScheme.Editor

/-! ## The index and the text -/

/-- A text whose index has no problem can be built, with as many lists open as the index
says; one with a problem cannot. -/
theorem Index.outcome {text : String} {index : Index} (h : Index.ofText text = .ok index) :
    (index.problems = [] ∧
      ∃ forest, buildText text = .ok forest ∧ forest.depth = index.openLists) ∨
    (index.problems ≠ [] ∧
      ∃ e, buildText text = .error (.error e) ∧ (e.kind = .lexing ∨ e = .unmatchedClose)) := by
  obtain ⟨found, hfound, rfl⟩ := Index.ofText_eq_ok_iff.mp h
  dsimp only
  rw [Ne, ← List.length_eq_zero_iff, List.length_mergeSort, List.length_map,
    List.length_eq_zero_iff, List.append_eq_nil_iff]
  by_cases hflaws : found.filterMap Finding.flaw? = []
  · obtain ⟨ts, hts, hstands⟩ := tokens_of_found hfound hflaws
    have htokens : tokenize text = .ok ts := by rw [tokenize_eq_mapM, lexemes, hts]
    obtain ⟨hbuilt, hfailed⟩ := walk_of_run hstands {}
    cases hrun : ({} : Builder).run ts with
    | ok b =>
      obtain ⟨hunmatched, hopen⟩ := hbuilt b hrun
      refine .inl ⟨⟨hflaws, hunmatched⟩, b.forest, ?_, ?_⟩
      · rw [buildText, htokens]
        simp [bind, Except.bind, build_eq_ok_iff.mpr ⟨b, hrun, rfl⟩, Except.mapError]
      · rw [Builder.forest_eq]
        exact hopen.symm
    | error e =>
      refine .inr ⟨fun hnil => hfailed e hrun hnil.2, e, ?_, .inr (Builder.run_eq_error hrun).1⟩
      rw [buildText, htokens]
      simp [bind, Except.bind, build_eq_error_iff.mpr hrun, Except.mapError]
  · obtain ⟨e, he, hkind⟩ := lexing_of_found hfound hflaws
    refine .inr ⟨fun hnil => hflaws hnil.1, e, ?_, .inl hkind⟩
    rw [buildText, tokenize_eq_mapM, lexemes, he]
    rfl

/-! ## The marks -/

theorem toString_injective {m n : Nat} (h : toString m = toString n) : m = n := by
  have hdigits : Nat.toDigits 10 m = Nat.toDigits 10 n := String.ofList_injective h
  rw [← Text.ofDigits_toDigits m, hdigits, Text.ofDigits_toDigits]

section Marks

variable (text : String) (index : Index)

theorem diagnostics_eq_nil_iff :
    diagnostics text index = [] ↔ index.problems = [] ∧ index.openLists = 0 := by
  unfold diagnostics
  rw [List.append_eq_nil_iff, List.map_eq_nil_iff]
  split_ifs with hopen
  · simp [Nat.ne_of_gt hopen]
  · simp [Nat.eq_zero_of_not_pos hopen]

theorem exists_error_iff :
    (∃ d ∈ diagnostics text index, d.severity = .error) ↔ index.problems ≠ [] := by
  constructor
  · rintro ⟨d, hd, hseverity⟩ hnil
    unfold diagnostics at hd
    rw [hnil, List.map_nil, List.nil_append] at hd
    split_ifs at hd
    · rw [List.mem_singleton.mp hd] at hseverity
      cases hseverity
    · cases hd
  · intro hne
    obtain ⟨p, problems, hproblems⟩ := List.exists_cons_of_ne_nil hne
    refine ⟨p.diagnostic, ?_, rfl⟩
    simp [diagnostics, hproblems]

/-- The only warning is that of open lists. -/
theorem filter_warning :
    (diagnostics text index).filter (·.severity = .warning) =
      if index.openLists > 0 then [unclosedWarning text index.openLists] else [] := by
  have hproblems : (index.problems.map Problem.diagnostic).filter (·.severity = .warning) = [] := by
    simp [Problem.diagnostic]
  unfold diagnostics
  rw [List.filter_append, hproblems, List.nil_append]
  split_ifs <;> rfl

/-- The warning gives the number of open lists. -/
theorem filter_warning_eq_singleton_iff (n : Nat) :
    (∃ w, (diagnostics text index).filter (·.severity = .warning) = [w] ∧
      w.message = toString n ++ " unclosed '(' at end of document") ↔
    0 < n ∧ index.openLists = n := by
  rw [filter_warning]
  split_ifs with hopen
  · constructor
    · rintro ⟨w, hw, hmessage⟩
      cases hw
      have hn : index.openLists = n :=
        toString_injective (by simpa [unclosedWarning] using hmessage)
      exact ⟨hn ▸ hopen, hn⟩
    · rintro ⟨-, rfl⟩
      exact ⟨_, rfl, rfl⟩
  · constructor
    · rintro ⟨w, hw, -⟩
      cases hw
    · rintro ⟨hn, rfl⟩
      exact absurd hn hopen

end Marks

/-! ## Agreement -/

/-- **What is marked is what reading reports.** A text has an index unless it holds an
integer with too many digits. Then nothing is marked exactly when the text can be read;
the one mark is a warning of `n` open lists exactly when reading ends inside `n` lists;
and an error is marked exactly when a lexeme is at fault or a closing parenthesis has
nothing to close. -/
theorem diagnostics_agree (text : String) :
    ((∃ o, Index.ofText text = .error o) ↔
      ∃ digits, .word digits ∈ lexemes text.toList ∧ Text.isDigits digits ∧
        digitLimit < digits.length) ∧
    ∀ index, Index.ofText text = .ok index →
      (diagnostics text index = [] ↔ ∃ exprs, parse text = .ok exprs) ∧
      (∀ n, ((∀ d ∈ diagnostics text index, d.severity ≠ .error) ∧
          ∃ w, (diagnostics text index).filter (·.severity = .warning) = [w] ∧
            w.message = toString n ++ " unclosed '(' at end of document") ↔
        parse text = .error (.error (.unclosed n))) ∧
      ((∃ d ∈ diagnostics text index, d.severity = .error) ↔
        ∃ e, parse text = .error (.error e) ∧ (e.kind = .lexing ∨ e = .unmatchedClose)) := by
  refine ⟨Index.ofText_eq_error_iff, ?_⟩
  intro index hindex
  have hnone : (∀ d ∈ diagnostics text index, d.severity ≠ .error) ↔ index.problems = [] := by
    rw [← not_iff_not, ← Ne, ← exists_error_iff text index]
    simp
  rw [diagnostics_eq_nil_iff, exists_error_iff, hnone]
  simp only [filter_warning_eq_singleton_iff]
  rcases index.outcome hindex with ⟨hproblems, forest, hforest, hdepth⟩ | ⟨hproblems, e, he, hkind⟩
  · -- nothing is at fault: what is left is the number of open lists
    have hparse : parse text = if forest.depth > 0 then .error (.error (.unclosed forest.depth))
        else .ok forest.exprs := by
      rw [parse, hforest]
      rfl
    rw [hparse, ← hdepth]
    split_ifs with hopen
    · refine ⟨?_, ?_, ?_⟩
      · simp [Nat.ne_of_gt hopen]
      · intro n
        simp only [Except.error.injEq, Fault.error.injEq, Error.unclosed.injEq]
        exact ⟨fun h => h.2.2, fun h => ⟨hproblems, h ▸ hopen, h⟩⟩
      · simp [hproblems, Error.kind]
    · have hzero : forest.depth = 0 := Nat.eq_zero_of_not_pos hopen
      refine ⟨?_, ?_, ?_⟩
      · simp [hproblems, hzero]
      · intro n
        simp only [hzero, iff_false]
        rintro ⟨-, hpos, rfl⟩
        exact absurd hpos (Nat.lt_irrefl 0)
      · simp [hproblems]
  · -- something is at fault, and reading ends there
    have hparse : parse text = .error (.error e) := by
      rw [parse, he]
      rfl
    have hclosed : ∀ n, e ≠ .unclosed n := by
      rintro n rfl
      rcases hkind with hkind | hkind <;> cases hkind
    rw [hparse]
    refine ⟨?_, ?_, ?_⟩
    · simp [hproblems]
    · intro n
      simp [hproblems, hclosed n]
    · exact ⟨fun _ => ⟨e, rfl, hkind⟩, fun _ => hproblems⟩

theorem diagnostics_agree_open_lists :
    let text := "(a \")\"\n(b"
    let index : Index := { openLists := 2 }
    Index.ofText text = .ok index ∧
      (diagnostics text index = [] ↔ ∃ exprs, parse text = .ok exprs) ∧
      (∀ n, ((∀ d ∈ diagnostics text index, d.severity ≠ .error) ∧
          ∃ w, (diagnostics text index).filter (·.severity = .warning) = [w] ∧
            w.message = toString n ++ " unclosed '(' at end of document") ↔
        parse text = .error (.error (.unclosed n))) ∧
      ((∃ d ∈ diagnostics text index, d.severity = .error) ↔
        ∃ e, parse text = .error (.error e) ∧ (e.kind = .lexing ∨ e = .unmatchedClose)) := by
  intro text index
  have hindex : Index.ofText text = .ok index := by
    let found : List Finding := [.item ⟨0, .opening⟩, .item ⟨1, .word (.identifier "a")⟩,
      .item ⟨3, .string⟩, .item ⟨7, .opening⟩, .item ⟨8, .word (.identifier "b")⟩]
    have hfound : (locatedLexemes text.toList).mapM Finding.ofLocated = .ok found := by
      dsimp only [text, found]
      rfl
    have hflaws : found.filterMap Finding.flaw? = [] := rfl
    have hwalk : walk 0 (found.filterMap Finding.item?) = { openLists := 2 } := rfl
    refine Index.ofText_eq_ok_iff.mpr ⟨found, hfound, ?_⟩
    simp only [hflaws, hwalk, List.append_nil, List.map_nil, List.mergeSort_nil]
    rfl
  exact ⟨hindex, (diagnostics_agree text).2 index hindex⟩

end SmallScheme.Editor

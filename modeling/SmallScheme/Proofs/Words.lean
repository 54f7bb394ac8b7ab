import SmallScheme.Proofs.Scanning

/-!
# Words and what they mean

The words that printing produces, one kind after the other: reserved words, decimal
numerals, identifiers and the texts of reals. Each consists of word characters, so it
scans as one word; what that word means again is `Token.ofWord` of it.
-/

namespace SmallScheme

/-- A text that scans as one word. -/
def IsWord (cs : List Char) : Prop :=
  cs ≠ [] ∧ ∀ c ∈ cs, isWordChar c

theorem IsWord.lexemes {cs : List Char} (h : IsWord cs) : lexemes cs = [.word cs] :=
  lexemes_word h.1 h.2

theorem IsWord.count_quote {cs : List Char} (h : IsWord cs) : cs.count '"' = 0 := by
  rw [List.count_eq_zero]
  intro hmem
  exact absurd (h.2 _ hmem) (by decide)

theorem isWord_of_all {cs : List Char} (h : (!cs.isEmpty && cs.all isWordChar) = true) :
    IsWord cs := by
  simpa [IsWord] using h

/-! ## Characters

Identifiers and numerals are ASCII, where a property can be checked character by
character. -/

theorem ascii_induction {P : Char → Prop} (h : ∀ n < 128, P (Char.ofNat n)) {c : Char}
    (hc : c.toNat < 128) : P c := by
  rw [← Char.ofNat_toNat c]
  exact h _ hc

theorem toNat_lt_of_isAlphanum {c : Char} (hc : c.isAlphanum) : c.toNat < 128 := by
  delta Char.isAlphanum Char.isAlpha Char.isUpper Char.isLower Char.isDigit at hc
  simp only [Bool.or_eq_true, Bool.and_eq_true, decide_eq_true_eq, UInt32.le_iff_toNat_le,
    Char.toNat_val] at hc
  simp only [Char.reduceToNat] at hc
  omega

theorem isWordChar_of_isDigit {c : Char} (hc : c.isDigit) : isWordChar c := by
  have hascii : c.toNat < 128 := toNat_lt_of_isAlphanum (by simp [Char.isAlphanum, hc])
  exact ascii_induction (P := fun c => c.isDigit → isWordChar c) (by decide) hascii hc

/-! ## Digits -/

namespace Text

theorem isDigit_of_mem_toDigits {c : Char} {n : Nat} (hc : c ∈ Nat.toDigits 10 n) : c.isDigit :=
  Nat.isDigit_of_mem_toDigits (by decide) (by decide) hc

theorem isDigits_toDigits (n : Nat) : isDigits (Nat.toDigits 10 n) := by
  have hdigit : ∀ c ∈ Nat.toDigits 10 n, c.isDigit := fun c hc => isDigit_of_mem_toDigits hc
  simpa [isDigits] using hdigit

theorem isWord_of_isDigits {cs : List Char} (h : isDigits cs) : IsWord cs := by
  simp only [isDigits, Bool.and_eq_true, Bool.not_eq_true', List.isEmpty_eq_false_iff,
    List.all_eq_true] at h
  exact ⟨h.1, fun c hc => isWordChar_of_isDigit (h.2 c hc)⟩

theorem ofDigits_toDigits (n : Nat) : ofDigits (Nat.toDigits 10 n) = n :=
  Nat.ofDigitChars_ten_toDigits

/-- So many digits denote a number below that power of ten. -/
theorem ofDigits_lt {cs : List Char} (h : ∀ c ∈ cs, c.isDigit) :
    ofDigits cs < 10 ^ cs.length := by
  -- the induction needs any number before the digits
  have hrun : ∀ n, cs.foldl (fun n c => 10 * n + (c.toNat - '0'.toNat)) n <
      (n + 1) * 10 ^ cs.length := by
    induction cs with
    | nil => simp
    | cons c cs ih =>
      intro n
      obtain ⟨hc, hcs⟩ := List.forall_mem_cons.mp h
      have hvalue : c.toNat - '0'.toNat < 10 := by
        have := (Char.isDigit_iff_toNat.mp hc).2
        simp only [Char.reduceToNat] at this ⊢
        omega
      calc (c :: cs).foldl (fun n c => 10 * n + (c.toNat - '0'.toNat)) n
          < (10 * n + (c.toNat - '0'.toNat) + 1) * 10 ^ cs.length := ih hcs _
        _ ≤ (10 * (n + 1)) * 10 ^ cs.length := Nat.mul_le_mul_right _ (by omega)
        _ = (n + 1) * 10 ^ (c :: cs).length := by
          rw [List.length_cons, Nat.pow_succ, Nat.mul_comm 10, Nat.mul_assoc, Nat.mul_comm 10]
  simpa [ofDigits] using hrun 0

theorem ofDigits_lt_pow {cs : List Char} (h : ∀ c ∈ cs, c.isDigit) {k : Nat}
    (hlength : cs.length ≤ k) : ofDigits cs < Nat.pow 10 k :=
  Nat.lt_of_lt_of_le (ofDigits_lt h) (Nat.pow_le_pow_right (by decide) hlength)

end Text

/-! ## Identifiers -/

namespace Token

theorem startsIdentifier_spec {c : Char} (hc : startsIdentifier c) :
    isWordChar c ∧ startsIdentifier c.toLower ∧ c.toLower.toLower = c.toLower ∧
      c.isDigit = false ∧ c ≠ '.' ∧ c ≠ '#' := by
  have hascii : c.toNat < 128 := by
    rcases Bool.or_eq_true_iff.mp hc with hc | hc
    · exact toNat_lt_of_isAlphanum (by simp [Char.isAlphanum, hc])
    · rw [beq_iff_eq.mp hc]
      decide
  exact ascii_induction (P := fun c => startsIdentifier c → isWordChar c ∧
    startsIdentifier c.toLower ∧ c.toLower.toLower = c.toLower ∧
      c.isDigit = false ∧ c ≠ '.' ∧ c ≠ '#') (by decide) hascii hc

theorem continuesIdentifier_spec {c : Char} (hc : continuesIdentifier c) :
    isWordChar c ∧ continuesIdentifier c.toLower ∧ c.toLower.toLower = c.toLower := by
  have hascii : c.toNat < 128 := by
    simp only [continuesIdentifier, Bool.or_eq_true, beq_iff_eq] at hc
    rcases hc with ((((hc | rfl) | rfl) | rfl) | rfl) | rfl
    · exact toNat_lt_of_isAlphanum hc
    all_goals decide
  exact ascii_induction (P := fun c => continuesIdentifier c → isWordChar c ∧
    continuesIdentifier c.toLower ∧ c.toLower.toLower = c.toLower) (by decide) hascii hc

theorem isWord_of_isIdentifier {cs : List Char} (h : isIdentifier cs) : IsWord cs := by
  cases cs with
  | nil => cases h
  | cons c cs =>
    simp only [isIdentifier, Bool.and_eq_true, List.all_eq_true] at h
    refine ⟨List.cons_ne_nil c cs, List.forall_mem_cons.mpr ⟨?_, ?_⟩⟩
    · exact (startsIdentifier_spec h.1).1
    · intro d hd
      exact (continuesIdentifier_spec (h.2 d hd)).1

/-- An identifier folded to lower case is one that folding leaves alone. -/
theorem isIdentifier_map_toLower {cs : List Char} (h : isIdentifier cs) :
    isIdentifier (cs.map Char.toLower) ∧
      (cs.map Char.toLower).map Char.toLower = cs.map Char.toLower := by
  cases cs with
  | nil => cases h
  | cons c cs =>
    simp only [isIdentifier, Bool.and_eq_true, List.all_eq_true] at h
    obtain ⟨-, hstart, hfold, -⟩ := startsIdentifier_spec h.1
    refine ⟨?_, ?_⟩
    · simp only [List.map_cons, isIdentifier, Bool.and_eq_true, List.all_eq_true,
        List.forall_mem_map]
      exact ⟨hstart, fun d hd => (continuesIdentifier_spec (h.2 d hd)).2.1⟩
    · simp only [List.map_cons, List.map_map, hfold, List.cons.injEq, List.map_inj_left, true_and,
        Function.comp_apply]
      exact fun d hd => (continuesIdentifier_spec (h.2 d hd)).2.2

end Token

theorem Keyword.ofSpelling?_eq_none_iff {word : String} :
    Keyword.ofSpelling? word = none ↔ ∀ k : Keyword, k.spelling ≠ word := by
  simp [Keyword.ofSpelling?, Keyword.mem_all]

theorem Operator.ofSpelling?_eq_none_iff {word : String} :
    Operator.ofSpelling? word = none ↔ ∀ o : Operator, o.spelling ≠ word := by
  simp [Operator.ofSpelling?, Operator.mem_all]

namespace Token

theorem ofWord_of_isIdentifier {word : String} (h : isIdentifier word.toList)
    (hkeyword : ∀ k : Keyword, k.spelling ≠ word) (hoperator : ∀ o : Operator, o.spelling ≠ word) :
    ofWord word = .ok (.identifier (String.ofList (word.toList.map Char.toLower))) := by
  obtain ⟨c, cs, hword⟩ := List.exists_cons_of_ne_nil (isWord_of_isIdentifier h).1
  have hstart : startsIdentifier c := by
    rw [hword, isIdentifier, Bool.and_eq_true] at h
    exact h.1
  obtain ⟨-, -, -, hdigit, hpoint, hhash⟩ := startsIdentifier_spec hstart
  have hdigits : Text.isDigits word.toList = false := by
    simp [hword, Text.isDigits, hdigit]
  have hreal : realParts? word.toList = none := by
    unfold realParts?
    rw [hword, List.dropWhile_cons_of_neg (by simp [hdigit])]
    split
    · next heq => exact absurd (List.cons.inj heq).1 hpoint
    · rfl
  have hbool : word ≠ "#t" ∧ word ≠ "#f" := by
    refine ⟨?_, ?_⟩ <;>
    · rintro rfl
      exact hhash (List.cons.inj hword).1.symm
  simp only [ofWord, Keyword.ofSpelling?_eq_none_iff.mpr hkeyword,
    Operator.ofSpelling?_eq_none_iff.mpr hoperator, hdigits, hreal, hbool, h]
  rfl

/-! ## Reserved words -/

theorem isWord_keyword (k : Keyword) : IsWord k.spelling.toList := by
  cases k <;> exact isWord_of_all rfl

theorem isWord_operator (o : Operator) : IsWord o.spelling.toList := by
  cases o <;> exact isWord_of_all rfl

theorem ofWord_keyword (k : Keyword) : ofWord k.spelling = .ok (.keyword k) := by
  cases k <;> rfl

theorem ofWord_operator (o : Operator) : ofWord o.spelling = .ok (.operator o) := by
  cases o <;> rfl

end Token

/-! ## Integers -/

theorem Number.intText_natCast {n : Nat} (h : n < Nat.pow 10 digitLimit) :
    Number.intText n = .ok (String.ofList (Nat.toDigits 10 n)) := by
  have hsign : ¬ (n : Int) < 0 := by omega
  simp only [Number.intText, Int.natAbs_natCast, dif_pos h, if_neg hsign]

namespace Token

theorem ofWord_of_isDigits {word : String} (h : Text.isDigits word.toList) :
    ofWord word = ofInteger word.toList := by
  have hkeyword : ∀ k : Keyword, k.spelling ≠ word := by
    rintro k rfl
    cases k <;> exact absurd h (by decide)
  have hoperator : ∀ o : Operator, o.spelling ≠ word := by
    rintro o rfl
    cases o <;> exact absurd h (by decide)
  simp only [ofWord, Keyword.ofSpelling?_eq_none_iff.mpr hkeyword,
    Operator.ofSpelling?_eq_none_iff.mpr hoperator, h, if_true]

theorem ofWord_toDigits {n : Nat} (h : n < Nat.pow 10 digitLimit) :
    ofWord (String.ofList (Nat.toDigits 10 n)) = .ok (.number (.int n)) := by
  rw [Nat.pow_eq, ← Nat.length_toDigits_le_iff (by decide) (by decide)] at h
  have hdigits : Text.isDigits (String.ofList (Nat.toDigits 10 n)).toList := by
    rw [String.toList_ofList]
    exact Text.isDigits_toDigits n
  rw [ofWord_of_isDigits hdigits, ofInteger, Number.ofDigits, String.toList_ofList,
    dif_pos h, Text.ofDigits_toDigits]

end Token

/-! ## Reals -/

namespace Binary64

theorem isWordChar_of_mem_significantDigits {c : Char} {n : Nat} (hc : c ∈ significantDigits n) :
    isWordChar c := by
  unfold significantDigits at hc
  split at hc
  · rw [List.mem_singleton.mp hc]
    decide
  · have hmem := (List.dropWhile_sublist _).mem (List.mem_reverse.mp hc)
    exact isWordChar_of_isDigit (Text.isDigit_of_mem_toDigits (List.mem_reverse.mp hmem))

theorem isWordChar_of_mem_replicate {c : Char} {n : Nat} (hc : c ∈ List.replicate n '0') :
    isWordChar c := by
  rw [List.eq_of_mem_replicate hc]
  decide

theorem isWord_positional {ds : List Char} (h : ∀ c ∈ ds, isWordChar c) (point : Int) :
    IsWord (positional ds point) := by
  have hpoint : isWordChar '.' := by decide
  have hzero : isWordChar '0' := by decide
  unfold positional
  split_ifs
  · refine ⟨by simp, ?_⟩
    simp only [List.mem_cons, List.mem_append]
    rintro c (rfl | rfl | hc | hc)
    · exact hzero
    · exact hpoint
    · exact isWordChar_of_mem_replicate hc
    · exact h c hc
  · refine ⟨by simp, ?_⟩
    simp only [List.mem_append, List.mem_cons, List.not_mem_nil, or_false]
    rintro c ((hc | hc) | rfl | rfl)
    · exact h c hc
    · exact isWordChar_of_mem_replicate hc
    · exact hpoint
    · exact hzero
  · refine ⟨by simp, ?_⟩
    simp only [List.mem_append, List.mem_cons]
    rintro c (hc | rfl | hc)
    · exact h c (List.mem_of_mem_take hc)
    · exact hpoint
    · exact h c (List.mem_of_mem_drop hc)

theorem isWord_scientific {ds : List Char} (h : ∀ c ∈ ds, isWordChar c) (exponent : Int) :
    IsWord (style.scientific ds exponent) := by
  unfold Style.scientific
  refine ⟨by simp, ?_⟩
  simp only [List.mem_append, List.mem_cons]
  rintro c ((hc | hc) | rfl | rfl | hc | hc)
  · exact h c (List.mem_of_mem_take hc)
  · split at hc
    · exact absurd hc List.not_mem_nil
    · rcases List.mem_cons.mp hc with rfl | hc
      · decide
      · exact h c (List.mem_of_mem_drop hc)
  · decide
  · split <;> decide
  · exact isWordChar_of_mem_replicate hc
  · exact isWordChar_of_isDigit (Text.isDigit_of_mem_toDigits hc)

theorem isWord_magnitude (m : Magnitude) : IsWord (style.magnitude m) := by
  have hdigits : ∀ n, ∀ c ∈ significantDigits n, isWordChar c :=
    fun _ _ hc => isWordChar_of_mem_significantDigits hc
  simp only [Style.magnitude, Style.decimal]
  split_ifs
  · exact isWord_of_all rfl
  · exact isWord_positional (hdigits _) _
  · exact isWord_scientific (hdigits _) _

/-- The text of a real is one word. -/
theorem isWord_text (x : Float) : IsWord (style.text x).toList := by
  have hsign : ∀ {cs : List Char}, IsWord cs →
      IsWord ((if isNegative x then "-" else "").toList ++ cs) := by
    intro cs hcs
    split
    · exact ⟨by simp, List.forall_mem_cons.mpr ⟨by decide, hcs.2⟩⟩
    · exact hcs
  unfold Style.text
  dsimp only
  split
  · next m hm =>
    rw [String.toList_append, String.toList_ofList]
    exact hsign (isWord_magnitude m)
  · split
    · rw [String.toList_append]
      exact hsign (isWord_of_all rfl)
    · exact isWord_of_all rfl

end Binary64

end SmallScheme

import SmallScheme.Proofs.Extents

/-!
# Cutting a text in two

A text whose strings have ended can be read in two parts wherever no word is cut: the scanner
comes out of the first part as it goes into any text, and nothing that follows changes what it
found there. Where a word is cut, its two pieces are read as one.

* **`lexemes_append_of_apart`** — next to a blank, a parenthesis or a double quote the lexemes
  of the parts are those of the whole;
* **`lexemes_append_of_not_apart`** — elsewhere the last word of the first part and the first
  word of the second are one word;
* **`tokenize_append`** — the tokens of both parts, and which fault is reported.
-/

namespace SmallScheme

/-- No word goes on from one text into the other: one of them is empty, or a character on one
side of the cut is a blank, a parenthesis or a double quote. -/
def Apart (a b : List Char) : Prop :=
  (∀ c ∈ a.getLast?, isWordChar c = false) ∨ ∀ c ∈ b.head?, isWordChar c = false

theorem exists_of_not_apart {a b : List Char} (h : ¬ Apart a b) :
    (∃ init c, a = init ++ [c] ∧ isWordChar c) ∧ ∃ d rest, b = d :: rest ∧ isWordChar d := by
  obtain ⟨hlast, hhead⟩ := not_or.mp h
  constructor
  · rcases List.eq_nil_or_concat a with rfl | ⟨init, c, rfl⟩
    · simp at hlast
    · exact ⟨init, c, List.concat_eq_append, by simpa using hlast⟩
  · cases b with
    | nil => simp at hhead
    | cons d rest => exact ⟨d, rest, rfl, by simpa using hhead⟩

/-! ## Where no word is cut -/

theorem lexemes_append_of_apart {a b : List Char} (ha : Even (a.count '"')) (h : Apart a b) :
    lexemes (a ++ b) = lexemes a ++ lexemes b := by
  rcases h with hlast | hhead
  · -- the scanner is between lexemes after the last character of `a`
    have hmode := modeAfter_eq_between ha hlast
    have hfound : foundIn 0 .between a = locatedLexemes a := by
      rw [locatedLexemes_eq, locatedFrom_eq, hmode, ScanMode.finish, List.append_nil]
    rw [lexemes, locatedLexemes_eq, locatedFrom_append, hmode, hfound, List.map_append,
      map_lexeme_locatedFrom]
    rfl
  · cases b with
    | nil => rw [List.append_nil, show lexemes [] = [] from rfl, List.append_nil]
    | cons c b => exact lexemes_append_of_delimiter ha (hhead c rfl)

/-! ## Where a word is cut -/

/-- After a word character outside strings the scanner is in the middle of a word. -/
theorem mode_read_of_isWordChar {s : Scanner} {c : Char} (hmode : s.mode.isQuoted = false)
    (hc : isWordChar c) : ∃ start chars, (s.read c).mode = .word start chars := by
  obtain ⟨found, offset, mode⟩ := s
  cases mode with
  | between =>
    exact ⟨offset, [c], by simp [Scanner.read, readCode_of_isWordChar hc, ScanMode.extend]⟩
  | word start chars =>
    exact ⟨start, c :: chars, by simp [Scanner.read, readCode_of_isWordChar hc, ScanMode.extend]⟩
  | quoted start chars => cases hmode

theorem modeAfter_eq_word {a : List Char} {c : Char} (ha : Even ((a ++ [c]).count '"'))
    (hc : isWordChar c) : ∃ start chars, modeAfter 0 .between (a ++ [c]) = .word start chars := by
  have hquote : c ≠ '"' := by rintro rfl; exact absurd hc (by decide)
  have hbefore : Even (a.count '"') := by
    rwa [List.count_append, List.count_singleton, beq_false_of_ne hquote,
      if_neg Bool.false_ne_true, Nat.add_zero] at ha
  rw [modeAfter_concat]
  exact mode_read_of_isWordChar (modeAfter_between_of_even 0 hbefore) hc

/-- A text that starts with a word character starts with a word. -/
theorem exists_first_word {c : Char} (cs : List Char) (hc : isWordChar c) :
    ∃ w rest, c :: cs = w ++ rest ∧ (Lexeme.word w).WellFormed ∧
      (Lexeme.word w).EndsBefore rest := by
  have hblank : ¬ Text.isBlank c := by
    intro hblank
    rw [isWordChar_of_isBlank hblank] at hc
    cases hc
  obtain ⟨l, rest, heq, hl, hends, -⟩ := exists_lexeme cs hblank
  cases l with
  | word w => exact ⟨w, rest, heq, hl, hends⟩
  | _ =>
    -- all other lexemes start with a parenthesis or a double quote
    obtain ⟨rfl, -⟩ := List.cons.inj heq
    exact absurd hc (by decide)

/-- **The two pieces of a word are one word.** -/
theorem lexemes_append_of_not_apart {a b : List Char} (ha : Even (a.count '"'))
    (h : ¬ Apart a b) :
    ∃ before w w' after, lexemes a = before ++ [.word w] ∧ lexemes b = .word w' :: after ∧
      lexemes (a ++ b) = before ++ .word (w ++ w') :: after := by
  obtain ⟨⟨init, c, hinit, hc⟩, d, tail, rfl, hd⟩ := exists_of_not_apart h
  obtain ⟨start, chars, hmode⟩ : ∃ start chars, modeAfter 0 .between a = .word start chars := by
    rw [hinit] at ha ⊢
    exact modeAfter_eq_word ha hc
  obtain ⟨w', rest, heq, hw', hends⟩ := exists_first_word tail hd
  refine ⟨(foundIn 0 .between a).map (·.lexeme), chars.reverse, w', lexemes rest, ?_, ?_, ?_⟩
  · rw [lexemes, locatedLexemes_eq, locatedFrom_eq, hmode, List.map_append]
    rfl
  · rw [heq]
    exact lexemes_chars hw' hends
  · rw [heq, lexemes, locatedLexemes_eq, locatedFrom_append, hmode,
      locatedFrom_word_append _ _ _ hw'.2, locatedFrom_word_end _ _ _ hends, List.map_append,
      List.map_cons, map_lexeme_locatedFrom, List.reverse_append, List.reverse_reverse]

/-! ## Tokens -/

/-- **Tokenizing in two parts.** Let a text have tokens, and let another one follow it. If no
word goes on from the first into the second, both have the tokens of the first and then those
of the second; if the second has none, its fault is that of both. If a word does go on, the
last word of the first and the first word of the second are read as one, and nothing else
changes. -/
theorem tokenize_append (a b : String) (tokens : List Token) (ha : tokenize a = .ok tokens) :
    (Apart a.toList b.toList → tokenize (a ++ b) = (tokenize b).map (tokens ++ ·)) ∧
    (¬ Apart a.toList b.toList →
      ∃ before w w' after, lexemes a.toList = before ++ [.word w] ∧
        lexemes b.toList = .word w' :: after ∧
        lexemes (a ++ b).toList = before ++ .word (w ++ w') :: after) := by
  have heven := even_count_of_tokenize ha
  rw [String.toList_append]
  refine ⟨fun h => ?_, lexemes_append_of_not_apart heven⟩
  rw [tokenize_eq_mapM] at ha
  rw [tokenize_eq_mapM, String.toList_append, lexemes_append_of_apart heven h, List.mapM_append,
    ha, tokenize_eq_mapM]
  cases (lexemes b.toList).mapM Token.ofLexeme with
  | ok later => rfl
  | error fault => rfl

/-- Strings side by side, a string that never ends, and an identifier in two pieces. -/
theorem tokenize_append_strings_side_by_side :
    tokenize "(f\"x )\"" = .ok [.opening, .identifier "f", .str "x )"] ∧
      tokenize ("(f\"x )\"" ++ "\"\"G") =
        .ok [.opening, .identifier "f", .str "x )", .str "", .identifier "g"] ∧
      tokenize ("(f\"x )\"" ++ "\" G ") = .error (.error (.unterminatedString "\" G")) ∧
      ∃ before w w' after, lexemes ['(', 'f'] = before ++ [.word w] ∧
        lexemes ['o', ')'] = .word w' :: after ∧
        lexemes ['(', 'f', 'o', ')'] = before ++ .word (w ++ w') :: after := by
  have hfirst : tokenize "(f\"x )\"" = .ok [.opening, .identifier "f", .str "x )"] := rfl
  have hword : tokenize "(f" = .ok [.opening, .identifier "f"] := rfl
  refine ⟨hfirst, ?_, ?_, ?_⟩
  · exact (tokenize_append _ "\"\"G" _ hfirst).1 (.inl (by simp [isWordChar]))
  · exact (tokenize_append _ "\" G " _ hfirst).1 (.inr (by simp [isWordChar]))
  · exact (tokenize_append "(f" "o)" _ hword).2 (by simp [Apart, isWordChar, Text.isBlank])

end SmallScheme

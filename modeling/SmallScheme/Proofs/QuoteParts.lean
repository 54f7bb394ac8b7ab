import SmallScheme.Proofs.Scanning

/-!
# A text cut at its double quotes

What the scanner finds one character at a time can be said of the text as a whole. Its
double quotes cut it into parts that are in turn code and the content of a string; in
code each parenthesis stands for itself, and blanks separate the words. `partLexemes`
says so without a scanner, and `lexemes_eq_partLexemes` that nothing else is found.
`tokenize_by_parts` adds the meaning of words, and which fault is reported if there is
more than one.
-/

namespace SmallScheme

/-! ## Code -/

/-- The maximal runs of characters that are not blank. -/
def Text.words (cs : List Char) : List (List Char) :=
  (cs.splitOnP isBlank).filter (fun w => !w.isEmpty)

/-- The text with a space on either side of each parenthesis. -/
def Text.setApart (cs : List Char) : List Char :=
  cs.flatMap fun c => if c = '(' ∨ c = ')' then [' ', c, ' '] else [c]

/-- A parenthesis or a word, by its spelling. -/
def Lexeme.ofSpelling : List Char → Lexeme
  | ['('] => .opening
  | [')'] => .closing
  | spelling => .word spelling

/-- The lexemes of a text without strings. -/
def codeLexemes (code : List Char) : List Lexeme :=
  (Text.words (Text.setApart code)).map Lexeme.ofSpelling

/-- The lexemes of the parts of a text between its double quotes. The first part is code,
the next one the content of a string, and so on in turn; a string that is the last part
has no end. -/
def partLexemes : List (List Char) → List Lexeme
  | [] => []
  | [code] => codeLexemes code
  | [code, content] => codeLexemes code ++ [.unterminated content]
  | code :: content :: part :: parts =>
    codeLexemes code ++ .quoted content :: partLexemes (part :: parts)

namespace Text

/-- Words split at a blank. -/
theorem words_append_blank (a b : List Char) {c : Char} (hc : isBlank c) :
    words (a ++ c :: b) = words a ++ words b := by
  unfold words
  rw [List.splitOnP_append_cons a b hc, List.filter_append]

theorem words_of_isWordChar {w : List Char} (hne : w ≠ []) (hw : ∀ c ∈ w, isWordChar c) :
    words w = [w] := by
  have hblank : ∀ c ∈ w, isBlank c = false := by
    intro c hc
    have := hw c hc
    simp only [isWordChar, Bool.and_eq_true, Bool.not_eq_true'] at this
    exact this.2
  rw [words, List.splitOnP_eq_singleton hblank]
  simpa using hne

theorem setApart_cons {c : Char} (hc : ¬ (c = '(' ∨ c = ')')) (cs : List Char) :
    setApart (c :: cs) = c :: setApart cs := by
  rw [setApart, List.flatMap_cons, if_neg hc]
  rfl

theorem setApart_append (a b : List Char) : setApart (a ++ b) = setApart a ++ setApart b :=
  List.flatMap_append

theorem setApart_of_isWordChar {w : List Char} (hw : ∀ c ∈ w, isWordChar c) :
    setApart w = w := by
  induction w with
  | nil => rfl
  | cons c w ih =>
    obtain ⟨hc, hw⟩ := List.forall_mem_cons.mp hw
    have hparen : ¬ (c = '(' ∨ c = ')') := by
      rintro (rfl | rfl)
      · exact absurd hc (by decide)
      · exact absurd hc (by decide)
    rw [setApart_cons hparen, ih hw]

end Text

section Code

variable (a b : List Char)

theorem codeLexemes_append_blank {c : Char} (hc : Text.isBlank c) :
    codeLexemes (a ++ c :: b) = codeLexemes a ++ codeLexemes b := by
  have hparen : ¬ (c = '(' ∨ c = ')') := by
    rintro (rfl | rfl)
    · exact absurd hc (by decide)
    · exact absurd hc (by decide)
  unfold codeLexemes
  rw [Text.setApart_append, Text.setApart_cons hparen, Text.words_append_blank _ _ hc,
    List.map_append]

/-- A parenthesis is a lexeme whatever surrounds it. -/
theorem codeLexemes_append_parenthesis {c : Char} (hc : c = '(' ∨ c = ')') :
    codeLexemes (a ++ c :: b) = codeLexemes a ++ Lexeme.ofSpelling [c] :: codeLexemes b := by
  have hspace : Text.isBlank ' ' := by decide
  have hcons : Text.setApart (c :: b) = ' ' :: ([c] ++ ' ' :: Text.setApart b) := by
    rw [Text.setApart, List.flatMap_cons, if_pos hc]
    rfl
  have hword : Text.words [c] = [[c]] := by
    rcases hc with rfl | rfl
    · decide
    · decide
  unfold codeLexemes
  rw [Text.setApart_append, hcons, Text.words_append_blank _ _ hspace,
    Text.words_append_blank _ _ hspace, hword]
  simp

end Code

theorem even_count_of_not_mem {cs : List Char} (h : '"' ∉ cs) : Even (cs.count '"') := by
  rw [List.count_eq_zero_of_not_mem h]
  exact Even.zero

theorem codeLexemes_word {w : List Char} (hw : ∀ c ∈ w, isWordChar c) :
    codeLexemes w = lexemes w := by
  unfold codeLexemes
  rw [Text.setApart_of_isWordChar hw]
  cases w with
  | nil => rfl
  | cons c cs =>
    have hspelling : Lexeme.ofSpelling (c :: cs) = .word (c :: cs) := by
      unfold Lexeme.ofSpelling
      split
      · exact absurd (hw '(' (by simp_all)) (by decide)
      · exact absurd (hw ')' (by simp_all)) (by decide)
      · rfl
    rw [Text.words_of_isWordChar (List.cons_ne_nil c cs) hw,
      lexemes_word (List.cons_ne_nil c cs) hw, List.map_singleton, hspelling]

/-- The scanner finds the same in code, after any part of a word. -/
theorem lexemes_word_append {code : List Char} (hcode : '"' ∉ code) {w : List Char}
    (hw : ∀ c ∈ w, isWordChar c) : lexemes (w ++ code) = codeLexemes (w ++ code) := by
  induction code generalizing w with
  | nil => rw [List.append_nil, codeLexemes_word hw]
  | cons c code ih =>
    obtain ⟨hquote, hcode⟩ := not_or.mp (mt List.mem_cons.mpr hcode)
    by_cases hc : isWordChar c
    · -- the word goes on
      have hlonger : ∀ d ∈ w ++ [c], isWordChar d := by
        intro d hd
        rcases List.mem_append.mp hd with hd | hd
        · exact hw d hd
        · rwa [List.mem_singleton.mp hd]
      have := ih hcode hlonger
      rwa [List.append_assoc, List.singleton_append] at this
    · -- the word ends, and the rest is scanned afresh
      have hrest : lexemes code = codeLexemes code := ih hcode (w := []) (by simp)
      have hnone : '"' ∉ w := fun hmem => absurd (hw _ hmem) (by decide)
      rw [lexemes_append_of_delimiter (even_count_of_not_mem hnone) (by simpa using hc),
        ← codeLexemes_word hw]
      by_cases hblank : Text.isBlank c
      · rw [lexemes_cons_blank hblank, codeLexemes_append_blank _ _ hblank, hrest]
      · have hparen : c = '(' ∨ c = ')' := by
          simp only [isWordChar] at hc
          grind
        rw [codeLexemes_append_parenthesis _ _ hparen, ← hrest]
        rcases hparen with rfl | rfl
        · rw [lexemes_cons_opening]
          rfl
        · rw [lexemes_cons_closing]
          rfl

theorem lexemes_code {code : List Char} (hcode : '"' ∉ code) :
    lexemes code = codeLexemes code :=
  lexemes_word_append hcode (w := []) (by simp)

/-! ## Code and strings in turn -/

/-- **The lexemes of a text are those of its parts.** -/
theorem lexemes_eq_partLexemes (cs : List Char) :
    lexemes cs = partLexemes (cs.splitOn '"') := by
  -- on the length of the text: two double quotes are taken off at a time
  induction hn : cs.length using Nat.strong_induction_on generalizing cs with
  | _ n ih =>
    by_cases hcs : '"' ∈ cs
    · obtain ⟨code, rest, rfl, hcode⟩ := List.eq_append_cons_of_mem hcs
      rw [List.splitOn_append_cons_self_of_not_mem hcode,
        lexemes_append_of_delimiter (even_count_of_not_mem hcode) (by decide),
        lexemes_code hcode]
      by_cases hrest : '"' ∈ rest
      · obtain ⟨content, rest, rfl, hcontent⟩ := List.eq_append_cons_of_mem hrest
        rw [List.splitOn_append_cons_self_of_not_mem hcontent, lexemes_cons_quoted hcontent]
        have hlength : rest.length < n := by
          rw [← hn]
          simp only [List.length_append, List.length_cons]
          omega
        rw [ih rest.length hlength rest rfl]
        obtain ⟨part, parts, hparts⟩ :=
          List.exists_cons_of_ne_nil (List.splitOn_ne_nil '"' rest)
        rw [hparts, partLexemes]
      · rw [List.splitOn_eq_singleton hrest, lexemes_unterminated hrest]
        rfl
    · rw [List.splitOn_eq_singleton hcs, lexemes_code hcs]
      rfl

example : partLexemes ("a\"b )\"(c".toList.splitOn '"') =
    [.word ['a'], .quoted ['b', ' ', ')'], .opening, .word ['c']] := by rfl

/-! ## The string without an end -/

theorem length_splitOn_quote (cs : List Char) :
    (cs.splitOn '"').length = cs.count '"' + 1 := by
  induction cs with
  | nil => rfl
  | cons c cs ih =>
    rw [List.splitOn_cons_eq_if_modifyHead, List.count_cons]
    split
    · rw [List.length_cons, ih]
    · rw [List.length_modifyHead, ih]

/-- Any lexeme but a string without an end. -/
def Lexeme.IsWhole : Lexeme → Prop
  | .unterminated _ => False
  | _ => True

/-- Only words can fail to be tokens where strings end. -/
theorem Lexeme.IsWhole.isOk_iff {l : Lexeme} (hl : l.IsWhole) :
    (Token.ofLexeme l).isOk ↔
      ∀ spelling, l = .word spelling → (Token.ofWord (String.ofList spelling)).isOk := by
  cases l with
  | unterminated content => cases hl
  | word spelling => simp [Token.ofLexeme]
  | _ => simp [Token.ofLexeme, Except.isOk, Except.toBool]

theorem isWhole_of_mem_codeLexemes {code : List Char} {l : Lexeme} (hl : l ∈ codeLexemes code) :
    l.IsWhole := by
  obtain ⟨spelling, -, rfl⟩ := List.mem_map.mp hl
  unfold Lexeme.ofSpelling
  split <;> trivial

/-- After an even number of double quotes all strings have ended. -/
theorem isWhole_of_odd_length {parts : List (List Char)} (hodd : Odd parts.length) :
    ∀ l ∈ partLexemes parts, l.IsWhole := by
  fun_induction partLexemes parts with
  | case1 => simp
  | case2 code => exact fun l hl => isWhole_of_mem_codeLexemes hl
  | case3 code content => exact absurd (show Odd 2 from hodd) (by decide)
  | case4 code content part parts ih =>
    have hrest : Odd (part :: parts).length := by
      rw [List.length_cons, List.length_cons] at hodd
      simpa [Nat.odd_add_one] using hodd
    intro l hl
    rcases List.mem_append.mp hl with hl | hl
    · exact isWhole_of_mem_codeLexemes hl
    · rcases List.mem_cons.mp hl with rfl | hl
      · trivial
      · exact ih hrest l hl

/-- After an odd number of them the last part is the string without an end, and it is the
only one. -/
theorem exists_unterminated_of_even_length {parts : List (List Char)} (hne : parts ≠ [])
    (heven : Even parts.length) :
    ∃ before content, parts.getLast? = some content ∧
      partLexemes parts = before ++ [.unterminated content] ∧ ∀ l ∈ before, l.IsWhole := by
  fun_induction partLexemes parts with
  | case1 => exact absurd rfl hne
  | case2 code => exact absurd (show Even 1 from heven) (by decide)
  | case3 code content =>
    exact ⟨codeLexemes code, content, rfl, rfl, fun l hl => isWhole_of_mem_codeLexemes hl⟩
  | case4 code content part parts ih =>
    have hrest : Even (part :: parts).length := by
      rw [List.length_cons, List.length_cons] at heven
      simpa [Nat.even_add_one] using heven
    obtain ⟨before, last, hlast, heq, hbefore⟩ := ih (List.cons_ne_nil _ _) hrest
    refine ⟨codeLexemes code ++ .quoted content :: before, last, ?_, ?_, ?_⟩
    · rw [← hlast]
      simp [List.getLast?_cons_cons]
    · rw [heq, List.append_assoc, List.cons_append]
    · intro l hl
      rcases List.mem_append.mp hl with hl | hl
      · exact isWhole_of_mem_codeLexemes hl
      · rcases List.mem_cons.mp hl with rfl | hl
        · trivial
        · exact hbefore l hl

theorem exists_unterminated_of_odd_count {cs : List Char} (h : Odd (cs.count '"')) :
    ∃ before content, (cs.splitOn '"').getLast? = some content ∧
      partLexemes (cs.splitOn '"') = before ++ [.unterminated content] ∧
      ∀ l ∈ before, l.IsWhole := by
  refine exists_unterminated_of_even_length (List.splitOn_ne_nil _ _) ?_
  rw [length_splitOn_quote]
  exact h.add_one

theorem odd_count_of_mem_unterminated {cs content : List Char}
    (h : .unterminated content ∈ partLexemes (cs.splitOn '"')) : Odd (cs.count '"') := by
  by_contra heven
  have hlength : Odd (cs.splitOn '"').length := by
    rw [length_splitOn_quote]
    exact (Nat.not_odd_iff_even.mp heven).add_one
  exact isWhole_of_odd_length hlength _ h

/-- The string without an end is the last lexeme. -/
theorem eq_of_append_unterminated {before before' after : List Lexeme}
    {content content' : List Char} (hwhole : ∀ l ∈ before', l.IsWhole)
    (h : before' ++ [.unterminated content'] = before ++ .unterminated content :: after) :
    before' = before ∧ content' = content ∧ after = [] := by
  rcases List.eq_nil_or_concat after with rfl | ⟨init, last, rfl⟩
  · obtain ⟨hbefore, hlast⟩ := List.append_inj' h rfl
    cases hlast
    exact ⟨hbefore, rfl, rfl⟩
  · rw [List.concat_eq_append, ← List.cons_append, ← List.append_assoc] at h
    obtain ⟨rfl, -⟩ := List.append_inj' h rfl
    exact (hwhole (.unterminated content) (by simp)).elim

theorem isWhole_of_mem_before {parts : List (List Char)} {before after : List Lexeme} {l : Lexeme}
    (h : partLexemes parts = before ++ l :: after) : ∀ x ∈ before, x.IsWhole := by
  intro x hx
  rcases Nat.even_or_odd parts.length with heven | hodd
  · have hne : parts ≠ [] := by
      rintro rfl
      simp [partLexemes] at h
    obtain ⟨before', content', -, hparts, hwhole⟩ := exists_unterminated_of_even_length hne heven
    cases x with
    | unterminated content =>
      obtain ⟨first, rest, rfl⟩ := List.append_of_mem hx
      rw [hparts, List.append_assoc, List.cons_append] at h
      have hlast := (eq_of_append_unterminated hwhole h).2.2
      simp at hlast
    | _ => trivial
  · exact isWhole_of_odd_length hodd x (by rw [h]; exact List.mem_append_left _ hx)

/-! ## Tokens -/

theorem isOk_of_isWhole {ls : List Lexeme} (hwhole : ∀ l ∈ ls, l.IsWhole)
    (hwords : ∀ s, .word s ∈ ls → (Token.ofWord (String.ofList s)).isOk) :
    ∀ l ∈ ls, (Token.ofLexeme l).isOk := by
  intro l hl
  rw [(hwhole l hl).isOk_iff]
  rintro spelling rfl
  exact hwords spelling hl

/-- **Tokenizing, by the parts of the text.** A text has tokens exactly when its double
quotes come in pairs and every word of its code is a token; then they are, in order, its
parentheses, the contents of its strings, and its words. Otherwise the first word that is
no token is at fault, and only if there is none the string without an end. -/
theorem tokenize_by_parts (text : String) :
    let parts := text.toList.splitOn '"'
    let pieces := partLexemes parts
    (∀ tokens, tokenize text = .ok tokens ↔
      Even (text.toList.count '"') ∧ pieces.map Token.ofLexeme = tokens.map .ok) ∧
    ∀ fault, tokenize text = .error fault ↔
      (∃ before spelling after, pieces = before ++ .word spelling :: after ∧
        (∀ s, .word s ∈ before → (Token.ofWord (String.ofList s)).isOk) ∧
        Token.ofWord (String.ofList spelling) = .error fault) ∨
      ((∀ s, .word s ∈ pieces → (Token.ofWord (String.ofList s)).isOk) ∧
        Odd (text.toList.count '"') ∧
        ∃ content, parts.getLast? = some content ∧
          fault =
            .error (.unterminatedString (String.ofList (Text.trimEnd ('"' :: content))))) := by
  intro parts pieces
  have hpieces : lexemes text.toList = pieces := lexemes_eq_partLexemes text.toList
  refine ⟨?_, ?_⟩
  · intro tokens
    rw [← hpieces, ← tokenize_eq_ok_iff]
    exact ⟨fun h => ⟨even_count_of_tokenize h, h⟩, And.right⟩
  · intro fault
    rw [tokenize_eq_mapM, hpieces, mapM_eq_error_iff]
    constructor
    · rintro ⟨before, l, after, heq, hbefore, hfault⟩
      cases l with
      | opening => cases hfault
      | closing => cases hfault
      | quoted content => cases hfault
      | word spelling =>
        exact .inl ⟨before, spelling, after, heq, fun s hs => hbefore _ hs, hfault⟩
      | unterminated content =>
        have hmem : .unterminated content ∈ pieces := by
          rw [heq]
          simp
        have hodd := odd_count_of_mem_unterminated hmem
        obtain ⟨before', content', hlast, hparts, hwhole⟩ :=
          exists_unterminated_of_odd_count hodd
        obtain ⟨rfl, rfl, rfl⟩ := eq_of_append_unterminated hwhole (hparts.symm.trans heq)
        refine .inr ⟨?_, hodd, content', hlast, ?_⟩
        · intro s hs
          rw [heq, List.mem_append] at hs
          exact hbefore _ (hs.resolve_right (by simp))
        · cases hfault
          rfl
    · rintro (⟨before, spelling, after, heq, hbefore, hfault⟩ | ⟨hwords, hodd, content, hlast, rfl⟩)
      · exact ⟨before, .word spelling, after, heq,
          isOk_of_isWhole (isWhole_of_mem_before heq) hbefore, hfault⟩
      · obtain ⟨before, content', hlast', hparts, hwhole⟩ :=
          exists_unterminated_of_odd_count hodd
        rw [hlast] at hlast'
        cases hlast'
        refine ⟨before, .unterminated content, [], hparts, ?_, rfl⟩
        refine isOk_of_isWhole hwhole fun s hs => hwords s ?_
        rw [show pieces = _ from hparts]
        exact List.mem_append_left _ hs

end SmallScheme

import Mathlib.Data.List.Basic
import SmallScheme.Proofs.Places
import SmallScheme.Proofs.Words

/-!
# The extents of lexemes

Which characters of a text are lexemes can be told without the scanner. A lexeme stands
wherever its characters do, if an even number of double quotes comes before them and the
characters on either side do not go on with it.

* **`mem_locatedLexemes_iff`** — every place of a lexeme, and no other place;
* **`pairwise_locatedLexemes`** — no lexeme starts before the one before it has ended;
* **`positionAt_before`** — so the positions of lexemes come in their order, too.
-/

namespace SmallScheme

theorem Text.ne_of_isBlank {c d : Char} (hc : isBlank c) (hd : isBlank d = false) : c ≠ d := by
  rintro rfl
  rw [hc] at hd
  cases hd

namespace Lexeme

/-- The lexeme may start after a text: that leaves no string open, and a word does not go on
with its last characters. -/
structure StartsAfter (l : Lexeme) (before : List Char) : Prop where
  outside : Even (before.count '"')
  apart : (∃ spelling, l = .word spelling) → ∀ c ∈ before.getLast?, isWordChar c = false

variable {l : Lexeme}

theorem chars_ne_nil (hl : l.WellFormed) : l.chars ≠ [] := by
  cases l with
  | word spelling => exact hl.1
  | _ => exact List.cons_ne_nil _ _

/-- Strings have their double quotes at both ends, and nothing else has any. -/
theorem even_count_chars (hl : l.WellFormed) (hends : ∀ content, l ≠ .unterminated content) :
    Even (l.chars.count '"') := by
  cases l with
  | opening => decide
  | closing => decide
  | quoted content =>
    rw [chars, List.count_cons_self, List.count_append, List.count_eq_zero_of_not_mem hl]
    decide
  | unterminated content => exact absurd rfl (hends content)
  | word spelling =>
    have hword : IsWord spelling := hl
    rw [chars, hword.count_quote]
    exact Even.zero

/-- A lexeme that a text follows is no string without an end. -/
theorem EndsBefore.ne_unterminated {rest : List Char} (h : l.EndsBefore rest) (hne : rest ≠ []) :
    ∀ content, l ≠ .unterminated content := by
  rintro content rfl
  exact hne h

/-- No lexeme ends with a word character if a word character follows it. -/
theorem EndsBefore.isWordChar_getLast? {c : Char} {rest : List Char}
    (h : l.EndsBefore (c :: rest)) (hc : isWordChar c) :
    ∀ d ∈ l.chars.getLast?, isWordChar d = false := by
  cases l with
  | opening => simp [chars, isWordChar]
  | closing => simp [chars, isWordChar]
  | quoted content => simp [chars, isWordChar, List.getLast?_cons, List.getLast?_append]
  | unterminated content => cases h
  | word spelling => simp [h c rfl] at hc

end Lexeme

/-! ## Every place of a lexeme -/

/-- The characters of a lexeme that the scanner finds, and those on either side. -/
theorem parts_of_mem {cs : List Char} {offset : Nat} {l : Located}
    (h : l ∈ locatedFrom offset .between cs) :
    ∃ a b, cs = a ++ (l.lexeme.chars ++ b) ∧ l.start = offset + a.length ∧
      l.lexeme.WellFormed ∧ l.lexeme.StartsAfter a ∧ l.lexeme.EndsBefore b := by
  induction cs using lexemeInduction generalizing offset with
  | nil => simp [locatedFrom_nil, ScanMode.finish] at h
  | blank c cs hc ih =>
    rw [locatedFrom_blank _ _ hc] at h
    obtain ⟨a, b, rfl, hstart, hl, ha, hb⟩ := ih h
    refine ⟨c :: a, b, rfl, by rw [hstart, List.length_cons]; omega, hl, ⟨?_, ?_⟩, hb⟩
    · rw [List.count_cons_of_ne (Text.ne_of_isBlank hc rfl)]
      exact ha.outside
    · intro hword
      cases a with
      | nil => simpa using isWordChar_of_isBlank hc
      | cons d a =>
        rw [List.getLast?_cons_cons]
        exact ha.apart hword
  | lexeme first rest hfirst hrest ih =>
    rw [locatedFrom_chars offset hfirst hrest, List.mem_cons] at h
    rcases h with rfl | h
    · exact ⟨[], rest, rfl, rfl, hfirst, ⟨Even.zero, by simp⟩, hrest⟩
    · obtain ⟨a, b, rfl, hstart, hl, ha, hb⟩ := ih h
      have hne : a ++ (l.lexeme.chars ++ b) ≠ [] := by simp [Lexeme.chars_ne_nil hl]
      refine ⟨first.chars ++ a, b, by simp, by rw [hstart, List.length_append]; omega, hl,
        ⟨?_, ?_⟩, hb⟩
      · rw [List.count_append]
        exact (Lexeme.even_count_chars hfirst (hrest.ne_unterminated hne)).add ha.outside
      · rintro ⟨spelling, hspelling⟩
        cases a with
        | nil =>
          -- a word character follows the first lexeme, which therefore ends with none
          rw [hspelling] at hl hrest
          obtain ⟨c, w, rfl⟩ := List.exists_cons_of_ne_nil hl.1
          rw [List.append_nil]
          exact hrest.isWordChar_getLast? (hl.2 c List.mem_cons_self)
        | cons d a =>
          rw [List.getLast?_append_of_ne_nil _ (List.cons_ne_nil d a)]
          exact ha.apart ⟨spelling, hspelling⟩

/-- After a character that is in no word, the scanner is inside a string or between lexemes. -/
theorem mode_read_of_delimiter (s : Scanner) {c : Char} (hc : isWordChar c = false) :
    (s.read c).mode = .between ∨ (s.read c).mode.isQuoted := by
  obtain ⟨found, offset, mode⟩ := s
  have hcode (s : Scanner) : (s.readCode c).mode = s.endWord.mode ∨
      (s.readCode c).mode.isQuoted := by
    unfold Scanner.readCode
    split_ifs with hopen hclose hquote hblank
    · exact .inl rfl
    · exact .inl rfl
    · exact .inr rfl
    · exact .inl rfl
    · simp [isWordChar, hopen, hclose, hquote, hblank] at hc
  cases mode with
  | between => exact hcode _
  | word start chars => exact hcode _
  | quoted start chars =>
    by_cases hquote : c = '"'
    · left
      simp [Scanner.read, hquote]
    · right
      simp [Scanner.read, hquote, ScanMode.isQuoted]

theorem modeAfter_concat (offset : Nat) (mode : ScanMode) (a : List Char) (c : Char) :
    modeAfter offset mode (a ++ [c]) =
      ((a.foldl Scanner.read { offset, mode }).read c).mode := by
  simp only [modeAfter, List.foldl_append, List.foldl_cons, List.foldl_nil]

theorem modeAfter_eq_between {a : List Char} (ha : Even (a.count '"'))
    (hlast : ∀ c ∈ a.getLast?, isWordChar c = false) : modeAfter 0 .between a = .between := by
  have hquoted := modeAfter_between_of_even 0 ha
  rcases List.eq_nil_or_concat a with rfl | ⟨a, c, rfl⟩
  · rfl
  rw [List.concat_eq_append] at hlast hquoted ⊢
  have hc : isWordChar c = false := by simpa using hlast
  rw [modeAfter_concat] at hquoted ⊢
  refine (mode_read_of_delimiter _ hc).resolve_right ?_
  simp [hquoted]

/-- **Where lexemes stand.** At an offset stands a lexeme if and only if its characters do,
outside strings, and nothing around them goes on with it. -/
theorem mem_locatedLexemes_iff {cs : List Char} {start : Nat} {l : Lexeme} :
    ⟨start, l⟩ ∈ locatedLexemes cs ↔
      ∃ a b, cs = a ++ (l.chars ++ b) ∧ start = a.length ∧ l.WellFormed ∧ l.StartsAfter a ∧
        l.EndsBefore b := by
  constructor
  · intro h
    obtain ⟨a, b, hcs, hstart, hl⟩ := parts_of_mem h
    exact ⟨a, b, hcs, by simpa using hstart, hl⟩
  · rintro ⟨a, b, rfl, rfl, hl, ha, hb⟩
    have hfound : ⟨a.length, l⟩ ∈ locatedFrom a.length .between (l.chars ++ b) := by
      rw [locatedFrom_chars _ hl hb]
      exact List.mem_cons_self
    rw [locatedLexemes_eq, locatedFrom_append, Nat.zero_add]
    refine List.mem_append_right _ ?_
    by_cases hword : ∃ spelling, l = .word spelling
    · rw [modeAfter_eq_between ha.outside (ha.apart hword)]
      exact hfound
    · -- what comes before ends here, be it a word
      obtain ⟨c, chars, hchars, hc⟩ : ∃ c chars, l.chars = c :: chars ∧ isWordChar c = false := by
        cases l with
        | word spelling => exact absurd ⟨spelling, rfl⟩ hword
        | _ => exact ⟨_, _, rfl, rfl⟩
      rw [hchars, List.cons_append] at hfound ⊢
      rw [locatedFrom_delimiter _ _ (modeAfter_between_of_even 0 ha.outside) hc]
      exact List.mem_append_right _ hfound

/-- The same with the lexemes that come before it. -/
theorem exists_locatedLexemes_eq_iff {cs : List Char} {before : List Located} {l : Located} :
    (∃ after, locatedLexemes cs = before ++ l :: after) ↔
      ∃ a b, cs = a ++ (l.lexeme.chars ++ b) ∧ l.start = a.length ∧ locatedLexemes a = before ∧
        l.lexeme.WellFormed ∧ l.lexeme.StartsAfter a ∧ l.lexeme.EndsBefore b := by
  -- the text before a lexeme is told by its length
  have hunique {a a' b b' : List Char} (hcs : a ++ b = a' ++ b') (hlength : a.length = a'.length) :
      a = a' ∧ b = b' := List.append_inj hcs hlength
  constructor
  · rintro ⟨after, h⟩
    obtain ⟨a, b, hcs, hstart, hbefore⟩ := locatedLexemes_split h
    obtain ⟨a', b', hcs', hstart', hl, hstarts, hends⟩ :=
      mem_locatedLexemes_iff.mp (h ▸ List.mem_append_right before List.mem_cons_self)
    obtain ⟨rfl, hrest⟩ := hunique (hcs.symm.trans hcs') (hstart.symm.trans hstart')
    obtain rfl := List.append_cancel_left hrest
    exact ⟨a, b, hcs, hstart, hbefore, hl, hstarts, hends⟩
  · rintro ⟨a, b, hcs, hstart, rfl, hparts⟩
    obtain ⟨before, after, h⟩ :=
      List.append_of_mem (mem_locatedLexemes_iff.mpr ⟨a, b, hcs, hstart, hparts⟩)
    obtain ⟨a', b', hcs', hstart', rfl⟩ := locatedLexemes_split h
    obtain ⟨rfl, -⟩ := hunique (hcs.symm.trans hcs') (hstart.symm.trans hstart')
    exact ⟨after, h⟩

/-! ## The order of lexemes -/

/-- The offset at which a lexeme has ended. -/
def Located.stop (l : Located) : Nat :=
  l.start + l.lexeme.chars.length

theorem bounds_of_mem {cs : List Char} {offset : Nat} {l : Located}
    (h : l ∈ locatedFrom offset .between cs) :
    offset ≤ l.start ∧ l.start < l.stop ∧ l.stop ≤ offset + cs.length := by
  obtain ⟨a, b, rfl, hstart, hl, -⟩ := parts_of_mem h
  have hpos := List.length_pos_of_ne_nil (Lexeme.chars_ne_nil hl)
  simp only [Located.stop, List.length_append]
  omega

theorem pairwise_locatedFrom (offset : Nat) (cs : List Char) :
    (locatedFrom offset .between cs).Pairwise (fun l m => l.stop ≤ m.start) := by
  induction cs using lexemeInduction generalizing offset with
  | nil => exact .nil
  | blank c cs hc ih =>
    rw [locatedFrom_blank _ _ hc]
    exact ih _
  | lexeme first rest hfirst hrest ih =>
    rw [locatedFrom_chars offset hfirst hrest]
    exact .cons (fun m hm => (bounds_of_mem hm).1) (ih _)

theorem pairwise_locatedLexemes (cs : List Char) :
    (locatedLexemes cs).Pairwise (fun l m => l.stop ≤ m.start) :=
  pairwise_locatedFrom 0 cs

/-- What comes before a text without newlines on its last line. -/
theorem Text.lastLine_append_of_not_mem (a : List Char) {b : List Char}
    (hb : ∀ c ∈ b, isNewline c = false) : lastLine (a ++ b) = lastLine a ++ b := by
  unfold lastLine
  rw [List.reverse_append, List.takeWhile_append_of_pos (by simpa using hb), List.reverse_append,
    List.reverse_reverse]

namespace Editor

/-- A position is before another one: on an earlier line, or on the same line and to the
left. -/
theorem Position.before_iff {p q : Position} :
    p.before q ↔ p.line < q.line ∨ p.line = q.line ∧ p.column < q.column := by
  simp [Position.before]

theorem Position.not_before_iff {p q : Position} :
    (!q.before p) = true ↔ p.line < q.line ∨ p.line = q.line ∧ p.column ≤ q.column := by
  rw [Bool.not_eq_true', ← Bool.not_eq_true, Position.before_iff]
  omega

/-- Going on in a text leads to a later line, or further on along the same line. -/
theorem positionAt_of_le {cs : List Char} {i j : Nat} (h : i ≤ j) (hj : j ≤ cs.length) :
    (positionAt cs i).line < (positionAt cs j).line ∨
      (positionAt cs i).line = (positionAt cs j).line ∧
        (positionAt cs j).column = (positionAt cs i).column + (j - i) := by
  obtain ⟨a, rest, rfl, rfl⟩ : ∃ a rest, cs = a ++ rest ∧ i = a.length :=
    ⟨cs.take i, cs.drop i, (List.take_append_drop i cs).symm, by simp; omega⟩
  obtain ⟨b, c, rfl, rfl⟩ : ∃ b c, rest = b ++ c ∧ j = a.length + b.length := by
    refine ⟨rest.take (j - a.length), rest.drop (j - a.length),
      (List.take_append_drop _ rest).symm, ?_⟩
    rw [List.length_append] at hj
    rw [List.length_take]
    omega
  have hlater := positionAt_length (a ++ b) c
  rw [List.append_assoc, List.length_append] at hlater
  rw [positionAt_length, hlater]
  dsimp only
  by_cases hnewline : ∃ d ∈ b, Text.isNewline d
  · left
    have hpos := List.countP_pos_iff.mpr hnewline
    rw [List.countP_append]
    omega
  · right
    have hb : ∀ d ∈ b, Text.isNewline d = false := by simpa using hnewline
    have hcount : b.countP Text.isNewline = 0 := by simpa [List.countP_eq_zero] using hb
    refine ⟨by rw [List.countP_append, hcount, Nat.add_zero], ?_⟩
    rw [Text.lastLine_append_of_not_mem a hb, List.length_append, Nat.add_sub_cancel_left]

/-- **Later offsets have later positions.** -/
theorem positionAt_before {cs : List Char} {i j : Nat} (h : i < j) (hj : j ≤ cs.length) :
    (positionAt cs i).before (positionAt cs j) := by
  rw [Position.before_iff]
  have hle := positionAt_of_le h.le hj
  omega

end Editor

end SmallScheme

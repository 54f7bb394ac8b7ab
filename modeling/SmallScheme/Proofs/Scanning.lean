import Mathlib.Algebra.Ring.Parity
import SmallScheme.Token.Basic

/-!
# Scanning, piece by piece

The scanner is a fold, so it can be stopped anywhere and picked up again:
`locatedFrom offset mode cs` is what it finds in `cs` when it starts there in some
mode, and has one equation for each kind of character. From these:

* **`lexemes_append_of_delimiter`** — outside strings a text may be cut before any
  delimiter: the lexemes of both parts together are those of the whole;
* **`isQuoted_modeAfter`** — the scanner is inside a string after an odd number of
  double quotes, and only then;
* **`tokenize_eq_mapM`** — tokens are the meanings of lexemes, one by one.
-/

namespace SmallScheme

/-! ## The scanner from any point on -/

/-- The characters that words consist of. -/
def isWordChar (c : Char) : Bool :=
  c != '(' && c != ')' && c != '"' && !Text.isBlank c

namespace ScanMode

/-- Inside a string. -/
def isQuoted : ScanMode → Bool
  | .quoted _ _ => true
  | _ => false

/-- What a word character makes of the mode outside strings. -/
def extend (offset : Nat) (c : Char) : ScanMode → ScanMode
  | .word start chars => .word start (c :: chars)
  | _ => .word offset [c]

/-- What the end of the text makes of what the scanner is in the middle of. -/
def finish : ScanMode → List Located
  | .between => []
  | .word start chars => [⟨start, .word chars.reverse⟩]
  | .quoted start chars => [⟨start, .unterminated chars.reverse⟩]

end ScanMode

/-- What the scanner finds in a text when it starts at an offset in some mode. -/
def locatedFrom (offset : Nat) (mode : ScanMode) (cs : List Char) : List Located :=
  (cs.foldl Scanner.read { offset, mode }).finish

/-- The mode in which the scanner leaves a text. -/
def modeAfter (offset : Nat) (mode : ScanMode) (cs : List Char) : ScanMode :=
  (cs.foldl Scanner.read { offset, mode }).mode

/-- What the scanner finds in a text before it ends. -/
def foundIn (offset : Nat) (mode : ScanMode) (cs : List Char) : List Located :=
  (cs.foldl Scanner.read { offset, mode }).found.toList

theorem locatedLexemes_eq (cs : List Char) : locatedLexemes cs = locatedFrom 0 .between cs := rfl

namespace Scanner

theorem finish_eq (s : Scanner) : s.finish = s.found.toList ++ s.mode.finish := by
  unfold finish endWord
  cases s.mode <;> simp [emit, ScanMode.finish]

/-- What has been found takes no part in reading on. -/
theorem read_eq (s : Scanner) (c : Char) :
    s.read c =
      { found := s.found ++ (read { offset := s.offset, mode := s.mode } c).found
        offset := s.offset + 1
        mode := (read { offset := s.offset, mode := s.mode } c).mode } := by
  obtain ⟨found, offset, mode⟩ := s
  cases mode with
  | between =>
    simp only [read, readCode, endWord, emit]
    split_ifs <;> simp
  | word start chars =>
    simp only [read, readCode, endWord, emit]
    split_ifs <;> simp [← Array.toList_inj]
  | quoted start chars =>
    simp only [read, emit]
    split_ifs <;> simp

theorem offset_read (s : Scanner) (c : Char) : (s.read c).offset = s.offset + 1 := rfl

theorem foldl_read_eq (cs : List Char) (s : Scanner) :
    cs.foldl read s =
      { found := s.found ++ (cs.foldl read { offset := s.offset, mode := s.mode }).found
        offset := s.offset + cs.length
        mode := modeAfter s.offset s.mode cs } := by
  induction cs generalizing s with
  | nil => simp [modeAfter]
  | cons c cs ih =>
    -- both sides read `c` first, but from scanners that have found different lexemes
    have hmode : modeAfter s.offset s.mode (c :: cs) =
        modeAfter (s.offset + 1) (read { offset := s.offset, mode := s.mode } c).mode cs := by
      unfold modeAfter
      rw [List.foldl_cons, ih]
      rfl
    rw [List.foldl_cons, List.foldl_cons, ih, ih (read { offset := s.offset, mode := s.mode } c),
      hmode, read_eq]
    simp [Nat.add_assoc, Nat.add_comm 1, offset_read]

end Scanner

theorem locatedFrom_eq (offset : Nat) (mode : ScanMode) (cs : List Char) :
    locatedFrom offset mode cs = foundIn offset mode cs ++ (modeAfter offset mode cs).finish :=
  Scanner.finish_eq _

/-- Scanning a text in two parts. -/
theorem locatedFrom_append (offset : Nat) (mode : ScanMode) (a b : List Char) :
    locatedFrom offset mode (a ++ b) =
      foundIn offset mode a ++
        locatedFrom (offset + a.length) (modeAfter offset mode a) b := by
  unfold locatedFrom
  rw [List.foldl_append, Scanner.foldl_read_eq a, Scanner.foldl_read_eq b, Scanner.finish_eq,
    Scanner.finish_eq]
  simp [foundIn, modeAfter]

/-! ## One equation for each kind of character -/

section Equations

variable (offset start : Nat) {mode : ScanMode} (chars : List Char) {c : Char} (cs : List Char)

theorem locatedFrom_nil : locatedFrom offset mode [] = mode.finish := by
  rw [locatedFrom_eq]
  rfl

/-- A delimiter ends what comes before it. -/
theorem locatedFrom_delimiter (hmode : mode.isQuoted = false) (hc : isWordChar c = false) :
    locatedFrom offset mode (c :: cs) =
      mode.finish ++ locatedFrom offset .between (c :: cs) := by
  cases mode with
  | between => rfl
  | word start chars =>
    rw [← List.singleton_append, locatedFrom_append, locatedFrom_append]
    simp only [foundIn, modeAfter, ScanMode.finish, List.foldl_cons, List.foldl_nil,
      Scanner.read, Scanner.readCode, Scanner.endWord, Scanner.emit]
    split_ifs with hopen hclose hquote hblank
    -- the last case is that of a word character
    · simp
    · simp
    · simp
    · simp
    · simp [isWordChar, hopen, hclose, hquote, hblank] at hc
  | quoted start chars => cases hmode

theorem locatedFrom_opening :
    locatedFrom offset .between ('(' :: cs) =
      ⟨offset, .opening⟩ :: locatedFrom (offset + 1) .between cs :=
  locatedFrom_append offset .between ['('] cs

theorem locatedFrom_closing :
    locatedFrom offset .between (')' :: cs) =
      ⟨offset, .closing⟩ :: locatedFrom (offset + 1) .between cs :=
  locatedFrom_append offset .between [')'] cs

theorem locatedFrom_quote :
    locatedFrom offset .between ('"' :: cs) = locatedFrom (offset + 1) (.quoted offset []) cs :=
  locatedFrom_append offset .between ['"'] cs

theorem isWordChar_of_isBlank (hc : Text.isBlank c) : isWordChar c = false := by
  simp [isWordChar, hc]

theorem locatedFrom_blank (hc : Text.isBlank c) :
    locatedFrom offset .between (c :: cs) = locatedFrom (offset + 1) .between cs := by
  have hopen : c ≠ '(' := by rintro rfl; exact absurd hc (by decide)
  have hclose : c ≠ ')' := by rintro rfl; exact absurd hc (by decide)
  have hquote : c ≠ '"' := by rintro rfl; exact absurd hc (by decide)
  have hread : Scanner.read { offset, mode := .between } c =
      { offset := offset + 1, mode := .between } := by
    simp [Scanner.read, Scanner.readCode, Scanner.endWord, hopen, hclose, hquote, hc]
  unfold locatedFrom
  rw [List.foldl_cons, hread]

theorem readCode_of_isWordChar {s : Scanner} (hc : isWordChar c) :
    s.readCode c = { s with mode := s.mode.extend s.offset c } := by
  simp only [isWordChar, Bool.and_eq_true, bne_iff_ne, Bool.not_eq_true', ne_eq] at hc
  obtain ⟨⟨⟨hopen, hclose⟩, hquote⟩, hblank⟩ := hc
  rw [Scanner.readCode, if_neg hopen, if_neg hclose, if_neg hquote, if_neg (by simp [hblank])]
  cases s.mode <;> rfl

theorem locatedFrom_between_word (hc : isWordChar c) :
    locatedFrom offset .between (c :: cs) = locatedFrom (offset + 1) (.word offset [c]) cs := by
  unfold locatedFrom
  rw [List.foldl_cons, Scanner.read]
  simp only [readCode_of_isWordChar hc, ScanMode.extend]

theorem locatedFrom_word (hc : isWordChar c) :
    locatedFrom offset (.word start chars) (c :: cs) =
      locatedFrom (offset + 1) (.word start (c :: chars)) cs := by
  unfold locatedFrom
  rw [List.foldl_cons, Scanner.read]
  simp only [readCode_of_isWordChar hc, ScanMode.extend]

theorem locatedFrom_quoted_quote :
    locatedFrom offset (.quoted start chars) ('"' :: cs) =
      ⟨start, .quoted chars.reverse⟩ :: locatedFrom (offset + 1) .between cs :=
  locatedFrom_append offset (.quoted start chars) ['"'] cs

theorem locatedFrom_quoted (hc : c ≠ '"') :
    locatedFrom offset (.quoted start chars) (c :: cs) =
      locatedFrom (offset + 1) (.quoted start (c :: chars)) cs := by
  unfold locatedFrom
  rw [List.foldl_cons, Scanner.read]
  simp only [if_neg hc]

end Equations

/-! ## Quotes -/

/-- Each double quote turns the scanner into a string or out of one. -/
theorem isQuoted_read (s : Scanner) (c : Char) :
    (s.read c).mode.isQuoted = (s.mode.isQuoted ^^ (c == '"')) := by
  obtain ⟨found, offset, mode⟩ := s
  by_cases hquote : c = '"'
  · subst hquote
    cases mode <;> rfl
  · cases mode with
    | between =>
      simp only [Scanner.read, Scanner.readCode, Scanner.endWord, Scanner.emit]
      split_ifs <;> simp [ScanMode.isQuoted, hquote]
    | word start chars =>
      simp only [Scanner.read, Scanner.readCode, Scanner.endWord, Scanner.emit]
      split_ifs <;> simp [ScanMode.isQuoted, hquote]
    | quoted start chars => simp [Scanner.read, ScanMode.isQuoted, hquote]

theorem isQuoted_foldl_read (cs : List Char) (s : Scanner) :
    (cs.foldl Scanner.read s).mode.isQuoted =
      (s.mode.isQuoted ^^ decide (Odd (cs.count '"'))) := by
  induction cs generalizing s with
  | nil => simp
  | cons c cs ih =>
    rw [List.foldl_cons, ih, isQuoted_read, Bool.xor_assoc]
    congr 1
    by_cases hquote : c = '"'
    · rw [hquote, List.count_cons_self]
      simp only [beq_self_eq_true, Bool.true_xor, Nat.odd_add_one, decide_not]
    · rw [List.count_cons_of_ne hquote, beq_false_of_ne hquote, Bool.false_xor]

theorem isQuoted_modeAfter (offset : Nat) (mode : ScanMode) (cs : List Char) :
    (modeAfter offset mode cs).isQuoted = (mode.isQuoted ^^ decide (Odd (cs.count '"'))) :=
  isQuoted_foldl_read cs _

theorem modeAfter_between_of_even (offset : Nat) {cs : List Char} (h : Even (cs.count '"')) :
    (modeAfter offset .between cs).isQuoted = false := by
  rw [isQuoted_modeAfter]
  simpa [ScanMode.isQuoted] using h

/-! ## Where the text starts does not matter -/

/-- The same lexeme further on in the text. -/
def Located.later (k : Nat) (l : Located) : Located :=
  { l with start := l.start + k }

/-- The same mode further on in the text. -/
def ScanMode.later (k : Nat) : ScanMode → ScanMode
  | .between => .between
  | .word start chars => .word (start + k) chars
  | .quoted start chars => .quoted (start + k) chars

/-- The same scanner further on in the text. -/
def Scanner.later (k : Nat) (s : Scanner) : Scanner :=
  { found := s.found.map (·.later k), offset := s.offset + k, mode := s.mode.later k }

theorem read_later (k : Nat) (s : Scanner) (c : Char) :
    (s.later k).read c = (s.read c).later k := by
  obtain ⟨found, offset, mode⟩ := s
  have hoffset : offset + k + 1 = offset + 1 + k := by omega
  cases mode with
  | between =>
    simp only [Scanner.read, Scanner.readCode, Scanner.endWord, Scanner.emit, Scanner.later,
      ScanMode.later]
    split_ifs <;> simp [Located.later, hoffset]
  | word start chars =>
    simp only [Scanner.read, Scanner.readCode, Scanner.endWord, Scanner.emit, Scanner.later,
      ScanMode.later]
    split_ifs <;> simp [Located.later, hoffset]
  | quoted start chars =>
    simp only [Scanner.read, Scanner.emit, Scanner.later, ScanMode.later]
    split_ifs <;> simp [Located.later, hoffset]

theorem foldl_read_later (k : Nat) (cs : List Char) (s : Scanner) :
    cs.foldl Scanner.read (s.later k) = (cs.foldl Scanner.read s).later k := by
  induction cs generalizing s with
  | nil => rfl
  | cons c cs ih => rw [List.foldl_cons, List.foldl_cons, read_later, ih]

theorem finish_later (k : Nat) (s : Scanner) :
    (s.later k).finish = s.finish.map (·.later k) := by
  rw [Scanner.finish_eq, Scanner.finish_eq, List.map_append]
  obtain ⟨found, offset, mode⟩ := s
  cases mode <;> simp [Scanner.later, ScanMode.later, ScanMode.finish, Located.later]

theorem locatedFrom_later (k offset : Nat) (mode : ScanMode) (cs : List Char) :
    locatedFrom (offset + k) (mode.later k) cs = (locatedFrom offset mode cs).map (·.later k) := by
  have hlater : Scanner.later k { offset, mode } =
      { offset := offset + k, mode := mode.later k } := by
    simp [Scanner.later]
  unfold locatedFrom
  rw [← finish_later, ← foldl_read_later, hlater]

/-- The lexemes of a text are the same wherever it stands. -/
theorem map_lexeme_locatedFrom (offset : Nat) (cs : List Char) :
    (locatedFrom offset .between cs).map (·.lexeme) = lexemes cs := by
  -- `.between` holds no offset, so moving it changes nothing
  have hlater := locatedFrom_later offset 0 .between cs
  rw [Nat.zero_add] at hlater
  change (locatedFrom offset (ScanMode.later offset .between) cs).map _ = _
  rw [hlater, List.map_map]
  rfl

/-! ## Cutting a text -/

theorem lexemes_append_of_delimiter {a b : List Char} {c : Char} (ha : Even (a.count '"'))
    (hc : isWordChar c = false) : lexemes (a ++ c :: b) = lexemes a ++ lexemes (c :: b) := by
  have hmode := modeAfter_between_of_even 0 ha
  calc lexemes (a ++ c :: b)
      = (foundIn 0 .between a ++ (modeAfter 0 .between a).finish ++
          locatedFrom (0 + a.length) .between (c :: b)).map (·.lexeme) := by
        rw [lexemes, locatedLexemes_eq, locatedFrom_append,
          locatedFrom_delimiter _ _ hmode hc, List.append_assoc]
    _ = lexemes a ++ lexemes (c :: b) := by
        rw [← locatedFrom_eq, List.map_append, map_lexeme_locatedFrom, map_lexeme_locatedFrom]

theorem lexemes_cons_blank {b : List Char} {c : Char} (hc : Text.isBlank c) :
    lexemes (c :: b) = lexemes b := by
  rw [lexemes, locatedLexemes_eq, locatedFrom_blank _ _ hc, map_lexeme_locatedFrom]

theorem lexemes_cons_opening (b : List Char) : lexemes ('(' :: b) = .opening :: lexemes b := by
  rw [lexemes, locatedLexemes_eq, locatedFrom_opening, List.map_cons, map_lexeme_locatedFrom]

theorem lexemes_cons_closing (b : List Char) : lexemes (')' :: b) = .closing :: lexemes b := by
  rw [lexemes, locatedLexemes_eq, locatedFrom_closing, List.map_cons, map_lexeme_locatedFrom]

/-- Outside strings a blank separates. -/
theorem lexemes_append_blank {a : List Char} (b : List Char) {c : Char}
    (ha : Even (a.count '"')) (hc : Text.isBlank c) :
    lexemes (a ++ c :: b) = lexemes a ++ lexemes b := by
  rw [lexemes_append_of_delimiter ha (isWordChar_of_isBlank hc), lexemes_cons_blank hc]

/-- Texts with a blank between any two scan one by one. -/
theorem lexemes_intercalate {separator : String} {c : Char} (hseparator : separator.toList = [c])
    (hc : Text.isBlank c) {texts : List String} (h : ∀ t ∈ texts, Even (t.toList.count '"')) :
    lexemes (separator.intercalate texts).toList = texts.flatMap (lexemes ·.toList) := by
  induction texts with
  | nil => rfl
  | cons text texts ih =>
    obtain ⟨htext, htexts⟩ := List.forall_mem_cons.mp h
    by_cases hne : texts = []
    · subst hne
      simp [String.intercalate_singleton]
    · rw [String.intercalate_cons_of_ne_nil hne, String.toList_append, String.toList_append,
        hseparator, List.append_assoc, List.singleton_append, lexemes_append_blank _ htext hc,
        ih htexts, List.flatMap_cons]

theorem even_count_intercalate {separator : String} {c : Char}
    (hseparator : separator.toList = [c]) (hc : Text.isBlank c) {texts : List String}
    (h : ∀ t ∈ texts, Even (t.toList.count '"')) :
    Even ((separator.intercalate texts).toList.count '"') := by
  have hquote : c ≠ '"' := by rintro rfl; exact absurd hc (by decide)
  induction texts with
  | nil => exact Even.zero
  | cons text texts ih =>
    obtain ⟨htext, htexts⟩ := List.forall_mem_cons.mp h
    by_cases hne : texts = []
    · subst hne
      simpa [String.intercalate_singleton] using htext
    · rw [String.intercalate_cons_of_ne_nil hne, String.toList_append, String.toList_append,
        hseparator, List.count_append, List.count_append, List.count_singleton,
        beq_false_of_ne hquote, if_neg Bool.false_ne_true, Nat.add_zero]
      exact htext.add (ih htexts)

/-! ## Single lexemes -/

theorem locatedFrom_word_run (offset start : Nat) (chars : List Char) {cs : List Char}
    (hcs : ∀ c ∈ cs, isWordChar c) :
    locatedFrom offset (.word start chars) cs = [⟨start, .word (chars.reverse ++ cs)⟩] := by
  induction cs generalizing offset chars with
  | nil => simp [locatedFrom_nil, ScanMode.finish]
  | cons c cs ih =>
    rw [locatedFrom_word _ _ _ _ (hcs c List.mem_cons_self),
      ih _ _ (fun d hd => hcs d (List.mem_cons_of_mem c hd))]
    simp

/-- A run of word characters is one word. -/
theorem lexemes_word {cs : List Char} (hne : cs ≠ []) (hcs : ∀ c ∈ cs, isWordChar c) :
    lexemes cs = [.word cs] := by
  obtain ⟨c, cs, rfl⟩ := List.exists_cons_of_ne_nil hne
  rw [lexemes, locatedLexemes_eq, locatedFrom_between_word _ _ (hcs c List.mem_cons_self),
    locatedFrom_word_run _ _ _ (fun d hd => hcs d (List.mem_cons_of_mem c hd))]
  rfl

/-- Inside a string everything but a double quote is content. -/
theorem locatedFrom_quoted_run (offset start : Nat) (chars : List Char) {cs : List Char}
    (hcs : '"' ∉ cs) (rest : List Char) :
    locatedFrom offset (.quoted start chars) (cs ++ rest) =
      locatedFrom (offset + cs.length) (.quoted start (cs.reverse ++ chars)) rest := by
  induction cs generalizing offset chars with
  | nil => rfl
  | cons c cs ih =>
    rw [List.mem_cons, not_or] at hcs
    rw [List.cons_append, locatedFrom_quoted _ _ _ _ (Ne.symm hcs.1), ih _ _ hcs.2]
    simp [Nat.add_assoc, Nat.add_comm 1]

/-- A text without double quotes, between two of them, is one string, whatever comes
after it. -/
theorem lexemes_cons_quoted {cs : List Char} (hcs : '"' ∉ cs) (rest : List Char) :
    lexemes ('"' :: (cs ++ '"' :: rest)) = .quoted cs :: lexemes rest := by
  rw [lexemes, locatedLexemes_eq, locatedFrom_quote, locatedFrom_quoted_run _ _ _ hcs,
    locatedFrom_quoted_quote, List.map_cons, map_lexeme_locatedFrom]
  simp

theorem lexemes_quoted {cs : List Char} (hcs : '"' ∉ cs) :
    lexemes ('"' :: (cs ++ ['"'])) = [.quoted cs] :=
  lexemes_cons_quoted hcs []

/-- Without a second double quote the string never ends. -/
theorem lexemes_unterminated {cs : List Char} (hcs : '"' ∉ cs) :
    lexemes ('"' :: cs) = [.unterminated cs] := by
  have hrun := locatedFrom_quoted_run 1 0 [] hcs []
  rw [List.append_nil, List.append_nil, locatedFrom_nil] at hrun
  rw [lexemes, locatedLexemes_eq, locatedFrom_quote, hrun]
  simp [ScanMode.finish]

/-! ## What lexemes hold -/

/-- Strings hold no double quote; words hold word characters, and at least one. -/
def Lexeme.WellFormed : Lexeme → Prop
  | .opening | .closing => True
  | .quoted content | .unterminated content => '"' ∉ content
  | .word spelling => spelling ≠ [] ∧ ∀ c ∈ spelling, isWordChar c

/-- The same of what the scanner is in the middle of. -/
def ScanMode.WellFormed : ScanMode → Prop
  | .between => True
  | .word _ chars => chars ≠ [] ∧ ∀ c ∈ chars, isWordChar c
  | .quoted _ chars => '"' ∉ chars

/-- The same of all that a scanner holds. -/
structure Scanner.WellFormed (s : Scanner) : Prop where
  found : ∀ l ∈ s.found, l.lexeme.WellFormed
  mode : s.mode.WellFormed

namespace Scanner.WellFormed

theorem emit {s : Scanner} (hs : s.WellFormed) {l : Lexeme} (hl : l.WellFormed) (start : Nat) :
    (s.emit start l).WellFormed := by
  refine ⟨?_, hs.mode⟩
  intro m hm
  rcases Array.mem_push.mp hm with hm | rfl
  · exact hs.found m hm
  · exact hl

theorem endWord {s : Scanner} (hs : s.WellFormed) : s.endWord.WellFormed := by
  have hmode := hs.mode
  unfold Scanner.endWord
  split
  · next start chars heq =>
    rw [heq] at hmode
    have hword : (Lexeme.word chars.reverse).WellFormed := by
      simpa [Lexeme.WellFormed, ScanMode.WellFormed] using hmode
    exact ⟨(hs.emit hword start).found, trivial⟩
  · exact hs

theorem readCode {s : Scanner} (hs : s.WellFormed) (c : Char) : (s.readCode c).WellFormed := by
  by_cases hword : isWordChar c
  · rw [readCode_of_isWordChar hword]
    refine ⟨hs.found, ?_⟩
    have hmode := hs.mode
    cases heq : s.mode with
    | word start chars =>
      rw [heq] at hmode
      exact ⟨by simp, List.forall_mem_cons.mpr ⟨hword, hmode.2⟩⟩
    | between => exact ⟨by simp, by simpa using hword⟩
    | quoted start chars => exact ⟨by simp, by simpa using hword⟩
  · unfold Scanner.readCode
    split_ifs with hopen hclose hquote hblank
    · exact emit (l := .opening) hs.endWord trivial _
    · exact emit (l := .closing) hs.endWord trivial _
    · exact ⟨hs.endWord.found, by simp [ScanMode.WellFormed]⟩
    · exact hs.endWord
    · simp [isWordChar, hopen, hclose, hquote, hblank] at hword

theorem read {s : Scanner} (hs : s.WellFormed) (c : Char) : (s.read c).WellFormed := by
  have hmode := hs.mode
  cases heq : s.mode with
  | quoted start chars =>
    rw [heq] at hmode
    simp only [Scanner.read, heq]
    split_ifs with hquote
    · have hl : (Lexeme.quoted chars.reverse).WellFormed := by
        simpa [Lexeme.WellFormed, ScanMode.WellFormed] using hmode
      exact ⟨(hs.emit hl start).found, trivial⟩
    · refine ⟨hs.found, ?_⟩
      simpa [ScanMode.WellFormed, Ne.symm hquote] using hmode
  | between =>
    simp only [Scanner.read, heq]
    exact ⟨(hs.readCode c).found, (hs.readCode c).mode⟩
  | word start chars =>
    simp only [Scanner.read, heq]
    exact ⟨(hs.readCode c).found, (hs.readCode c).mode⟩

theorem foldl_read {s : Scanner} (hs : s.WellFormed) (cs : List Char) :
    (cs.foldl Scanner.read s).WellFormed := by
  induction cs generalizing s with
  | nil => exact hs
  | cons c cs ih => exact ih (hs.read c)

theorem finish {s : Scanner} (hs : s.WellFormed) : ∀ l ∈ s.finish, l.lexeme.WellFormed := by
  have hmode := hs.mode
  intro l hl
  rw [Scanner.finish_eq] at hl
  rcases List.mem_append.mp hl with hl | hl
  · exact hs.found l (Array.mem_toList_iff.mp hl)
  · cases heq : s.mode with
    | between => simp [heq, ScanMode.finish] at hl
    | word start chars =>
      simp only [heq, ScanMode.finish, List.mem_singleton] at hl
      rw [hl]
      simpa [heq, Lexeme.WellFormed, ScanMode.WellFormed] using hmode
    | quoted start chars =>
      simp only [heq, ScanMode.finish, List.mem_singleton] at hl
      rw [hl]
      simpa [heq, Lexeme.WellFormed, ScanMode.WellFormed] using hmode

end Scanner.WellFormed

theorem wellFormed_of_mem_lexemes {text : List Char} {l : Lexeme} (hl : l ∈ lexemes text) :
    l.WellFormed := by
  obtain ⟨m, hm, rfl⟩ := List.mem_map.mp hl
  have hstart : Scanner.WellFormed {} := ⟨by simp, trivial⟩
  exact (hstart.foldl_read text).finish m hm

/-! ## Tokens -/

theorem mapM_ofLexeme (ls : List Lexeme) :
    ls.mapM Token.ofLexeme =
      (tokensUntilFault ls).2.elim (.ok (tokensUntilFault ls).1) .error := by
  induction ls with
  | nil => rfl
  | cons l ls ih =>
    rw [List.mapM_cons, ih, tokensUntilFault]
    cases Token.ofLexeme l with
    | error fault => rfl
    | ok t => rcases tokensUntilFault ls with ⟨ts, _ | fault⟩ <;> rfl

theorem tokenize_eq_mapM (text : String) :
    tokenize text = (lexemes text.toList).mapM Token.ofLexeme := by
  unfold tokenize lex
  rw [mapM_ofLexeme]
  rcases tokensUntilFault (lexemes text.toList) with ⟨ts, _ | fault⟩ <;> rfl

theorem exists_of_isOk {ε α : Type} {x : Except ε α} (h : x.isOk) : ∃ a, x = .ok a := by
  cases x with
  | error e => cases h
  | ok a => exact ⟨a, rfl⟩

theorem bind_eq_ok_iff {ε α β : Type} {x : Except ε α} {f : α → Except ε β} {b : β} :
    x >>= f = .ok b ↔ ∃ a, x = .ok a ∧ f a = .ok b := by
  cases x with
  | error e => simp [bind, Except.bind]
  | ok a => simp [bind, Except.bind]

theorem mapError_eq_ok_iff {ε ε' α : Type} {x : Except ε α} {f : ε → ε'} {a : α} :
    x.mapError f = .ok a ↔ x = .ok a := by
  cases x <;> simp [Except.mapError]

theorem mapM_cons_eq_ok_iff {ε α β : Type} {f : α → Except ε β} {a : α} {as : List α}
    {bs : List β} :
    (a :: as).mapM f = .ok bs ↔
      ∃ b bs', f a = .ok b ∧ as.mapM f = .ok bs' ∧ bs = b :: bs' := by
  rw [List.mapM_cons]
  simp only [bind_eq_ok_iff, pure, Except.pure, Except.ok.injEq]
  constructor
  · rintro ⟨b, hb, bs', hbs', rfl⟩
    exact ⟨b, bs', hb, hbs', rfl⟩
  · rintro ⟨b, bs', hb, hbs', rfl⟩
    exact ⟨b, hb, bs', hbs', rfl⟩

theorem mapM_eq_ok_iff {ε α β : Type} {f : α → Except ε β} {as : List α} {bs : List β} :
    as.mapM f = .ok bs ↔ as.map f = bs.map .ok := by
  induction as generalizing bs with
  | nil => cases bs <;> simp [pure, Except.pure]
  | cons a as ih =>
    rw [mapM_cons_eq_ok_iff, List.map_cons]
    constructor
    · rintro ⟨b, bs', hb, hbs', rfl⟩
      rw [hb, ih.mp hbs', List.map_cons]
    · intro h
      obtain ⟨b, bs', rfl, hb, hbs'⟩ := List.map_eq_cons_iff.mp h.symm
      exact ⟨b, bs', hb.symm, ih.mpr hbs'.symm, rfl⟩

theorem mapM_append_eq_ok_iff {ε α β : Type} {f : α → Except ε β} {as as' : List α}
    {bs : List β} :
    (as ++ as').mapM f = .ok bs ↔
      ∃ xs ys, bs = xs ++ ys ∧ as.mapM f = .ok xs ∧ as'.mapM f = .ok ys := by
  simp only [mapM_eq_ok_iff, List.map_append]
  constructor
  · intro h
    obtain ⟨xs, ys, rfl, hxs, hys⟩ := List.map_eq_append_iff.mp h.symm
    exact ⟨xs, ys, rfl, hxs.symm, hys.symm⟩
  · rintro ⟨xs, ys, rfl, hxs, hys⟩
    rw [hxs, hys, List.map_append]

/-- The first element that fails decides. -/
theorem mapM_eq_error_iff {ε α β : Type} {f : α → Except ε β} {as : List α} {e : ε} :
    as.mapM f = .error e ↔
      ∃ before a after, as = before ++ a :: after ∧ (∀ x ∈ before, (f x).isOk) ∧
        f a = .error e := by
  induction as with
  | nil => simp [pure, Except.pure]
  | cons a as ih =>
    rw [List.mapM_cons]
    cases ha : f a with
    | error e' =>
      constructor
      · rintro ⟨⟩
        exact ⟨[], a, as, rfl, by simp, ha⟩
      · rintro ⟨_ | ⟨x, before⟩, a', after, heq, hbefore, ha'⟩
        · cases heq
          rw [ha] at ha'
          cases ha'
          rfl
        · cases heq
          simp [ha, Except.isOk, Except.toBool] at hbefore
    | ok b =>
      have hrest : (do let b ← Except.ok b; let bs ← as.mapM f; pure (b :: bs)) = .error e ↔
          as.mapM f = .error e := by
        cases as.mapM f <;> simp [bind, Except.bind, pure, Except.pure]
      rw [hrest, ih]
      constructor
      · rintro ⟨before, a', after, rfl, hbefore, ha'⟩
        exact ⟨a :: before, a', after, rfl,
          List.forall_mem_cons.mpr ⟨by rw [ha]; rfl, hbefore⟩, ha'⟩
      · rintro ⟨_ | ⟨x, before⟩, a', after, heq, hbefore, ha'⟩
        · cases heq
          rw [ha] at ha'
          cases ha'
        · cases heq
          exact ⟨before, a', after, rfl, (List.forall_mem_cons.mp hbefore).2, ha'⟩

theorem tokenize_eq_ok_iff {text : String} {tokens : List Token} :
    tokenize text = .ok tokens ↔
      (lexemes text.toList).map Token.ofLexeme = tokens.map .ok := by
  rw [tokenize_eq_mapM, mapM_eq_ok_iff]

/-- A text with an odd number of double quotes has no tokens. -/
theorem even_count_of_tokenize {text : String} {tokens : List Token}
    (h : tokenize text = .ok tokens) : Even (text.toList.count '"') := by
  by_contra hodd
  have hquoted : (modeAfter 0 .between text.toList).isQuoted = true := by
    rw [isQuoted_modeAfter]
    simpa [ScanMode.isQuoted] using hodd
  cases hmode : modeAfter 0 .between text.toList with
  | between => simp [hmode, ScanMode.isQuoted] at hquoted
  | word start chars => simp [hmode, ScanMode.isQuoted] at hquoted
  | quoted start chars =>
    -- the string that is still open at the end is a lexeme without a token
    have hmem : Lexeme.unterminated chars.reverse ∈ lexemes text.toList := by
      rw [lexemes, locatedLexemes_eq, locatedFrom_eq, hmode]
      simp [ScanMode.finish]
    have hfail := List.mem_map_of_mem (f := Token.ofLexeme) hmem
    rw [tokenize_eq_ok_iff.mp h] at hfail
    simp [Token.ofLexeme] at hfail

end SmallScheme

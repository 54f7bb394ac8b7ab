import Mathlib.Data.List.Induction
import Mathlib.Data.List.TakeWhile
import SmallScheme.Editor.Position
import SmallScheme.Proofs.Scanning

/-!
# Where lexemes stand

A text is its lexemes with blanks between them. `lexemeInduction` takes a text apart
that way, and `locatedFrom_chars` says what the scanner makes of each part, so the
offsets of lexemes can be told:

* **`locatedLexemes_split`** — at the offset of a lexeme stand its characters, and the
  text before them has the lexemes found before it;
* **`exists_line_at`** — a text without line ends that stands at some offset stands at
  the position of that offset: on that line, from that column on.
-/

namespace SmallScheme

/-! ## The characters of lexemes -/

namespace Lexeme

/-- The characters that a lexeme consists of. -/
def chars : Lexeme → List Char
  | .opening => ['(']
  | .closing => [')']
  | .quoted content => '"' :: (content ++ ['"'])
  | .unterminated content => '"' :: content
  | .word spelling => spelling

/-- The lexeme ends where `rest` starts: a word is not continued by it, and nothing follows
a string without an end. -/
def EndsBefore : Lexeme → List Char → Prop
  | .word _, rest => ∀ c ∈ rest.head?, isWordChar c = false
  | .unterminated _, rest => rest = []
  | _, _ => True

/-- What a lexeme ends before it also ends before a first part of. -/
theorem EndsBefore.of_append {l : Lexeme} {a b : List Char} (h : l.EndsBefore (a ++ b)) :
    l.EndsBefore a := by
  cases l with
  | word spelling =>
    cases a with
    | nil => simp [EndsBefore]
    | cons c a => simpa [EndsBefore] using h
  | unterminated content => exact (List.append_eq_nil_iff.mp h).1
  | _ => trivial

end Lexeme

/-- The rest of a word. -/
theorem locatedFrom_word_append (offset start : Nat) (chars : List Char) {cs : List Char}
    (hcs : ∀ c ∈ cs, isWordChar c) (rest : List Char) :
    locatedFrom offset (.word start chars) (cs ++ rest) =
      locatedFrom (offset + cs.length) (.word start (cs.reverse ++ chars)) rest := by
  induction cs generalizing offset chars with
  | nil => rfl
  | cons c cs ih =>
    obtain ⟨hc, hcs⟩ := List.forall_mem_cons.mp hcs
    rw [List.cons_append, locatedFrom_word _ _ _ _ hc, ih _ _ hcs]
    simp [Nat.add_assoc, Nat.add_comm 1]

/-- A word ends at the end of the text and before any character that is not its own. -/
theorem locatedFrom_word_end (offset start : Nat) (chars : List Char) {rest : List Char}
    (hrest : ∀ c ∈ rest.head?, isWordChar c = false) :
    locatedFrom offset (.word start chars) rest =
      ⟨start, .word chars.reverse⟩ :: locatedFrom offset .between rest := by
  cases rest with
  | nil => rw [locatedFrom_nil, locatedFrom_nil]; rfl
  | cons c rest =>
    have hc : isWordChar c = false := hrest c rfl
    rw [locatedFrom_delimiter _ _ rfl hc]
    rfl

/-- The scanner finds a lexeme where its characters stand, and goes on after them. -/
theorem locatedFrom_chars (offset : Nat) {l : Lexeme} (hl : l.WellFormed) {rest : List Char}
    (hrest : l.EndsBefore rest) :
    locatedFrom offset .between (l.chars ++ rest) =
      ⟨offset, l⟩ :: locatedFrom (offset + l.chars.length) .between rest := by
  cases l with
  | opening => exact locatedFrom_opening offset rest
  | closing => exact locatedFrom_closing offset rest
  | quoted content =>
    show locatedFrom offset .between ('"' :: (content ++ ['"'] ++ rest)) = _
    have hlength : offset + 1 + content.length + 1 =
        offset + (Lexeme.quoted content).chars.length := by
      simp only [Lexeme.chars, List.length_cons, List.length_append, List.length_nil]
      omega
    rw [List.append_assoc, locatedFrom_quote, locatedFrom_quoted_run _ _ _ hl,
      List.singleton_append, locatedFrom_quoted_quote, hlength]
    simp
  | unterminated content =>
    obtain rfl : rest = [] := hrest
    have hrun := locatedFrom_quoted_run (offset + 1) offset [] hl []
    rw [List.append_nil] at hrun
    show locatedFrom offset .between ('"' :: (content ++ [])) = _
    rw [List.append_nil, locatedFrom_quote, hrun, locatedFrom_nil, locatedFrom_nil]
    simp [ScanMode.finish]
  | word spelling =>
    obtain ⟨hne, hchars⟩ := hl
    obtain ⟨c, cs, rfl⟩ := List.exists_cons_of_ne_nil hne
    obtain ⟨hc, hcs⟩ := List.forall_mem_cons.mp hchars
    have hlength : offset + 1 + cs.length = offset + (Lexeme.word (c :: cs)).chars.length := by
      simp only [Lexeme.chars, List.length_cons]
      omega
    show locatedFrom offset .between (c :: (cs ++ rest)) = _
    rw [locatedFrom_between_word _ _ hc, locatedFrom_word_append _ _ _ hcs,
      locatedFrom_word_end _ _ _ hrest, hlength]
    simp

/-- The first lexeme of a text, and those of the rest. -/
theorem lexemes_chars {l : Lexeme} (hl : l.WellFormed) {rest : List Char}
    (hrest : l.EndsBefore rest) : lexemes (l.chars ++ rest) = l :: lexemes rest := by
  rw [lexemes, locatedLexemes_eq, locatedFrom_chars 0 hl hrest, List.map_cons,
    map_lexeme_locatedFrom]

/-! ## Induction over the lexemes of a text -/

/-- Every text that does not start with a blank starts with a lexeme. -/
theorem exists_lexeme {c : Char} (cs : List Char) (hc : ¬ Text.isBlank c) :
    ∃ (l : Lexeme) (rest : List Char), c :: cs = l.chars ++ rest ∧ l.WellFormed ∧
      l.EndsBefore rest ∧ rest.length ≤ cs.length := by
  by_cases hopening : c = '('
  · exact ⟨.opening, cs, by rw [hopening]; rfl, trivial, trivial, Nat.le_refl _⟩
  by_cases hclosing : c = ')'
  · exact ⟨.closing, cs, by rw [hclosing]; rfl, trivial, trivial, Nat.le_refl _⟩
  by_cases hquote : c = '"'
  · subst hquote
    by_cases hmem : '"' ∈ cs
    · -- the string ends at the first of the double quotes that follow
      obtain ⟨content, rest, rfl, hcontent⟩ := List.eq_append_cons_of_mem hmem
      refine ⟨.quoted content, rest, by simp [Lexeme.chars], hcontent, trivial, ?_⟩
      rw [List.length_append, List.length_cons]
      omega
    · exact ⟨.unterminated cs, [], by simp [Lexeme.chars], hmem, rfl, by simp⟩
  · -- anything else starts a word, as far as word characters go
    have hword : isWordChar c := by
      simp [isWordChar, hopening, hclosing, hquote, hc]
    refine ⟨.word (c :: cs.takeWhile isWordChar), cs.dropWhile isWordChar, ?_, ⟨by simp, ?_⟩,
      ?_, ?_⟩
    · simp [Lexeme.chars]
    · refine List.forall_mem_cons.mpr ⟨hword, fun d hd => ?_⟩
      exact List.mem_takeWhile_imp hd
    · intro d hd
      have hhead := List.head?_dropWhile_not isWordChar cs
      rw [Option.mem_def.mp hd] at hhead
      simpa using hhead
    · exact (List.dropWhile_sublist isWordChar).length_le

/-- Induction over a text, blank by blank and lexeme by lexeme. -/
theorem lexemeInduction {P : List Char → Prop} (nil : P [])
    (blank : ∀ c cs, Text.isBlank c → P cs → P (c :: cs))
    (lexeme : ∀ (l : Lexeme) rest, l.WellFormed → l.EndsBefore rest → P rest →
      P (l.chars ++ rest)) (cs : List Char) : P cs := by
  induction hlength : cs.length using Nat.strong_induction_on generalizing cs with
  | _ n ih =>
    subst hlength
    cases cs with
    | nil => exact nil
    | cons c cs =>
      by_cases hc : Text.isBlank c
      · exact blank c cs hc (ih _ (Nat.lt_succ_self _) cs rfl)
      · obtain ⟨l, rest, heq, hl, hrest, hle⟩ := exists_lexeme cs hc
        rw [heq]
        exact lexeme l rest hl hrest (ih _ (Nat.lt_succ_of_le hle) rest rfl)

/-! ## Cutting a text at a lexeme -/

theorem locatedFrom_split (cs : List Char) {offset : Nat} {before after : List Located}
    {l : Located} (h : locatedFrom offset .between cs = before ++ l :: after) :
    ∃ a b, cs = a ++ (l.lexeme.chars ++ b) ∧ l.start = offset + a.length ∧
      locatedFrom offset .between a = before := by
  induction cs using lexemeInduction generalizing offset before with
  | nil =>
    rw [locatedFrom_nil] at h
    simp [ScanMode.finish] at h
  | blank c cs hc ih =>
    rw [locatedFrom_blank _ _ hc] at h
    obtain ⟨a, b, rfl, hstart, hbefore⟩ := ih h
    refine ⟨c :: a, b, rfl, ?_, ?_⟩
    · rw [hstart, List.length_cons]
      omega
    · rw [locatedFrom_blank _ _ hc, hbefore]
  | lexeme first rest hfirst hrest ih =>
    rw [locatedFrom_chars offset hfirst hrest] at h
    cases before with
    | nil =>
      obtain ⟨rfl, -⟩ := List.cons.inj h
      exact ⟨[], rest, rfl, rfl, locatedFrom_nil offset⟩
    | cons m before =>
      obtain ⟨rfl, hafter⟩ := List.cons.inj h
      obtain ⟨a, b, rfl, hstart, hbefore⟩ := ih hafter
      -- the first lexeme ends before `a` since it ends before all of the rest
      refine ⟨first.chars ++ a, b, by simp, ?_, ?_⟩
      · rw [hstart, List.length_append]
        omega
      · rw [locatedFrom_chars offset hfirst hrest.of_append, hbefore]

/-- At the offset of a lexeme stand its characters, and the text before them has the lexemes
that were found before it. -/
theorem locatedLexemes_split {cs : List Char} {before after : List Located} {l : Located}
    (h : locatedLexemes cs = before ++ l :: after) :
    ∃ a b, cs = a ++ (l.lexeme.chars ++ b) ∧ l.start = a.length ∧
      locatedLexemes a = before := by
  obtain ⟨a, b, hcs, hstart, hbefore⟩ := locatedFrom_split cs h
  exact ⟨a, b, hcs, by omega, hbefore⟩

/-! ## Offsets and positions -/

namespace Text

theorem exists_newlineParts (cs : List Char) :
    ∃ first rest, newlineParts cs = first :: rest := by
  cases cs with
  | nil => exact ⟨_, _, rfl⟩
  | cons c cs =>
    rw [newlineParts]
    split
    · exact ⟨_, _, rfl⟩
    · split <;> exact ⟨_, _, rfl⟩

theorem newlineParts_cons_of_newline {c : Char} (hc : isNewline c) (cs : List Char) :
    newlineParts (c :: cs) = [] :: newlineParts cs := by
  rw [newlineParts, if_pos hc]

theorem newlineParts_cons {c : Char} (hc : isNewline c = false) {cs first : List Char}
    {rest : List (List Char)} (hcs : newlineParts cs = first :: rest) :
    newlineParts (c :: cs) = (c :: first) :: rest := by
  rw [newlineParts, if_neg (by simp [hc]), hcs]

/-- A text without newlines goes before the first part. -/
theorem newlineParts_append_of_not_mem {w : List Char} (hw : ∀ c ∈ w, isNewline c = false)
    {cs first : List Char} {rest : List (List Char)} (hcs : newlineParts cs = first :: rest) :
    newlineParts (w ++ cs) = (w ++ first) :: rest := by
  induction w with
  | nil => exact hcs
  | cons c w ih =>
    obtain ⟨hc, hw⟩ := List.forall_mem_cons.mp hw
    exact newlineParts_cons hc (ih hw)

/-- The characters of a text after its last newline. -/
def lastLine (a : List Char) : List Char :=
  (a.reverse.takeWhile (fun c => !isNewline c)).reverse

/-- What follows a text goes on with its last line. -/
theorem newlineParts_append (a : List Char) :
    ∃ init : List (List Char), init.length = a.countP isNewline ∧
      ∀ {b first : List Char} {rest : List (List Char)}, newlineParts b = first :: rest →
        newlineParts (a ++ b) = init ++ (lastLine a ++ first) :: rest := by
  induction a using List.reverseRecOn with
  | nil => exact ⟨[], rfl, fun hb => hb⟩
  | append_singleton a c ih =>
    obtain ⟨init, hinit, happend⟩ := ih
    by_cases hc : isNewline c
    · -- the line that `c` ends is one more line before the last
      refine ⟨init ++ [lastLine a], by simp [hinit, hc], fun {b first rest} hb => ?_⟩
      have hline : newlineParts (c :: b) = [] :: first :: rest := by
        rw [newlineParts_cons_of_newline hc, hb]
      rw [List.append_assoc, List.singleton_append, happend hline]
      simp [lastLine, hc]
    · have hc' : isNewline c = false := by simpa using hc
      refine ⟨init, by simp [hinit, hc], fun {b first rest} hb => ?_⟩
      rw [List.append_assoc, List.singleton_append, happend (newlineParts_cons hc' hb)]
      simp [lastLine, hc]

end Text

namespace Editor

theorem positionAt_length (a b : List Char) :
    positionAt (a ++ b) a.length =
      { line := a.countP Text.isNewline, column := (Text.lastLine a).length } := by
  simp [positionAt, Text.lastLine]

/-- A text without newlines stands on the line of its position, from its column on. -/
theorem exists_line_at (a b : List Char) {w : List Char}
    (hw : ∀ c ∈ w, Text.isNewline c = false) :
    let p := positionAt (a ++ (w ++ b)) a.length
    ∃ line, (Text.newlineParts (a ++ (w ++ b)))[p.line]? = some line ∧
      (line.drop p.column).take w.length = w := by
  obtain ⟨first, rest, hb⟩ := Text.exists_newlineParts b
  obtain ⟨init, hinit, happend⟩ := Text.newlineParts_append a
  rw [positionAt_length, happend (Text.newlineParts_append_of_not_mem hw hb)]
  refine ⟨Text.lastLine a ++ (w ++ first), ?_, ?_⟩
  · simp [← hinit]
  · simp

end Editor

end SmallScheme

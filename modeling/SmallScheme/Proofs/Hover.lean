import Mathlib.Data.List.Nodup
import SmallScheme.Editor.Workspace
import SmallScheme.Proofs.Definitions
import SmallScheme.Proofs.Extents
import SmallScheme.Proofs.TextLines

/-!
# Asking about a definition where it stands

The index has a position for every definition that it lists, and an editor may ask about the
word at that position. The two sides do not cut a text alike: the index counts newlines and
has names end where the scanner ends words, while the word at a position is looked for between
a few delimiters, on a line that ends at any line break.

* **`exists_spelled`** — the name of a definition stands in the text, as a word of its own;
* **`Spelled.exists_wordAt`** — the word at its position, if the lines up to there are the
  same for both;
* **`hover_at_definition`** — what is told at that position.
-/

namespace SmallScheme

/-! ## Lines that end at any line break -/

namespace Text

theorem isBlank_of_isLineBreak {c : Char} (hc : isLineBreak c) : isBlank c := by
  simp only [isLineBreak, isBlank, Bool.or_eq_true, Bool.and_eq_true, decide_eq_true_eq,
    beq_iff_eq] at hc ⊢
  omega

/-- The first line goes on with what has been read of it, up to the first break. -/
theorem linesFrom_eq_cons (isBreak : Char → Bool) (current cs : List Char)
    (h : current ≠ [] ∨ cs ≠ []) :
    ∃ part more, linesFrom isBreak current cs = (current.reverse ++ part) :: more ∧
      part.head? = cs.head? := by
  fun_induction linesFrom isBreak current cs with
  | case1 current hcurrent => simp_all
  | case2 current hcurrent => exact ⟨[], [], by simp, rfl⟩
  | case3 current cs ih => exact ⟨['\r', '\n'], linesFrom isBreak [] cs, by simp, rfl⟩
  | case4 current c cs _ hc ih => exact ⟨[c], linesFrom isBreak [] cs, by simp, rfl⟩
  | case5 current c cs _ hc ih =>
    obtain ⟨part, more, hlines, -⟩ := ih (.inl (List.cons_ne_nil c current))
    exact ⟨c :: part, more, by simpa using hlines, rfl⟩

theorem lastLine_append_newline (a b : List Char) : lastLine (a ++ '\n' :: b) = lastLine b := by
  unfold lastLine
  rw [List.reverse_append, List.reverse_cons, List.append_assoc, List.takeWhile_append]
  split
  · next hall =>
    have hself := (List.takeWhile_prefix (fun c => !isNewline c)).eq_of_length hall
    rw [List.singleton_append, List.takeWhile_cons_of_neg (by decide), List.append_nil, hself]
  · rfl

theorem lastLine_of_not_mem {l : List Char} (hl : ∀ c ∈ l, isNewline c = false) :
    lastLine l = l := by
  have hall : l.reverse.takeWhile (fun c => !isNewline c) = l.reverse := by
    rw [List.takeWhile_eq_self_iff]
    intro c hc
    rw [hl c (List.mem_reverse.mp hc)]
    rfl
  rw [lastLine, hall, List.reverse_reverse]

theorem isLineBreak_of_isNewline {c : Char} (hc : isNewline c) : isLineBreak c := by
  rw [beq_iff_eq.mp hc]
  decide

/-- A break that only one of the two counts makes a line shorter for it. -/
theorem isNewline_of_agree {current cs : List Char} {c : Char} (hc : isLineBreak c)
    (hpair : ∀ cs', c = '\r' → cs = '\n' :: cs' → False) (hcs : cs ≠ [])
    (h : linesFrom isLineBreak current (c :: cs) = linesFrom isNewline current (c :: cs)) :
    isNewline c = true := by
  by_contra hnewline
  rw [linesFrom, linesFrom, if_pos hc, if_neg hnewline] at h
  · obtain ⟨part, more, hlines, hpart⟩ :=
      linesFrom_eq_cons isNewline (c :: current) cs (.inr hcs)
    rw [hlines] at h
    have hnil : part = [] := by simpa using (List.cons.inj h).1
    rw [hnil] at hpart
    exact hcs (List.head?_eq_none_iff.mp hpart.symm)
  · exact hpair
  · exact hpair

/-- Where a text before a word has the same lines whichever breaks are counted, the word is on
the line that its newlines lead to, after the characters of the last line. -/
theorem linesFrom_of_agree {current a w : List Char} (b : List Char)
    (hcurrent : ∀ c ∈ current, isNewline c = false) (hw : ∀ c ∈ w.head?, isBlank c = false)
    (hne : w ≠ [])
    (h : linesFrom isLineBreak current (a ++ w) = linesFrom isNewline current (a ++ w)) :
    ∃ init : List (List Char), init.length = a.countP isNewline ∧
      linesFrom isLineBreak current (a ++ (w ++ b)) =
        init ++ linesFrom isLineBreak (lastLine (current.reverse ++ a)).reverse (w ++ b) := by
  have hstart {current : List Char} (hcurrent : ∀ c ∈ current, isNewline c = false) :
      (lastLine (current.reverse ++ [])).reverse = current := by
    rw [List.append_nil, lastLine_of_not_mem (by simpa using hcurrent), List.reverse_reverse]
  fun_induction linesFrom isLineBreak current a with
  | case1 current => exact ⟨[], rfl, by rw [hstart hcurrent]; rfl⟩
  | case2 current => exact ⟨[], rfl, by rw [hstart hcurrent]; rfl⟩
  | case3 current a ih =>
    simp only [List.cons_append, linesFrom] at h
    obtain ⟨init, hinit, hlines⟩ := ih (by simp) (List.cons.inj h).2
    refine ⟨('\n' :: '\r' :: current).reverse :: init, ?_, ?_⟩
    · simp [hinit, isNewline]
    · have hlast : lastLine (current.reverse ++ '\r' :: '\n' :: a) = lastLine a := by
        rw [← lastLine_append_newline (current.reverse ++ ['\r']) a]
        simp
      simp only [List.cons_append, linesFrom, hlines, hlast]
      rfl
  | case4 current c a hpair hc ih =>
    -- a carriage return right before the word is not followed by a newline
    have hpair' (cs' : List Char) (hreturn : c = '\r') (heq : a ++ w = '\n' :: cs') : False := by
      rcases List.append_eq_cons_iff.mp heq with ⟨-, hw'⟩ | ⟨a', ha, -⟩
      · exact absurd (hw '\n' (by rw [hw']; rfl)) (by decide)
      · exact hpair a' hreturn ha
    have hnewline := isNewline_of_agree hc hpair' (by simp [hne]) h
    obtain rfl : c = '\n' := beq_iff_eq.mp hnewline
    have hcut (isBreak : Char → Bool) (hbreak : isBreak '\n' = true) (cs : List Char) :
        linesFrom isBreak current ('\n' :: cs) =
          ('\n' :: current).reverse :: linesFrom isBreak [] cs := by
      rw [linesFrom_cons _ _ (by decide), if_pos hbreak]
    rw [List.cons_append, hcut _ rfl, hcut _ rfl] at h
    obtain ⟨init, hinit, hlines⟩ := ih (by simp) (List.cons.inj h).2
    refine ⟨('\n' :: current).reverse :: init, ?_, ?_⟩
    · simp [hinit, isNewline]
    · rw [List.cons_append, hcut _ rfl, hlines, lastLine_append_newline]
      rfl
  | case5 current c a _ hc ih =>
    have hnewline : isNewline c = false := by
      cases hn : isNewline c with
      | false => rfl
      | true => exact absurd (isLineBreak_of_isNewline hn) hc
    have hreturn : c ≠ '\r' := by
      rintro rfl
      exact hc (by decide)
    have hkeep (isBreak : Char → Bool) (hbreak : ¬ isBreak c) (cs : List Char) :
        linesFrom isBreak current (c :: cs) = linesFrom isBreak (c :: current) cs := by
      rw [linesFrom_cons _ _ hreturn, if_neg hbreak]
    rw [List.cons_append, hkeep _ hc, hkeep _ (by simp [hnewline])] at h
    obtain ⟨init, hinit, hlines⟩ := ih (List.forall_mem_cons.mpr ⟨hnewline, hcurrent⟩) h
    refine ⟨init, ?_, ?_⟩
    · rw [hinit, List.countP_cons_of_neg (by simp [hnewline])]
    · rw [List.cons_append, hkeep _ hc, hlines]
      simp

end Text

namespace Editor

/-! ## The names that the index lists -/

/-- The name of a definition that walking collects is one of the items. -/
theorem item_of_mem_walk {items : List Item} {depth start : Nat} {x : String}
    {kind : DefinitionKind} (h : (x, kind, start) ∈ (walk depth items).definitions) :
    ⟨start, .word (.identifier x)⟩ ∈ items := by
  induction items generalizing depth with
  | nil => cases h
  | cons i items ih =>
    obtain ⟨place, shape⟩ := i
    cases shape with
    | opening =>
      rw [walk] at h
      split at h
      · rcases List.mem_append.mp h with h | h
        · obtain ⟨a, value, rfl, -⟩ := definition?_eq_some_iff.mp (Option.mem_toList.mp h)
          simp
        · exact List.mem_cons_of_mem _ (ih h)
      · exact List.mem_cons_of_mem _ (ih h)
    | closing =>
      rw [walk] at h
      split at h <;> exact List.mem_cons_of_mem _ (ih h)
    | string => exact List.mem_cons_of_mem _ (ih h)
    | word t => exact List.mem_cons_of_mem _ (ih h)

/-- An item that is a word was found as that word. -/
theorem Finding.word_of_ofLocated {l : Located} {start : Nat} {t : Token}
    (h : ofLocated l = .ok (.item ⟨start, .word t⟩)) :
    ∃ w, l = ⟨start, .word w⟩ ∧ Token.ofWord (String.ofList w) = .ok t := by
  obtain ⟨place, lexeme⟩ := l
  cases lexeme with
  | word w =>
    rw [ofLocated] at h
    dsimp only at h
    cases hword : Token.ofWord (String.ofList w) with
    | ok u =>
      rw [hword] at h
      cases h
      exact ⟨w, rfl, hword⟩
    | error fault =>
      rw [hword] at h
      cases fault <;> cases h
  | _ => cases h

theorem name_of_mem_builtins {b : Builtin} (hb : b ∈ builtins) :
    (∃ k : Keyword, b.name = k.spelling) ∨ ∃ o : Operator, b.name = o.spelling := by
  rcases List.mem_append.mp hb with hb | hb
  · obtain ⟨k, -, rfl⟩ := List.mem_map.mp hb
    exact .inl ⟨k, rfl⟩
  · obtain ⟨o, -, rfl⟩ := List.mem_map.mp hb
    exact .inr ⟨o, rfl⟩

/-- How the name of a definition stands in the text: as a word of its own, at the position of
the definition. -/
structure Definition.Spelled (d : Definition) (text : String) (before word after : List Char) :
    Prop where
  parts : text.toList = before ++ (word ++ after)
  position : d.position = positionAt text.toList before.length
  token : Token.ofWord (String.ofList word) = .ok (.identifier d.name)
  starts : ∀ c ∈ before.getLast?, isWordChar c = false
  ends : ∀ c ∈ after.head?, isWordChar c = false

theorem exists_spelled {text : String} {index : Index} (hindex : Index.ofText text = .ok index)
    {d : Definition} (hd : d ∈ index.definitions) :
    ∃ before word after, d.Spelled text before word after := by
  obtain ⟨found, hfound, rfl⟩ := Index.ofText_eq_ok_iff.mp hindex
  obtain ⟨earlier, start, later, hwalk, hposition, -⟩ := last_of_mem_collectDefinitions hd
  have hitem := item_of_mem_walk (hwalk ▸ List.mem_append_right earlier List.mem_cons_self)
  obtain ⟨finding, hfinding, hshape⟩ := List.mem_filterMap.mp hitem
  have hok := List.mem_map_of_mem (f := Except.ok (ε := Oversized)) hfinding
  rw [← mapM_eq_ok_iff.mp hfound] at hok
  obtain ⟨l, hl, hlocated⟩ := List.mem_map.mp hok
  cases finding with
  | flaw f => cases hshape
  | item i =>
    cases hshape
    obtain ⟨w, rfl, htoken⟩ := Finding.word_of_ofLocated hlocated
    obtain ⟨a, b, hparts, hstart, -, ha, hb⟩ := mem_locatedLexemes_iff.mp hl
    exact ⟨a, w, b, hparts, hstart ▸ hposition, htoken, ha.apart ⟨w, rfl⟩, hb⟩

namespace Definition.Spelled

variable {d : Definition} {text : String} {before word after : List Char}

theorem isWord (h : d.Spelled text before word after) : IsWord word := by
  simpa using Token.isWord_of_isIdentifier (Token.ofWord_eq_identifier h.token).1

theorem lowerCase (h : d.Spelled text before word after) :
    Text.lowerCase (String.ofList word) = d.name := by
  obtain ⟨w, hw, -, -, hlower⟩ := Token.ofLexeme_eq_identifier (l := .word word) h.token
  cases hw
  exact hlower

/-- A name has word characters only. -/
theorem isWord_name (h : d.Spelled text before word after) : IsWord d.name.toList := by
  obtain ⟨hidentifier, hname⟩ := Token.ofWord_eq_identifier h.token
  rw [hname, String.toList_ofList]
  exact Token.isWord_of_isIdentifier (Token.isIdentifier_map_toLower hidentifier).1

/-- A name is no built-in form as it is written, although it may be one in lower case. -/
theorem builtin?_eq_none (h : d.Spelled text before word after) :
    builtin? (String.ofList word) = none := by
  rw [builtin?, List.find?_eq_none]
  intro b hb hname
  have htoken := h.token
  rw [← of_decide_eq_true hname] at htoken
  rcases name_of_mem_builtins hb with ⟨k, hk⟩ | ⟨o, ho⟩
  · rw [hk, Token.ofWord_keyword] at htoken
    cases htoken
  · rw [ho, Token.ofWord_operator] at htoken
    cases htoken

end Definition.Spelled

/-! ## What is told of a word -/

/-- A character that is in no word is the same in lower case. -/
theorem toLower_of_other {c : Char} (hc : isWordChar c = false) : Text.toLower c = c := by
  have hsign : c.toNat ≠ 0x212A := by
    intro hcode
    obtain rfl : c = Char.ofNat 0x212A := by rw [← hcode, Char.ofNat_toNat]
    exact absurd hc (by decide)
  have hupper : ¬ c.isUpper := by
    intro hupper
    have halpha : c.isAlpha := by
      delta Char.isAlpha
      rw [hupper, Bool.true_or]
    have hstarts : Token.startsIdentifier c := by simp [Token.startsIdentifier, halpha]
    rw [(Token.startsIdentifier_spec hstarts).1] at hc
    cases hc
  have hlower : c.toLower = c := by
    delta Char.toLower
    delta Char.isUpper at hupper
    exact dif_neg (by simpa using hupper)
  rw [Text.toLower, if_neg hsign, hlower]

theorem Index.find?_of_mem {text : String} {index : Index} (hindex : Index.ofText text = .ok index)
    {d : Definition} (hd : d ∈ index.definitions) : index.find? d.name = some d := by
  obtain ⟨found, -, rfl⟩ := Index.ofText_eq_ok_iff.mp hindex
  have hnodup := (names_collectDefinitions text.toList
    (walk 0 (found.filterMap Finding.item?)).definitions).2
  unfold Index.find?
  cases hfind : List.find? _ _ with
  | none => simpa using List.find?_eq_none.mp hfind d hd
  | some e =>
    have hname : e.name = d.name := by simpa using List.find?_some hfind
    rw [List.inj_on_of_nodup_map hnodup (List.mem_of_find?_eq_some hfind) hd hname]

/-- Nothing is told of a word with a character that no word of the scanner has. -/
theorem Index.describe?_eq_none {text : String} {index : Index}
    (hindex : Index.ofText text = .ok index) {word : List Char} {c : Char} (hc : c ∈ word)
    (hother : isWordChar c = false) : index.describe? (String.ofList word) = none := by
  have hnot {w : List Char} (hw : c ∈ w) : ¬ IsWord w := by
    intro hword
    rw [hword.2 c hw] at hother
    cases hother
  have hbuiltin : builtin? (String.ofList word) = none := by
    rw [builtin?, List.find?_eq_none]
    intro b hb hname
    have hmem : c ∈ b.name.toList := by
      rwa [of_decide_eq_true hname, String.toList_ofList]
    rcases name_of_mem_builtins hb with ⟨k, hk⟩ | ⟨o, ho⟩
    · exact hnot hmem (hk ▸ Token.isWord_keyword k)
    · exact hnot hmem (ho ▸ Token.isWord_operator o)
  have hfind : index.find? (Text.lowerCase (String.ofList word)) = none := by
    rw [Index.find?, List.find?_eq_none]
    intro e he hname
    have hmem : c ∈ e.name.toList := by
      rw [of_decide_eq_true hname, Text.lowerCase, String.toList_ofList, String.toList_ofList]
      exact List.mem_map.mpr ⟨c, hc, toLower_of_other hother⟩
    obtain ⟨before, w, after, hspelled⟩ := exists_spelled hindex he
    exact hnot hmem hspelled.isWord_name
  rw [describe?, hbuiltin, hfind]
  rfl

/-- The description of a definition starts with its name. -/
theorem Definition.takeWhile_describe {d : Definition} (hd : IsWord d.name.toList) :
    d.describe.toList.takeWhile isWordChar = d.name.toList := by
  have hspace : isWordChar ' ' = false := by decide
  simp only [describe, String.toList_append, List.append_assoc]
  rw [List.takeWhile_append_of_pos hd.2]
  simp [hspace]

theorem Definition.describe_ne_signature {d : Definition} (hd : IsWord d.name.toList)
    (b : Builtin) : b.signature ≠ d.describe := by
  intro h
  have hopening : isWordChar '(' = false := by decide
  have hnil : b.signature.toList.takeWhile isWordChar = [] := by
    simp [Builtin.signature, hopening]
  rw [h, Definition.takeWhile_describe hd] at hnil
  exact hd.1 hnil

/-- The description of a definition is told of the words that name it. -/
theorem Index.describe?_eq_iff {text : String} {index : Index}
    (hindex : Index.ofText text = .ok index) {d : Definition} (hd : d ∈ index.definitions)
    (word : String) :
    index.describe? word = some d.describe ↔
      builtin? word = none ∧ Text.lowerCase word = d.name := by
  obtain ⟨_, _, _, hspelled⟩ := exists_spelled hindex hd
  constructor
  · intro h
    unfold describe? at h
    split at h
    · exact absurd (Option.some.inj h) (Definition.describe_ne_signature hspelled.isWord_name _)
    · next hbuiltin =>
      obtain ⟨e, hfind, hdescribe⟩ := Option.map_eq_some_iff.mp h
      obtain ⟨_, _, _, hspelled'⟩ := exists_spelled hindex (List.mem_of_find?_eq_some hfind)
      have hname : e.name = Text.lowerCase word := by simpa using List.find?_some hfind
      refine ⟨hbuiltin, hname.symm.trans (String.toList_inj.mp ?_)⟩
      calc e.name.toList
          = e.describe.toList.takeWhile isWordChar :=
            (Definition.takeWhile_describe hspelled'.isWord_name).symm
        _ = d.describe.toList.takeWhile isWordChar := by rw [hdescribe]
        _ = d.name.toList := Definition.takeWhile_describe hspelled.isWord_name
  · rintro ⟨hbuiltin, hname⟩
    rw [describe?, hbuiltin, hname, Index.find?_of_mem hindex hd]
    rfl

/-! ## The word at a position -/

/-- There is a delimiter on both sides, unless the text starts or ends there. -/
def isDelimited (before after : List Char) : Bool :=
  before.getLast?.all isDelimiter && after.head?.all isDelimiter

theorem isWordChar_of_isDelimiter {c : Char} (hc : isDelimiter c) : isWordChar c = false := by
  simp only [isDelimiter, Bool.or_eq_true, beq_iff_eq] at hc
  rcases hc with ((((rfl | rfl) | rfl) | rfl) | rfl) | rfl <;> decide

/-- What no word character is. -/
theorem eq_false_of_isWordChar {c : Char} (hc : isWordChar c) {p : Char → Bool}
    (hp : ∀ c, p c = true → isWordChar c = false) : p c = false := by
  cases hpc : p c with
  | false => rfl
  | true =>
    rw [hp c hpc] at hc
    cases hc

/-- The line of a name, if the lines up to it are the same whichever breaks are counted. -/
theorem Definition.Spelled.exists_lineAt {d : Definition} {text : String}
    {before word after : List Char} (h : d.Spelled text before word after)
    (hlines : Text.lines Text.isLineBreak (before ++ word) =
      Text.lines Text.isNewline (before ++ word)) :
    ∃ part : List Char, part.head? = after.head? ∧
      lineAt? text d.position.line = some (Text.lastLine before ++ (word ++ part)) := by
  obtain ⟨hne, hword⟩ := h.isWord
  have hblank : ∀ c ∈ word, Text.isBlank c = false :=
    fun c hc => eq_false_of_isWordChar (hword c hc) fun _ => isWordChar_of_isBlank
  have hbreak : ∀ c ∈ word, Text.isLineBreak c = false :=
    fun c hc => eq_false_of_isWordChar (hword c hc)
      fun _ hb => isWordChar_of_isBlank (Text.isBlank_of_isLineBreak hb)
  have hreturn : '\r' ∉ word := fun hmem => absurd (hword _ hmem) (by decide)
  obtain ⟨init, hinit, hfrom⟩ := Text.linesFrom_of_agree after (by simp)
    (fun c hc => hblank c (List.mem_of_mem_head? hc)) hne hlines
  obtain ⟨part, more, hcons, hpart⟩ := Text.linesFrom_eq_cons Text.isLineBreak
    (word.reverse ++ (Text.lastLine before).reverse) after (by simp [hne])
  refine ⟨part, hpart, ?_⟩
  rw [Text.linesFrom_append _ hbreak hreturn, List.reverse_nil, List.nil_append, hcons] at hfrom
  rw [lineAt?, h.position, h.parts, positionAt_length, Text.lines, hfrom, ← hinit]
  simp

/-- The characters of a word up to a delimiter. -/
abbrev untilDelimiter (cs : List Char) : List Char :=
  cs.takeWhile fun c => !isDelimiter c

/-- The word at the position of a name goes on to both sides up to a delimiter. -/
theorem Definition.Spelled.exists_wordAt {d : Definition} {text : String}
    {before word after : List Char} (h : d.Spelled text before word after)
    (hlines : Text.lines Text.isLineBreak (before ++ word) =
      Text.lines Text.isNewline (before ++ word)) :
    ∃ (part : List Char) (start : Position), part.head? = after.head? ∧
      wordAt text d.position = .ok {
        word? := some (String.ofList
          ((untilDelimiter before.reverse).reverse ++ (word ++ untilDelimiter part)))
        start } := by
  obtain ⟨part, hpart, hline⟩ := h.exists_lineAt hlines
  have hcolumn : d.position.column = (Text.lastLine before).length := by
    rw [h.position, h.parts, positionAt_length]
  have hbefore : wordBefore (Text.lastLine before ++ (word ++ part)) d.position.column =
      untilDelimiter before.reverse := by
    -- a newline is a delimiter, so the word does not go beyond its line
    have hdelimiter (c : Char) : (!isDelimiter c) = true ∧ (!Text.isNewline c) = true ↔
        (!isDelimiter c) = true := by
      by_cases hc : c = '\n' <;> simp [isDelimiter, Text.isNewline, hc]
    rw [wordBefore, hcolumn, List.take_left, Text.lastLine, List.reverse_reverse,
      List.takeWhile_takeWhile]
    simp only [hdelimiter, Bool.decide_eq_true]
  have hafter : wordAfter (Text.lastLine before ++ (word ++ part)) d.position.column =
      word ++ untilDelimiter part := by
    rw [wordAfter, hcolumn, List.drop_left, List.takeWhile_append_of_pos]
    intro c hc
    rw [eq_false_of_isWordChar (h.isWord.2 c hc) fun _ => isWordChar_of_isDelimiter]
    rfl
  refine ⟨part, { d.position with
    column := d.position.column - (untilDelimiter before.reverse).length }, hpart, ?_⟩
  rw [wordAt, hline]
  dsimp only
  rw [hbefore, hafter, if_pos (by rw [hcolumn]; simp)]
  simp [h.isWord.1]

theorem untilDelimiter_eq_nil_iff (cs : List Char) :
    untilDelimiter cs = [] ↔ cs.head?.all isDelimiter = true := by
  cases cs with
  | nil => simp
  | cons c cs => simp [untilDelimiter, List.takeWhile_cons]

/-- Where the word goes on beyond the name, a character is in it that is in no word of the
scanner. -/
theorem exists_mem_untilDelimiter {cs : List Char} (hcs : ∀ c ∈ cs.head?, isWordChar c = false)
    (h : untilDelimiter cs ≠ []) : ∃ c ∈ untilDelimiter cs, isWordChar c = false := by
  cases cs with
  | nil => exact absurd rfl h
  | cons c cs =>
    refine ⟨c, ?_, hcs c rfl⟩
    have hc : isDelimiter c = false := by
      simpa [untilDelimiter_eq_nil_iff] using h
    simp [untilDelimiter, hc]

/-- What is told of the word around a name. -/
theorem Definition.Spelled.describe? {text : String} {index : Index}
    (hindex : Index.ofText text = .ok index) {d : Definition} (hd : d ∈ index.definitions)
    {before word after part : List Char} (h : d.Spelled text before word after)
    (hpart : part.head? = after.head?) :
    index.describe? (String.ofList
        ((untilDelimiter before.reverse).reverse ++ (word ++ untilDelimiter part))) =
      if isDelimited before after then some d.describe else none := by
  have hdelimited : isDelimited before after = true ↔
      untilDelimiter before.reverse = [] ∧ untilDelimiter part = [] := by
    rw [isDelimited, Bool.and_eq_true, untilDelimiter_eq_nil_iff, untilDelimiter_eq_nil_iff,
      List.head?_reverse, hpart]
  by_cases hbefore : untilDelimiter before.reverse = []
  · by_cases hafter : untilDelimiter part = []
    · rw [if_pos (hdelimited.mpr ⟨hbefore, hafter⟩), hbefore, hafter, List.append_nil]
      exact (Index.describe?_eq_iff hindex hd _).mpr ⟨h.builtin?_eq_none, h.lowerCase⟩
    · obtain ⟨c, hc, hother⟩ := exists_mem_untilDelimiter (hpart ▸ h.ends) hafter
      rw [if_neg fun hall => hafter (hdelimited.mp hall).2]
      exact Index.describe?_eq_none hindex (by simp [hc]) hother
  · have hstarts : ∀ c ∈ before.reverse.head?, isWordChar c = false := by
      rw [List.head?_reverse]
      exact h.starts
    obtain ⟨c, hc, hother⟩ := exists_mem_untilDelimiter hstarts hbefore
    rw [if_neg fun hall => hbefore (hdelimited.mp hall).1]
    exact Index.describe?_eq_none hindex (by simp [hc]) hother

/-! ## Asking -/

theorem Workspace.hover_eq {w : Workspace} {uri : String} {d : Document} (h : w.get? uri = some d)
    (p : Position) :
    w.hover uri p = (wordAt d.text p).map fun r => r.word?.bind d.index.describe? := by
  rw [hover, h]
  rfl

/-- **Asking about a definition where it stands.** Whatever the text of a document is, the
description of a definition is told at the position that the index has for it if and only if
the word there, in lower case, is its name, and the word itself is no built-in form.

The name does stand there as a word. If up to its end the text has the same lines whichever
breaks are counted, then its description is told if there are delimiters around the name, and
nothing is told otherwise. -/
theorem hover_at_definition (w : Workspace) (uri text : String) (index : Index)
    (hdocument : w.get? uri = some { text, index }) (hindex : Index.ofText text = .ok index)
    (d : Definition) (hd : d ∈ index.definitions) :
    (w.hover uri d.position = .ok (some d.describe) ↔
      ∃ word start, wordAt text d.position = .ok { word? := some word, start } ∧
        builtin? word = none ∧ Text.lowerCase word = d.name) ∧
    (∃ before word after, d.Spelled text before word after) ∧
    ∀ before word after, d.Spelled text before word after →
      Text.lines Text.isLineBreak (before ++ word) = Text.lines Text.isNewline (before ++ word) →
      w.hover uri d.position =
        .ok (if isDelimited before after then some d.describe else none) := by
  rw [Workspace.hover_eq hdocument]
  refine ⟨?_, exists_spelled hindex hd, ?_⟩
  · cases hword : wordAt text d.position with
    | error fault => simp [Except.map]
    | ok found =>
      obtain ⟨word?, start⟩ := found
      cases word? with
      | none => simp [Except.map]
      | some word => simp [Except.map, Index.describe?_eq_iff hindex hd]
  · intro before word after hspelled hlines
    obtain ⟨part, start, hpart, hword⟩ := hspelled.exists_wordAt hlines
    rw [hword, ← hspelled.describe? hindex hd hpart]
    rfl

/-- A name in capital letters, and one before the end of its line. -/
theorem hover_at_definition_capitals :
    let text := "(define Total 3)\r\n(define y\n4)"
    let total : Definition := { name := "total", kind := .value, position := ⟨0, 8⟩ }
    let y : Definition := { name := "y", kind := .value, position := ⟨1, 8⟩ }
    let index : Index := { definitions := [total, y] }
    let w : Workspace := { documents := [("a", { text, index })] }
    Index.ofText text = .ok index ∧
      w.hover "a" ⟨0, 8⟩ = .ok (some "total - var (defined at 1:9)") ∧
      w.hover "a" ⟨1, 8⟩ = .ok (some "y - var (defined at 2:9)") := by
  intro text total y index w
  have hindex : Index.ofText text = .ok index := by decide +kernel
  have htotal := hover_at_definition w "a" text index rfl hindex total (by simp [index])
  have hword : wordAt text total.position = .ok { word? := some "Total", start := ⟨0, 8⟩ } := by
    decide +kernel
  have hy := hover_at_definition w "a" text index rfl hindex y (by simp [index])
  have hspelled : y.Spelled text "(define Total 3)\r\n(define ".toList ['y'] "\n4)".toList := by
    refine ⟨by decide +kernel, by decide +kernel, rfl, ?_, ?_⟩ <;> simp [isWordChar, Text.isBlank]
  have htold : total.describe = "total - var (defined at 1:9)" ∧
      y.describe = "y - var (defined at 2:9)" := by decide +kernel
  rw [← htold.1, ← htold.2]
  exact ⟨hindex, htotal.1.mpr ⟨_, _, hword, by decide, by decide⟩,
    hy.2.2 _ _ _ hspelled (by decide +kernel)⟩

/-- A string right after the name: nothing is told. A form feed before the name: the index has
a column that its line does not have. -/
theorem hover_misses_definition :
    let x (column : Nat) : Definition := { name := "x", kind := .value, position := ⟨0, column⟩ }
    let hoverAt (text : String) (p : Position) : Except CursorFault (Option String) :=
      Workspace.hover { documents := [("a", { text, index := { definitions := [x p.column] } })] }
        "a" p
    Index.ofText "(define x\"a\")" = .ok { definitions := [x 8] } ∧
      hoverAt "(define x\"a\")" ⟨0, 8⟩ = .ok none ∧
      Index.ofText "(define\x0c x 1)" = .ok { definitions := [x 9] } ∧
      hoverAt "(define\x0c x 1)" ⟨0, 9⟩ = .error .beyondLine := by
  decide +kernel

end Editor

end SmallScheme

import SmallScheme.Proofs.Building
import SmallScheme.Proofs.Datum
import SmallScheme.Proofs.Words

/-!
# Printing and reading back

The text of an expression that was read is scanned as the lexemes of its leaves with
the parentheses of its lists around them (`Datum.lexemes`), and reading those builds
the same lists over whatever the leaves read as now (`Datum.reread`). So an expression
is read back as itself if and only if each leaf is, which `parse_render_iff` makes
explicit: only a symbol that is spelled like a reserved word, and a real whose text is
no real literal, are lost.
-/

namespace SmallScheme

namespace Datum

/-! ## Leaves -/

mutual

/-- The parts of an expression that are not lists, from left to right. -/
def leaves : Datum → List Datum
  | .list items => leavesEach items
  | d => [d]

/-- The leaves of several expressions. -/
def leavesEach : List Datum → List Datum
  | [] => []
  | d :: ds => leaves d ++ leavesEach ds

end

theorem leavesEach_eq (ds : List Datum) : leavesEach ds = ds.flatMap leaves := by
  induction ds with
  | nil => rfl
  | cons d ds ih => rw [leavesEach, ih, List.flatMap_cons]

theorem leaves_list (items : List Datum) : leaves (.list items) = items.flatMap leaves := by
  rw [leaves, leavesEach_eq]

/-- What a leaf is after reading: integers have no sign and few enough digits, strings
have no double quotes, symbols are identifiers in lower case. -/
def ReadableLeaf : Datum → Prop
  | .number (.int n) => 0 ≤ n ∧ n.natAbs < Nat.pow 10 digitLimit
  | .number (.real _) | .bool _ | .keyword _ | .operator _ => True
  | .str text => '"' ∉ text.toList
  | .symbol name =>
    Token.isIdentifier name.toList ∧ name.toList.map Char.toLower = name.toList
  | _ => False

/-- An expression that can come from a text. -/
def Readable (d : Datum) : Prop :=
  ∀ x ∈ d.leaves, x.ReadableLeaf

theorem readable_list (items : List Datum) :
    Readable (.list items) ↔ ∀ d ∈ items, d.Readable := by
  unfold Readable
  rw [leaves_list]
  simp only [List.mem_flatMap]
  constructor
  · intro h d hd x hx
    exact h x ⟨d, hd, hx⟩
  · rintro h x ⟨d, hd, hx⟩
    exact h d hd x hx

theorem ReadableLeaf.leaves_eq {d : Datum} (h : d.ReadableLeaf) : d.leaves = [d] := by
  cases d with
  | list items => cases h
  | _ => rfl

theorem ReadableLeaf.readable {d : Datum} (h : d.ReadableLeaf) : d.Readable := by
  unfold Readable
  rw [h.leaves_eq]
  simpa using h

end Datum

/-! ## Everything that is read is readable -/

namespace Token

theorem leaf_of_ofInteger {cs : List Char} {t : Token} (hcs : Text.isDigits cs)
    (ht : ofInteger cs = .ok t) : ∃ d, t.leaf? = some d ∧ d.ReadableLeaf := by
  unfold ofInteger Number.ofDigits at ht
  by_cases hlength : cs.length ≤ digitLimit
  · rw [dif_pos hlength] at ht
    cases ht
    have hdigits : ∀ c ∈ cs, c.isDigit := by
      rw [Text.isDigits, Bool.and_eq_true, List.all_eq_true] at hcs
      exact hcs.2
    refine ⟨_, rfl, Int.natCast_nonneg _, ?_⟩
    rw [Int.natAbs_natCast]
    exact Text.ofDigits_lt_pow hdigits hlength
  · rw [dif_neg hlength] at ht
    cases ht

/-- A word never stands for a parenthesis. -/
theorem leaf_of_ofWord {word : String} {t : Token} (ht : ofWord word = .ok t) :
    ∃ d, t.leaf? = some d ∧ d.ReadableLeaf := by
  unfold ofWord at ht
  dsimp only at ht
  split at ht
  · cases ht
    exact ⟨_, rfl, trivial⟩
  split at ht
  · cases ht
    exact ⟨_, rfl, trivial⟩
  split at ht
  · next hdigits => exact leaf_of_ofInteger hdigits ht
  split at ht
  · cases ht
    exact ⟨_, rfl, trivial⟩
  split at ht
  · cases ht
    exact ⟨_, rfl, trivial⟩
  split at ht
  · cases ht
    exact ⟨_, rfl, trivial⟩
  split at ht
  · next hidentifier =>
    cases ht
    refine ⟨_, rfl, ?_⟩
    simp only [Datum.ReadableLeaf, String.toList_ofList]
    exact isIdentifier_map_toLower hidentifier
  · cases ht

end Token

namespace Builder

/-- The builder holds readable expressions only. -/
def Readable (b : Builder) : Prop :=
  ∀ items ∈ b.current :: b.around, ∀ d ∈ items, d.Readable

theorem Readable.add {b : Builder} (hb : b.Readable) {d : Datum} (hd : d.Readable) :
    (b.add d).Readable := by
  obtain ⟨hcurrent, haround⟩ := List.forall_mem_cons.mp hb
  exact List.forall_mem_cons.mpr ⟨List.forall_mem_cons.mpr ⟨hd, hcurrent⟩, haround⟩

theorem Readable.takeLexeme {b b' : Builder} (hb : b.Readable) {l : Lexeme} (hl : l.WellFormed)
    (h : b.takeLexeme l = .ok b') : b'.Readable := by
  obtain ⟨t, ht, htake⟩ := bind_eq_ok_iff.mp h
  rw [mapError_eq_ok_iff] at htake
  cases l with
  | opening =>
    cases ht
    cases htake
    exact List.forall_mem_cons.mpr ⟨fun d hd => absurd hd List.not_mem_nil, hb⟩
  | closing =>
    cases ht
    obtain ⟨current, around⟩ := b
    cases around with
    | nil => cases htake
    | cons outer around =>
      cases htake
      obtain ⟨hcurrent, haround⟩ := List.forall_mem_cons.mp hb
      have hlist : (Datum.list current.reverse).Readable := by
        rw [Datum.readable_list]
        intro d hd
        exact hcurrent d (List.mem_reverse.mp hd)
      exact Readable.add (b := ⟨outer, around⟩) haround hlist
  | quoted content =>
    cases ht
    cases htake
    have hstr : (Datum.str (String.ofList content)).ReadableLeaf := by
      show '"' ∉ (String.ofList content).toList
      rw [String.toList_ofList]
      exact hl
    exact hb.add hstr.readable
  | unterminated content => cases ht
  | word spelling =>
    obtain ⟨d, hleaf, hd⟩ := Token.leaf_of_ofWord ht
    rw [Token.take_of_leaf? hleaf, Except.ok.injEq] at htake
    rw [← htake]
    exact hb.add hd.readable

theorem Readable.read {b b' : Builder} (hb : b.Readable) {ls : List Lexeme}
    (hls : ∀ l ∈ ls, l.WellFormed) (h : b.read ls = .ok b') : b'.Readable := by
  induction ls generalizing b with
  | nil =>
    cases h
    exact hb
  | cons l ls ih =>
    obtain ⟨hl, hls⟩ := List.forall_mem_cons.mp hls
    rw [read_cons, bind_eq_ok_iff] at h
    obtain ⟨b₁, htake, hread⟩ := h
    exact ih (hb.takeLexeme hl htake) hls hread

end Builder

theorem readable_of_parse {source : String} {exprs : List Datum} (h : parse source = .ok exprs) :
    ∀ e ∈ exprs, e.Readable := by
  intro e he
  have hstart : ({} : Builder).Readable := by
    simp [Builder.Readable]
  have hlast := hstart.read (fun l hl => wellFormed_of_mem_lexemes hl) (parse_eq_ok_iff.mp h)
  exact hlast _ List.mem_cons_self e (List.mem_reverse.mpr he)

/-! ## The lexemes of an expression -/

/-- A text scans as lexemes, with its double quotes in pairs. -/
structure Scans (text : String) (ls : List Lexeme) : Prop where
  eq : lexemes text.toList = ls
  even : Even (text.toList.count '"')

theorem IsWord.scans {text : String} (h : IsWord text.toList) :
    Scans text [.word text.toList] :=
  ⟨h.lexemes, by simp [h.count_quote]⟩

theorem scans_quoted {text : String} (h : '"' ∉ text.toList) :
    Scans ("\"" ++ text ++ "\"") [.quoted text.toList] := by
  have htext : ("\"" ++ text ++ "\"").toList = '"' :: (text.toList ++ ['"']) := by
    simp
  refine ⟨?_, ?_⟩
  · rw [htext, lexemes_quoted h]
  · rw [htext]
    simp [List.count_eq_zero_of_not_mem h]

theorem Scans.parenthesized {text : String} {ls : List Lexeme} (h : Scans text ls) :
    Scans ("(" ++ text ++ ")") (.opening :: (ls ++ [.closing])) := by
  have htext : ("(" ++ text ++ ")").toList = '(' :: (text.toList ++ [')']) := by
    simp
  refine ⟨?_, ?_⟩
  · rw [htext, lexemes_cons_opening, lexemes_append_of_delimiter h.even (by decide), h.eq,
      lexemes_cons_closing]
    rfl
  · rw [htext]
    simpa using h.even

namespace Datum

/-- The lexeme of a leaf. -/
def lexeme : Datum → Lexeme
  | .str text => .quoted text.toList
  | d =>
    match d.render with
    | .ok text => .word text.toList
    | .error _ => .word []

mutual

/-- The lexemes of the text of an expression. -/
def printed : Datum → List Lexeme
  | .list items => .opening :: (printedEach items ++ [.closing])
  | d => [d.lexeme]

/-- The lexemes of the texts of several expressions. -/
def printedEach : List Datum → List Lexeme
  | [] => []
  | d :: ds => printed d ++ printedEach ds

end

theorem scans_leaf {d : Datum} (h : d.ReadableLeaf) :
    ∃ text, d.render = .ok text ∧ Scans text [d.lexeme] := by
  cases d with
  | number n =>
    cases n with
    | int n =>
      obtain ⟨hsign, hbound⟩ := h
      obtain ⟨m, rfl⟩ := Int.eq_ofNat_of_zero_le hsign
      rw [Int.natAbs_natCast] at hbound
      have hrender : (Datum.int m).render = .ok (String.ofList (Nat.toDigits 10 m)) := by
        rw [render, Number.text, Number.intText_natCast hbound]
      have hword : IsWord (String.ofList (Nat.toDigits 10 m)).toList := by
        rw [String.toList_ofList]
        exact Text.isWord_of_isDigits (Text.isDigits_toDigits m)
      refine ⟨_, hrender, ?_⟩
      simp only [lexeme, hrender]
      exact hword.scans
    | real x => exact ⟨_, rfl, (Binary64.isWord_text x).scans⟩
  | bool b => cases b <;> exact ⟨_, rfl, IsWord.scans (isWord_of_all rfl)⟩
  | str text => exact ⟨_, rfl, scans_quoted h⟩
  | symbol name => exact ⟨_, rfl, (Token.isWord_of_isIdentifier h.1).scans⟩
  | keyword k => exact ⟨_, rfl, (Token.isWord_keyword k).scans⟩
  | operator o => exact ⟨_, rfl, (Token.isWord_operator o).scans⟩
  | list items => cases h
  | closure formals body frame => cases h
  | nil => cases h
  | unassigned => cases h
  | absent => cases h

theorem scans_each {ds : List Datum}
    (h : ∀ d ∈ ds, ∃ text, d.render = .ok text ∧ Scans text d.printed) :
    ∃ texts, renderEach ds = .ok texts ∧ (∀ t ∈ texts, Even (t.toList.count '"')) ∧
      texts.flatMap (SmallScheme.lexemes ·.toList) = printedEach ds := by
  induction ds with
  | nil => exact ⟨[], rfl, by simp, rfl⟩
  | cons d ds ih =>
    obtain ⟨hd, hds⟩ := List.forall_mem_cons.mp h
    obtain ⟨text, hrender, htext⟩ := hd
    obtain ⟨texts, hrenders, heven, htexts⟩ := ih hds
    refine ⟨text :: texts, ?_, List.forall_mem_cons.mpr ⟨htext.even, heven⟩, ?_⟩
    · rw [renderEach, hrender, hrenders]
      rfl
    · rw [List.flatMap_cons, htext.eq, htexts, printedEach]

/-- The text of a readable expression has the lexemes of its leaves and lists. -/
theorem Readable.scans {d : Datum} (hd : d.Readable) :
    ∃ text, d.render = .ok text ∧ Scans text d.printed := by
  induction d using treeInduction with
  | list items ih =>
    rw [readable_list] at hd
    obtain ⟨texts, hrender, heven, htexts⟩ := scans_each fun d hmem => ih d hmem (hd d hmem)
    have hspace : " ".toList = [' '] := rfl
    have hscans : Scans (" ".intercalate texts) (printedEach items) := by
      refine ⟨?_, even_count_intercalate hspace (by decide) heven⟩
      rw [lexemes_intercalate hspace (by decide) heven, htexts]
    refine ⟨"(" ++ " ".intercalate texts ++ ")", ?_, hscans.parenthesized⟩
    rw [render, hrender]
    rfl
  | _ => exact scans_leaf (hd _ List.mem_cons_self)

/-! ## Reading an expression back -/

mutual

/-- The expression with each leaf replaced by what its text reads as. -/
def reread : Datum → Except Fault Datum
  | .list items => do return .list (← rereadEach items)
  | d => do
    let t ← Token.ofLexeme d.lexeme
    return t.leaf?.getD .absent

/-- Expressions with their leaves replaced by what these read as. -/
def rereadEach : List Datum → Except Fault (List Datum)
  | [] => .ok []
  | d :: ds => do return (← reread d) :: (← rereadEach ds)

end

theorem leaf_of_lexeme {d : Datum} {t : Token} (h : Token.ofLexeme d.lexeme = .ok t) :
    ∃ x, t.leaf? = some x := by
  unfold lexeme at h
  split at h
  · cases h
    exact ⟨_, rfl⟩
  · split at h
    all_goals
      rw [Token.ofLexeme] at h
      obtain ⟨x, hx, -⟩ := Token.leaf_of_ofWord h
      exact ⟨x, hx⟩

theorem read_leaf (b : Builder) (d : Datum) :
    b.read [d.lexeme] =
      b.add <$> (do let t ← Token.ofLexeme d.lexeme; return t.leaf?.getD .absent) := by
  rw [Builder.read_cons, Builder.takeLexeme]
  cases h : Token.ofLexeme d.lexeme with
  | error fault => rfl
  | ok t =>
    obtain ⟨x, hx⟩ := leaf_of_lexeme h
    simp only [bind, Except.bind, Token.take_of_leaf? hx, Except.mapError, Builder.read_nil, pure,
      Except.pure, hx, Option.getD_some, Except.map_ok]

theorem read_printedEach {ds : List Datum}
    (h : ∀ d ∈ ds, ∀ b : Builder, b.read d.printed = b.add <$> d.reread) (b : Builder) :
    b.read (printedEach ds) = (List.foldl Builder.add b) <$> rereadEach ds := by
  induction ds generalizing b with
  | nil => rfl
  | cons d ds ih =>
    obtain ⟨hd, hds⟩ := List.forall_mem_cons.mp h
    rw [printedEach, Builder.read_append, hd, rereadEach]
    cases d.reread with
    | error fault => rfl
    | ok d' =>
      rw [Except.map_ok]
      simp only [bind, Except.bind, ih hds]
      cases rereadEach ds <;> rfl

theorem foldl_add (ds : List Datum) (b : Builder) :
    ds.foldl Builder.add b = { b with current := ds.reverse ++ b.current } := by
  induction ds generalizing b with
  | nil => rfl
  | cons d ds ih =>
    rw [List.foldl_cons, ih]
    simp [Builder.add]

/-- Lists are read back as lists, whatever their leaves are read as. -/
theorem read_printed (d : Datum) (b : Builder) : b.read d.printed = b.add <$> d.reread := by
  induction d using treeInduction generalizing b with
  | list items ih =>
    have hopening : b.takeLexeme .opening = .ok b.enter := rfl
    rw [printed, reread, Builder.read_cons, hopening]
    -- inside the parentheses the builder starts with no items
    show b.enter.read (printedEach items ++ [.closing]) = _
    rw [Builder.read_append, read_printedEach ih]
    cases rereadEach items with
    | error fault => rfl
    | ok ds =>
      rw [Except.map_ok, foldl_add]
      show (Builder.mk (ds.reverse ++ []) (b.current :: b.around)).read [.closing] = _
      simp [Builder.read_cons, Builder.read_nil, Builder.takeLexeme, Token.ofLexeme, Builder.take,
        Builder.leave, Builder.add, bind, Except.bind, pure, Except.pure, Except.mapError]
  | _ => exact read_leaf b _

/-! ## Which leaves survive -/

theorem rereadEach_eq_mapM (ds : List Datum) : rereadEach ds = ds.mapM reread := by
  induction ds with
  | nil => rfl
  | cons d ds ih => rw [rereadEach, ih, List.mapM_cons]

/-- An expression is read back as itself if and only if its leaves are. -/
theorem reread_eq_self_iff (d : Datum) :
    d.reread = .ok d ↔ ∀ x ∈ d.leaves, x.reread = .ok x := by
  induction d using treeInduction with
  | list items ih =>
    have hitems : (Datum.list items).reread = .ok (.list items) ↔
        ∀ d ∈ items, d.reread = .ok d := by
      rw [← List.map_inj_left, ← mapM_eq_ok_iff, ← rereadEach_eq_mapM, reread]
      cases rereadEach items with
      | error fault => simp [bind, Except.bind]
      | ok ds => simp [bind, Except.bind, pure, Except.pure]
    rw [hitems, leaves_list]
    simp only [List.mem_flatMap]
    constructor
    · rintro h x ⟨d, hd, hx⟩
      exact (ih d hd).mp (h d hd) x hx
    · intro h d hd
      exact (ih d hd).mpr fun x hx => h x ⟨d, hd, hx⟩
  | _ => simp [leaves]

/-- A leaf is read back as itself if its lexeme stands for its token. -/
theorem reread_leaf_iff {d : Datum} {t : Token} (hd : d.ReadableLeaf) (ht : t.leaf? = some d) :
    d.reread = .ok d ↔ Token.ofLexeme d.lexeme = .ok t := by
  have hreread : d.reread = do let t ← Token.ofLexeme d.lexeme; return t.leaf?.getD .absent := by
    cases d with
    | list items => cases hd
    | _ => rfl
  rw [hreread, bind_eq_ok_iff]
  constructor
  -- no two tokens stand for the same leaf
  · rintro ⟨t', ht', heq⟩
    obtain ⟨x, hx⟩ := leaf_of_lexeme ht'
    simp only [hx, Option.getD_some, pure, Except.pure, Except.ok.injEq] at heq
    rw [heq] at hx
    rw [ht', Token.leaf?_injective hx ht]
  · intro h
    exact ⟨t, h, by simp [ht, pure, Except.pure]⟩

/-- A symbol survives unless it is spelled like a reserved word. -/
theorem reread_symbol_iff {name : String} (h : (Datum.symbol name).ReadableLeaf) :
    (Datum.symbol name).reread = .ok (.symbol name) ↔
      (∀ k : Keyword, k.spelling ≠ name) ∧ ∀ o : Operator, o.spelling ≠ name := by
  have hlexeme : Token.ofLexeme (Datum.symbol name).lexeme = Token.ofWord name := by
    simp [lexeme, render, Token.ofLexeme]
  have htoken : Token.leaf? (.identifier name) = some (.symbol name) := rfl
  rw [reread_leaf_iff h htoken, hlexeme]
  constructor
  · intro hword
    refine ⟨?_, ?_⟩
    · rintro k rfl
      rw [Token.ofWord_keyword] at hword
      cases hword
    · rintro o rfl
      rw [Token.ofWord_operator] at hword
      cases hword
  · rintro ⟨hkeyword, hoperator⟩
    rw [Token.ofWord_of_isIdentifier h.1 hkeyword hoperator, h.2, String.ofList_toList]

theorem reread_real_iff (x : Float) :
    (Datum.real x).reread = .ok (.real x) ↔
      Token.ofWord (Binary64.style.text x) = .ok (.number (.real x)) := by
  have hlexeme : Token.ofLexeme (Datum.real x).lexeme =
      Token.ofWord (Binary64.style.text x) := by
    simp [lexeme, render, Number.text, Token.ofLexeme]
  have htoken : Token.leaf? (.number (.real x)) = some (.real x) := rfl
  have hleaf : (Datum.real x).ReadableLeaf := trivial
  rw [reread_leaf_iff hleaf htoken, hlexeme]

/-- Leaves of any other kind survive. -/
theorem reread_of_readableLeaf {d : Datum} (hd : d.ReadableLeaf)
    (hsymbol : ∀ name, d ≠ .symbol name) (hreal : ∀ x, d ≠ .real x) : d.reread = .ok d := by
  cases d with
  | number n =>
    cases n with
    | int n =>
      obtain ⟨m, rfl⟩ := Int.eq_ofNat_of_zero_le hd.1
      have hbound : m < Nat.pow 10 digitLimit := by
        have := hd.2
        rwa [Int.natAbs_natCast] at this
      have htoken : Token.leaf? (.number (.int m)) = some (.int m) := rfl
      rw [reread_leaf_iff hd htoken]
      simp only [lexeme, render, Number.text, Number.intText_natCast hbound, Token.ofLexeme,
        String.ofList_toList]
      exact Token.ofWord_toDigits hbound
    | real x => exact absurd rfl (hreal x)
  | bool b =>
    have htoken : Token.leaf? (.bool b) = some (.bool b) := rfl
    rw [reread_leaf_iff hd htoken]
    cases b <;> rfl
  | str text =>
    have htoken : Token.leaf? (.str text) = some (.str text) := rfl
    rw [reread_leaf_iff hd htoken]
    simp [lexeme, Token.ofLexeme]
  | symbol name => exact absurd rfl (hsymbol name)
  | keyword k =>
    have htoken : Token.leaf? (.keyword k) = some (.keyword k) := rfl
    rw [reread_leaf_iff hd htoken]
    simpa [lexeme, render, Token.ofLexeme] using Token.ofWord_keyword k
  | operator o =>
    have htoken : Token.leaf? (.operator o) = some (.operator o) := rfl
    rw [reread_leaf_iff hd htoken]
    simpa [lexeme, render, Token.ofLexeme] using Token.ofWord_operator o
  | list items => cases hd
  | closure formals body frame => cases hd
  | nil => cases hd
  | unassigned => cases hd
  | absent => cases hd

/-- An expression that was read is read back as itself unless a symbol or a real in it
is not. -/
theorem Readable.reread_iff {d : Datum} (hd : d.Readable) :
    d.reread = .ok d ↔
      (∀ name, .symbol name ∈ d.leaves →
        (∀ k : Keyword, k.spelling ≠ name) ∧ ∀ o : Operator, o.spelling ≠ name) ∧
      ∀ x, .real x ∈ d.leaves →
        Token.ofWord (Binary64.style.text x) = .ok (.number (.real x)) := by
  rw [reread_eq_self_iff]
  constructor
  · intro h
    refine ⟨?_, ?_⟩
    · intro name hname
      exact (reread_symbol_iff (hd _ hname)).mp (h _ hname)
    · intro x hx
      exact (reread_real_iff x).mp (h _ hx)
  · rintro ⟨hsymbols, hreals⟩ x hx
    by_cases hsymbol : ∃ name, x = .symbol name
    · obtain ⟨name, rfl⟩ := hsymbol
      exact (reread_symbol_iff (hd _ hx)).mpr (hsymbols name hx)
    · by_cases hreal : ∃ r, x = .real r
      · obtain ⟨r, rfl⟩ := hreal
        exact (reread_real_iff r).mpr (hreals r hx)
      · exact reread_of_readableLeaf (hd x hx) (not_exists.mp hsymbol) (not_exists.mp hreal)

/-- Reading the text of an expression gives what rereading its leaves makes of it. -/
theorem parse_eq_self_iff {d : Datum} {text : String} (h : Scans text d.printed) :
    parse text = .ok [d] ↔ d.reread = .ok d := by
  rw [parse_eq_ok_iff, h.eq, read_printed]
  cases d.reread with
  | error fault => simp
  | ok d' => simp [Builder.add]

end Datum

/-- **Printing and reading back.** Every expression that was read has a text, and that
text reads as the one expression it came from, if and only if no symbol in it is
spelled like a reserved word and every real in it has a text that reads as this real. -/
theorem parse_render_iff {source : String} {exprs : List Datum} {e : Datum}
    (hparse : parse source = .ok exprs) (he : e ∈ exprs) :
    ∃ text, e.render = .ok text ∧
      (parse text = .ok [e] ↔
        (∀ name, .symbol name ∈ e.leaves →
          (∀ k : Keyword, k.spelling ≠ name) ∧ ∀ o : Operator, o.spelling ≠ name) ∧
        ∀ x, .number (.real x) ∈ e.leaves →
          Token.ofWord (Binary64.style.text x) = .ok (.number (.real x))) := by
  have hreadable := readable_of_parse hparse e he
  obtain ⟨text, hrender, hscans⟩ := hreadable.scans
  refine ⟨text, hrender, ?_⟩
  rw [Datum.parse_eq_self_iff hscans]
  exact hreadable.reread_iff

theorem parse_render_iff_folded_keyword :
    let e := Datum.list [.symbol "let", .str "a (b", .list [.keyword .ifThen, .int 1]]
    parse "(LET \"a (b\" (if 01))" = .ok [e] ∧
      ∃ text, e.render = .ok text ∧
        (parse text = .ok [e] ↔
          (∀ name, .symbol name ∈ e.leaves →
            (∀ k : Keyword, k.spelling ≠ name) ∧ ∀ o : Operator, o.spelling ≠ name) ∧
          ∀ x, .number (.real x) ∈ e.leaves →
            Token.ofWord (Binary64.style.text x) = .ok (.number (.real x))) := by
  intro e
  have hparse : parse "(LET \"a (b\" (if 01))" = .ok [e] := rfl
  exact ⟨hparse, parse_render_iff hparse (List.mem_singleton_self e)⟩

end SmallScheme

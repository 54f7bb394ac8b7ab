import SmallScheme.Proofs.Definitions
import SmallScheme.Proofs.ReadingOrder

/-!
# A bad word hides nothing

A word that is no token is noted and passed over: what the index tells of the rest of the text
is the same with it and without it. The definitions of a text are found by looking at the items
that follow one another, and a word at fault is none of them, wherever it stands. Everything
after it is found further on in the text, which changes positions and nothing else.

* **`Finding.sort`** — a finding without its place;
* **`walk_congr`**, **`causes_flawsFrom`**, **`collectDefinitions_congr`** — what does not depend
  on places;
* **`bad_word_hides_nothing`** — the index of a text with the word in it.
-/

namespace SmallScheme

/-- Outside strings a blank separates, and what follows it is found further on. -/
theorem locatedLexemes_append_blank {a : List Char} (b : List Char) {c : Char}
    (ha : Even (a.count '"')) (hc : Text.isBlank c) :
    locatedLexemes (a ++ c :: b) =
      locatedLexemes a ++ locatedFrom (a.length + 1) .between b := by
  have hmode := modeAfter_between_of_even 0 ha
  rw [locatedLexemes_eq, locatedFrom_append, locatedFrom_delimiter _ _ hmode
    (isWordChar_of_isBlank hc), locatedFrom_blank _ _ hc, Nat.zero_add, ← List.append_assoc,
    ← locatedFrom_eq, locatedLexemes_eq]

/-- A word between two blanks is one more lexeme. -/
theorem locatedLexemes_insert_word {a w : List Char} (b : List Char) {c d : Char}
    (ha : Even (a.count '"')) (hc : Text.isBlank c) (hd : Text.isBlank d) (hw : IsWord w) :
    locatedLexemes (a ++ c :: (w ++ d :: b)) =
      locatedLexemes a ++ ⟨a.length + 1, .word w⟩ ::
        locatedFrom (a.length + 1 + w.length + 1) .between b := by
  have hends : (Lexeme.word w).EndsBefore (d :: b) := by
    simpa [Lexeme.EndsBefore] using isWordChar_of_isBlank hd
  have hchars := locatedFrom_chars (a.length + 1) (l := .word w) hw hends
  rw [locatedFrom_blank _ _ hd] at hchars
  rw [locatedLexemes_append_blank _ ha hc]
  exact congrArg (locatedLexemes a ++ ·) hchars

namespace Editor

/-! ## What does not depend on places -/

/-- What a finding is, wherever it stands. -/
def Finding.sort : Finding → ItemShape ⊕ ProblemCause
  | .item i => .inl i.shape
  | .flaw f => .inr f.cause

/-- A lexeme turns out to be the same at any place. -/
theorem Finding.exists_ofLocated {l m : Located} (hlexeme : m.lexeme = l.lexeme) {x : Finding}
    (h : ofLocated l = .ok x) : ∃ y, ofLocated m = .ok y ∧ y.sort = x.sort := by
  obtain ⟨z, hz, rfl⟩ := exists_placed h
  refine ⟨z.placed m.start, ?_, ?_⟩
  · rw [ofLocated_eq_map, hlexeme, hz]
    rfl
  · cases z <;> rfl

theorem exists_found {ls ms : List Located}
    (hlexemes : ms.map (·.lexeme) = ls.map (·.lexeme)) {found : List Finding}
    (h : ls.mapM Finding.ofLocated = .ok found) :
    ∃ found', ms.mapM Finding.ofLocated = .ok found' ∧
      found'.map Finding.sort = found.map Finding.sort := by
  induction ls generalizing ms found with
  | nil =>
    cases h
    obtain rfl := List.map_eq_nil_iff.mp hlexemes
    exact ⟨[], rfl, rfl⟩
  | cons l ls ih =>
    obtain ⟨m, ms, rfl, hm, hms⟩ := List.map_eq_cons_iff.mp hlexemes
    obtain ⟨x, found, hx, hfound, rfl⟩ := mapM_cons_eq_ok_iff.mp h
    obtain ⟨y, hy, hsort⟩ := Finding.exists_ofLocated hm hx
    obtain ⟨found', hfound', hsorts⟩ := ih hms hfound
    refine ⟨y :: found', mapM_cons_eq_ok_iff.mpr ⟨y, found', hy, hfound', rfl⟩, ?_⟩
    rw [List.map_cons, List.map_cons, hsort, hsorts]

/-- Findings of the same sorts have items of the same shapes. -/
theorem shapes_of_sorts {xs ys : List Finding} (h : xs.map Finding.sort = ys.map Finding.sort) :
    (xs.filterMap Finding.item?).map (·.shape) = (ys.filterMap Finding.item?).map (·.shape) := by
  have hshapes (zs : List Finding) : (zs.filterMap Finding.item?).map (·.shape) =
      (zs.map Finding.sort).filterMap Sum.getLeft? := by
    rw [List.map_filterMap, List.filterMap_map]
    refine List.filterMap_congr fun z _ => ?_
    cases z <;> rfl
  rw [hshapes, hshapes, h]

theorem valueKind_congr {is js : List Item} (h : is.map (·.shape) = js.map (·.shape)) :
    valueKind is = valueKind js := by
  have hfunction {is js : List Item} (h : is.map (·.shape) = js.map (·.shape))
      (hkind : valueKind is = .function) : valueKind js = .function := by
    obtain ⟨a, b, more, rfl⟩ := valueKind_eq_function_iff.mp hkind
    obtain ⟨⟨a', _⟩, js, rfl, hshape, hjs⟩ := List.map_eq_cons_iff.mp h.symm
    obtain ⟨⟨b', _⟩, js, rfl, hshape', -⟩ := List.map_eq_cons_iff.mp hjs
    cases hshape
    cases hshape'
    rfl
  cases hi : valueKind is with
  | function => exact (hfunction h hi).symm
  | value =>
    cases hj : valueKind js with
    | value => rfl
    | function => cases hi.symm.trans (hfunction h.symm hj)

/-- The name and the kind of a definition, without its place. -/
def nameAndKind (d : String × DefinitionKind × Nat) : String × DefinitionKind :=
  (d.1, d.2.1)

theorem definition?_congr {is js : List Item} (h : is.map (·.shape) = js.map (·.shape)) :
    (definition? is).map nameAndKind = (definition? js).map nameAndKind := by
  have hsome {is js : List Item} (h : is.map (·.shape) = js.map (·.shape))
      {d : String × DefinitionKind × Nat} (hd : definition? is = some d) :
      (definition? js).map nameAndKind = some (nameAndKind d) := by
    obtain ⟨x, kind, start⟩ := d
    obtain ⟨a, value, rfl, rfl⟩ := definition?_eq_some_iff.mp hd
    obtain ⟨⟨a', _⟩, js, rfl, hshape, hjs⟩ := List.map_eq_cons_iff.mp h.symm
    obtain ⟨⟨start', _⟩, value', rfl, hshape', hvalue⟩ := List.map_eq_cons_iff.mp hjs
    cases hshape
    cases hshape'
    show some (x, valueKind value') = some (x, valueKind value)
    rw [valueKind_congr hvalue]
  cases hi : definition? is with
  | some d => exact (hsome h hi).symm
  | none =>
    cases hj : definition? js with
    | none => rfl
    | some d =>
      have hnone := hsome h.symm hj
      rw [hi] at hnone
      cases hnone

/-- A walk finds the same definitions and the same depth in items of the same shapes. -/
theorem walk_congr {is js : List Item} (h : is.map (·.shape) = js.map (·.shape)) (depth : Nat) :
    (walk depth is).definitions.map nameAndKind = (walk depth js).definitions.map nameAndKind ∧
      (walk depth is).openLists = (walk depth js).openLists := by
  induction is generalizing js depth with
  | nil =>
    obtain rfl := List.map_eq_nil_iff.mp h.symm
    exact ⟨rfl, rfl⟩
  | cons i is ih =>
    obtain ⟨⟨place, shape⟩, js, rfl, hshape, hjs⟩ := List.map_eq_cons_iff.mp h.symm
    obtain ⟨start, _⟩ := i
    cases hshape
    have hdefined : (Item.defined? ⟨start, shape⟩ depth is).map nameAndKind =
        (Item.defined? ⟨place, shape⟩ depth js).map nameAndKind := by
      cases shape with
      | opening =>
        by_cases hdepth : depth = 0
        · simpa [Item.defined?, hdepth] using definition?_congr hjs.symm
        · simp [Item.defined?, hdepth]
      | _ => rfl
    obtain ⟨hdefinitions, hopen⟩ := ih hjs.symm (Item.depthAfter ⟨place, shape⟩ depth)
    rw [walk_cons, walk_cons]
    refine ⟨?_, hopen⟩
    rw [List.map_append, List.map_append, ← Option.toList_map, ← Option.toList_map, hdefined]
    exact congrArg (_ ++ ·) hdefinitions

/-- Findings of one sort are at fault alike, and leave as many lists open. -/
theorem Finding.flawAt?_of_sort {x y : Finding} (h : x.sort = y.sort) (depth : Nat) :
    (x.flawAt? depth).map (·.cause) = (y.flawAt? depth).map (·.cause) ∧
      x.depthAfter depth = y.depthAfter depth := by
  cases x with
  | flaw f =>
    cases y with
    | flaw g =>
      have hcause : f.cause = g.cause := Sum.inr.inj h
      exact ⟨congrArg some hcause, rfl⟩
    | item j => cases h
  | item i =>
    cases y with
    | flaw g => cases h
    | item j =>
      obtain ⟨start, shape⟩ := i
      obtain ⟨place, shape'⟩ := j
      obtain rfl : shape = shape' := Sum.inl.inj h
      refine ⟨?_, rfl⟩
      cases shape with
      | closing =>
        show Option.map _ (ite ..) = Option.map _ (ite ..)
        split <;> rfl
      | _ => rfl

theorem causes_flawsFrom {xs ys : List Finding} (h : xs.map Finding.sort = ys.map Finding.sort)
    (depth : Nat) :
    (flawsFrom depth xs).map (·.cause) = (flawsFrom depth ys).map (·.cause) := by
  induction xs generalizing ys depth with
  | nil =>
    obtain rfl := List.map_eq_nil_iff.mp h.symm
    rfl
  | cons x xs ih =>
    obtain ⟨y, ys, rfl, hsort, hys⟩ := List.map_eq_cons_iff.mp h.symm
    obtain ⟨hcause, hdepth⟩ := Finding.flawAt?_of_sort hsort.symm depth
    rw [flawsFrom, flawsFrom, List.map_append, List.map_append, ← Option.toList_map,
      ← Option.toList_map, hcause, hdepth, ih hys.symm]

theorem putDefinition_congr {d e : Definition} (hname : d.name = e.name) (hkind : d.kind = e.kind)
    {ds es : List Definition}
    (h : ds.map (fun d => (d.name, d.kind)) = es.map (fun d => (d.name, d.kind))) :
    (putDefinition d ds).map (fun d => (d.name, d.kind)) =
      (putDefinition e es).map (fun d => (d.name, d.kind)) := by
  induction ds generalizing es with
  | nil =>
    obtain rfl := List.map_eq_nil_iff.mp h.symm
    simp [putDefinition, hname, hkind]
  | cons f ds ih =>
    obtain ⟨g, es, rfl, hfirst, hes⟩ := List.map_eq_cons_iff.mp h.symm
    obtain ⟨hgname, hgkind⟩ := Prod.mk.inj hfirst
    rw [putDefinition, putDefinition, hgname, ← hname]
    by_cases hsame : f.name = d.name
    · rw [if_pos hsame, if_pos hsame, List.map_cons, List.map_cons, hname, hkind, hes]
    · rw [if_neg hsame, if_neg hsame, List.map_cons, List.map_cons, hfirst, ih hes.symm]

/-- Definitions of the same names and kinds are listed alike, wherever they stand. -/
theorem collectDefinitions_congr (cs cs' : List Char)
    {found found' : List (String × DefinitionKind × Nat)}
    (h : found.map nameAndKind = found'.map nameAndKind) :
    (collectDefinitions cs found).map (fun d => (d.name, d.kind)) =
      (collectDefinitions cs' found').map (fun d => (d.name, d.kind)) := by
  induction found using List.reverseRecOn generalizing found' with
  | nil =>
    obtain rfl := List.map_eq_nil_iff.mp h.symm
    rfl
  | append_singleton found d ih =>
    rw [List.map_append] at h
    obtain ⟨earlier, rest, rfl, hearlier, hrest⟩ := List.map_eq_append_iff.mp h.symm
    obtain ⟨e, _, rfl, hlast, hnil⟩ := List.map_eq_cons_iff.mp hrest
    obtain rfl := List.map_eq_nil_iff.mp hnil
    obtain ⟨x, kind, start⟩ := d
    obtain ⟨x', kind', start'⟩ := e
    obtain ⟨hname, hkind⟩ := Prod.mk.inj hlast
    rw [collectDefinitions_concat, collectDefinitions_concat]
    exact putDefinition_congr hname.symm hkind.symm (ih hearlier.symm)

/-! ## The index -/

/-- **A bad word hides nothing.** Put a word that is no token between two parts of a text,
outside strings. If the text has an index, it has one with the word in it, too, and that lists
the same names in the same order with the same kinds, and leaves as many lists open. It has one
problem more, with the word at its place; the causes of all others are the same, in order. -/
theorem bad_word_hides_nothing {a b w : String} {e : Error} {index : Index}
    (ha : Even (a.toList.count '"')) (hne : w ≠ "") (hw : ∀ c ∈ w.toList, isWordChar c)
    (hrejected : Token.ofWord w = .error (.error e))
    (h : Index.ofText (a ++ " " ++ b) = .ok index) :
    let text := a ++ " " ++ w ++ " " ++ b
    ∃ index', Index.ofText text = .ok index' ∧
      index'.definitions.map (fun d => (d.name, d.kind)) =
        index.definitions.map (fun d => (d.name, d.kind)) ∧
      index'.openLists = index.openLists ∧
      ∃ before after,
        index'.problems = before ++ {
          cause := .unrecognized w
          position := positionAt text.toList (a.length + 1)
          length := w.length } :: after ∧
        (before ++ after).map (·.cause) = index.problems.map (·.cause) := by
  obtain ⟨found, hfound, rfl⟩ := Index.ofText_eq_ok_iff_flawsFrom.mp h
  intro text
  have hspace : Text.isBlank ' ' := by decide
  have hword : IsWord w.toList := ⟨by simpa using hne, hw⟩
  have htext : text.toList = a.toList ++ ' ' :: (w.toList ++ ' ' :: b.toList) := by
    simp [text, String.toList_append]
  have hplain : (a ++ " " ++ b).toList = a.toList ++ ' ' :: b.toList := by
    simp [String.toList_append]
  rw [hplain, locatedLexemes_append_blank _ ha hspace, mapM_append_eq_ok_iff] at hfound
  obtain ⟨before, after, rfl, hbefore, hafter⟩ := hfound
  -- what comes after the word is the same, further on
  obtain ⟨after', hafter', hsorts⟩ := exists_found
    ((map_lexeme_locatedFrom (a.toList.length + 1 + w.toList.length + 1) b.toList).trans
      (map_lexeme_locatedFrom _ b.toList).symm) hafter
  let bad : Flaw := ⟨a.length + 1, .unrecognized w, w.length⟩
  have hbad : Finding.ofLocated ⟨a.toList.length + 1, .word w.toList⟩ = .ok (.flaw bad) := by
    refine Finding.ofLocated_eq_flaw_iff.mpr (.inr ⟨w.toList, e, rfl, ?_, ?_⟩)
    · rwa [String.ofList_toList]
    · rw [String.ofList_toList]
      rfl
  have hfound' : (locatedLexemes text.toList).mapM Finding.ofLocated =
      .ok (before ++ .flaw bad :: after') := by
    rw [htext, locatedLexemes_insert_word _ ha hspace hspace hword, mapM_append_eq_ok_iff]
    exact ⟨before, _, rfl, hbefore, mapM_cons_eq_ok_iff.mpr ⟨_, _, hbad, hafter', rfl⟩⟩
  have hshapes : ((before ++ .flaw bad :: after').filterMap Finding.item?).map (·.shape) =
      ((before ++ after).filterMap Finding.item?).map (·.shape) := by
    have hitems : (before ++ .flaw bad :: after').filterMap Finding.item? =
        before.filterMap Finding.item? ++ after'.filterMap Finding.item? := List.filterMap_append
    rw [hitems, List.map_append, shapes_of_sorts hsorts, ← List.map_append, ← List.filterMap_append]
  obtain ⟨hdefinitions, hopen⟩ := walk_congr hshapes 0
  refine ⟨_, Index.ofText_eq_ok_iff_flawsFrom.mpr ⟨_, hfound', rfl⟩,
    collectDefinitions_congr _ _ hdefinitions, hopen, ?_⟩
  have hpos : 0 < bad.length := List.length_pos_of_ne_nil hword.1
  have hflaws : flawsFrom 0 (before ++ .flaw bad :: after') =
      flawsFrom 0 before ++ bad :: flawsFrom (openAfter 0 before) after' :=
    flawsFrom_append 0 before _
  refine ⟨(flawsFrom 0 before).map (·.problem text.toList),
    (flawsFrom (openAfter 0 before) after').map (·.problem text.toList), ?_, ?_⟩
  · dsimp only
    rw [hflaws, List.map_append, List.map_cons, Flaw.problem_of_pos hpos]
  · have hcauses (cs : List Char) (fs : List Flaw) :
        (fs.map (·.problem cs)).map (·.cause) = fs.map (·.cause) := by
      rw [List.map_map]
      rfl
    dsimp only
    rw [List.map_append, hcauses, hcauses, hcauses, flawsFrom_append, List.map_append,
      causes_flawsFrom hsorts]

/-- A word at fault between a parenthesis and the `define` after it. -/
theorem bad_word_hides_nothing_before_define :
    let index : Index := {
      definitions := [{ name := "x", kind := .value, position := ⟨0, 9⟩ }]
      problems := [⟨.unmatchedClose, ⟨0, 13⟩, 1⟩] }
    Index.ofText "( define x 2))" = .ok index ∧
      ∃ index', Index.ofText "( 1y define x 2))" = .ok index' ∧
        index'.definitions.map (fun d => (d.name, d.kind)) = [("x", .value)] ∧
        index'.openLists = 0 ∧
        ∃ before after, index'.problems = before ++ ⟨.unrecognized "1y", ⟨0, 2⟩, 2⟩ :: after ∧
          (before ++ after).map (·.cause) = [.unmatchedClose] := by
  intro index
  have hindex : Index.ofText "( define x 2))" = .ok index := by
    let found : List Finding := [.item ⟨0, .opening⟩, .item ⟨2, .word (.keyword .define)⟩,
      .item ⟨9, .word (.identifier "x")⟩, .item ⟨11, .word (.number (.int 2))⟩,
      .item ⟨12, .closing⟩, .item ⟨13, .closing⟩]
    have hfound : (locatedLexemes "( define x 2))".toList).mapM Finding.ofLocated = .ok found := by
      dsimp only [found]
      rfl
    refine Index.ofText_eq_ok_iff_flawsFrom.mpr ⟨found, hfound, ?_⟩
    dsimp only [index, found]
    rfl
  have hplain : "(" ++ " " ++ "define x 2))" = "( define x 2))" := by decide
  have htext : "(" ++ " " ++ "1y" ++ " " ++ "define x 2))" = "( 1y define x 2))" := by decide
  have hposition : positionAt "( 1y define x 2))".toList ("(".length + 1) = ⟨0, 2⟩ := by decide
  have hbad := bad_word_hides_nothing (a := "(") (b := "define x 2))") (w := "1y")
    (e := .unrecognized "1y") (by decide) (by decide) (isWord_of_all rfl).2 rfl (hplain ▸ hindex)
  rw [htext] at hbad
  dsimp only at hbad
  rw [hposition] at hbad
  exact ⟨hindex, hbad⟩

end Editor

end SmallScheme

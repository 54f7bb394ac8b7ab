import Mathlib.Data.List.Forall2
import SmallScheme.Proofs.Findings
import SmallScheme.Proofs.Places
import SmallScheme.Text.Casing

/-!
# The index lists the definitions of a program

The index never builds expressions: it counts parentheses and looks at the few items
after one that opens a list at the top level. For a text that can be read as a program
this finds its definitions all the same.

* **`walk_names`**, **`walk_split`** — walking through the items of expressions collects
  the definitions among them, each with the offset of its name;
* **`names_collectDefinitions`**, **`last_of_mem_collectDefinitions`** — of several
  definitions of a name the last one is kept, in the place of the first;
* **`index_lists_definitions`** — both together, with the places in the text.
-/

namespace SmallScheme

/-! ## Definitions among expressions -/

namespace Datum

/-- The name that an expression defines: it is a list that starts with `define` and that
name. -/
def definedName? : Datum → Option String
  | .list (.keyword .define :: .symbol x :: _) => some x
  | _ => none

theorem definedName?_eq_some_iff {d : Datum} {x : String} :
    d.definedName? = some x ↔ ∃ value, d = .list (.keyword .define :: .symbol x :: value) := by
  constructor
  · intro h
    unfold definedName? at h
    split at h
    · cases h
      exact ⟨_, rfl⟩
    · cases h
  · rintro ⟨value, rfl⟩
    rfl

/-- An expression is a list between parentheses or a leaf with one token. -/
theorem IsExpression.list_or_leaf {d : Datum} (hd : d.IsExpression) :
    (∃ items, d = .list items ∧ ∀ e ∈ items, e.IsExpression) ∨
      ∃ t : Token, t.leaf? = some d ∧ d.tokens = [t] := by
  cases d with
  | list items => exact .inl ⟨items, rfl, (isExpression_list items).mp hd⟩
  | closure => exact absurd (hd _ List.mem_cons_self) Bool.false_ne_true
  | nil => exact absurd (hd _ List.mem_cons_self) Bool.false_ne_true
  | unassigned => exact absurd (hd _ List.mem_cons_self) Bool.false_ne_true
  | absent => exact absurd (hd _ List.mem_cons_self) Bool.false_ne_true
  | _ => exact .inr ⟨_, rfl, rfl⟩

/-- The first token of expressions opens a list, or it is the first expression. -/
theorem flatten_eq_cons {ds : List Datum} (hds : ∀ d ∈ ds, d.IsExpression) {t : Token}
    {ts : List Token} (h : flatten ds = t :: ts) :
    ∃ d ds', ds = d :: ds' ∧
      ((∃ items, d = .list items ∧ t = .opening) ∨ t.leaf? = some d ∧ flatten ds' = ts) := by
  cases ds with
  | nil =>
    rw [flatten_nil] at h
    cases h
  | cons d ds =>
    refine ⟨d, ds, rfl, ?_⟩
    rw [flatten] at h
    rcases (hds d List.mem_cons_self).list_or_leaf with ⟨items, rfl, -⟩ | ⟨u, hleaf, htokens⟩
    · rw [tokens] at h
      exact .inl ⟨items, rfl, (List.cons.inj h).1.symm⟩
    · rw [htokens] at h
      obtain ⟨rfl, rfl⟩ := List.cons.inj h
      exact .inr ⟨hleaf, rfl⟩

end Datum

/-! ## Names in the text -/

namespace Token

theorem ofWord_eq_identifier {word : String} {x : String}
    (h : ofWord word = .ok (.identifier x)) :
    isIdentifier word.toList ∧ x = String.ofList (word.toList.map Char.toLower) := by
  unfold ofWord at h
  dsimp only at h
  split at h
  · cases h
  split at h
  · cases h
  split at h
  · unfold ofInteger at h
    split at h <;> cases h
  split at h
  · cases h
  split at h
  · cases h
  split at h
  · cases h
  split at h
  · next hidentifier =>
    cases h
    exact ⟨hidentifier, rfl⟩
  · cases h

/-- The one letter that the two ways of folding treat differently is in no identifier. -/
theorem toLower_of_isIdentifier {w : List Char} (h : isIdentifier w) {c : Char} (hc : c ∈ w) :
    Text.toLower c = c.toLower := by
  have hletter : startsIdentifier c ∨ continuesIdentifier c := by
    obtain ⟨d, ds, rfl⟩ := List.exists_cons_of_ne_nil (List.ne_nil_of_mem hc)
    simp only [isIdentifier, Bool.and_eq_true, List.all_eq_true] at h
    rcases List.mem_cons.mp hc with rfl | hc
    · exact .inl h.1
    · exact .inr (h.2 c hc)
  unfold Text.toLower
  by_cases hcode : c.toNat = 0x212A
  · obtain rfl : c = Char.ofNat 0x212A := by rw [← hcode, Char.ofNat_toNat]
    exact absurd hletter (by decide)
  · rw [if_neg hcode]

/-- An identifier is the lower case of the word that it was written as. -/
theorem ofLexeme_eq_identifier {l : Lexeme} {x : String}
    (h : ofLexeme l = .ok (.identifier x)) :
    ∃ w, l = .word w ∧ (∀ c ∈ w, isWordChar c) ∧ x.length = w.length ∧
      Text.lowerCase (String.ofList w) = x := by
  cases l with
  | word w =>
    obtain ⟨hidentifier, hx⟩ := ofWord_eq_identifier h
    rw [String.toList_ofList] at hidentifier hx
    have hfold : w.map Text.toLower = w.map Char.toLower :=
      List.map_congr_left fun c hc => toLower_of_isIdentifier hidentifier hc
    refine ⟨w, rfl, (isWord_of_isIdentifier hidentifier).2, ?_, ?_⟩
    · rw [hx, String.length_ofList, List.length_map]
    · rw [Text.lowerCase, String.toList_ofList, hx, hfold]
  | _ => cases h

end Token

theorem isNewline_of_isWordChar {c : Char} (hc : isWordChar c) : Text.isNewline c = false := by
  rw [Text.isNewline, beq_eq_false_iff_ne]
  rintro rfl
  exact absurd hc (by decide)

namespace Editor

/-! ## Items of expressions -/

/-- Items stand for tokens, one by one. -/
abbrev Spell (items : List Item) (ts : List Token) : Prop :=
  List.Forall₂ (fun i t => i.shape.Stands t) items ts

theorem Spell.of_append {items : List Item} {ts us : List Token} (h : Spell items (ts ++ us)) :
    ∃ is js, items = is ++ js ∧ Spell is ts ∧ Spell js us :=
  ⟨items.take ts.length, items.drop ts.length, (List.take_append_drop _ _).symm,
    List.forall₂_take_append items ts us h, List.forall₂_drop_append items ts us h⟩

theorem Spell.of_flatten_nil {items : List Item} (h : Spell items (Datum.flatten [])) :
    items = [] := by
  rw [Datum.flatten_nil] at h
  exact List.forall₂_nil_right_iff.mp h

theorem Spell.of_flatten_cons {items : List Item} {d : Datum} {ds : List Datum}
    (h : Spell items (Datum.flatten (d :: ds))) :
    ∃ is js, items = is ++ js ∧ Spell is d.tokens ∧ Spell js (Datum.flatten ds) := by
  rw [Datum.flatten] at h
  exact h.of_append

theorem ItemShape.Stands.of_opening {shape : ItemShape} (h : shape.Stands .opening) :
    shape = .opening := by
  cases h with
  | opening => rfl
  | word hleaf => cases hleaf

theorem ItemShape.Stands.of_closing {shape : ItemShape} (h : shape.Stands .closing) :
    shape = .closing := by
  cases h with
  | closing => rfl
  | word hleaf => cases hleaf

/-- The items of a list: an opening parenthesis, those of its items, and a closing one. -/
theorem Spell.of_list {items : List Item} {ds : List Datum}
    (h : Spell items (Datum.list ds).tokens) :
    ∃ start inner stop, items = ⟨start, .opening⟩ :: (inner ++ [⟨stop, .closing⟩]) ∧
      Spell inner (Datum.flatten ds) := by
  rw [Datum.tokens] at h
  obtain ⟨⟨start, shape⟩, items, hopening, hrest, rfl⟩ := List.forall₂_cons_right_iff.mp h
  obtain ⟨inner, last, rfl, hinner, hlast⟩ := Spell.of_append hrest
  obtain ⟨⟨stop, shape'⟩, _, hclosing, hnil, rfl⟩ := List.forall₂_cons_right_iff.mp hlast
  obtain rfl := List.forall₂_nil_right_iff.mp hnil
  obtain rfl := hopening.of_opening
  obtain rfl := hclosing.of_closing
  exact ⟨start, inner, stop, rfl, hinner⟩

/-- A lexeme with a token is an item. -/
theorem Finding.ofLocated_of_token {l : Located} {t : Token} (h : Token.ofLexeme l.lexeme = .ok t) :
    ∃ shape : ItemShape, ofLocated l = .ok (.item ⟨l.start, shape⟩) ∧ shape.Stands t := by
  obtain ⟨start, lexeme⟩ := l
  cases lexeme with
  | opening =>
    cases h
    exact ⟨_, rfl, .opening⟩
  | closing =>
    cases h
    exact ⟨_, rfl, .closing⟩
  | quoted content =>
    cases h
    exact ⟨_, rfl, .string _⟩
  | unterminated content => cases h
  | word spelling =>
    rw [Token.ofLexeme] at h
    obtain ⟨d, hleaf, -⟩ := Token.leaf_of_ofWord h
    refine ⟨.word t, ?_, .word hleaf⟩
    simp only [ofLocated, h]

/-- The items of a text that has tokens: one for each, at the place of its lexeme. -/
theorem items_of_tokens {ls : List Located} {ts : List Token}
    (h : (ls.map (·.lexeme)).mapM Token.ofLexeme = .ok ts) :
    ∃ items : List Item, ls.mapM Finding.ofLocated = .ok (items.map .item) ∧
      items.map (·.start) = ls.map (·.start) ∧ Spell items ts := by
  induction ls generalizing ts with
  | nil =>
    cases h
    exact ⟨[], rfl, rfl, .nil⟩
  | cons l ls ih =>
    obtain ⟨t, ts, ht, hts, rfl⟩ := mapM_cons_eq_ok_iff.mp h
    obtain ⟨shape, hl, hstands⟩ := Finding.ofLocated_of_token ht
    obtain ⟨items, hitems, hstarts, hspell⟩ := ih hts
    refine ⟨⟨l.start, shape⟩ :: items, ?_, ?_, .cons hstands hspell⟩
    · exact mapM_cons_eq_ok_iff.mpr ⟨_, _, hl, hitems, rfl⟩
    · rw [List.map_cons, List.map_cons, hstarts]

/-! ## Walking through expressions -/

/-- A leaf changes nothing. -/
theorem walk_leaf {i : Item} {t : Token} {d : Datum} (hleaf : t.leaf? = some d)
    (hi : i.shape.Stands t) (depth : Nat) (rest : List Item) :
    walk depth (i :: rest) = walk depth rest := by
  obtain ⟨start, shape⟩ := i
  cases hi with
  | opening => cases hleaf
  | closing => cases hleaf
  | string content => rfl
  | word _ => rfl

/-- The items of a leaf are one item that changes nothing. -/
theorem Spell.of_leaf {items : List Item} {t : Token} {d : Datum} (hleaf : t.leaf? = some d)
    (htokens : d.tokens = [t]) (h : Spell items d.tokens) :
    ∃ i, items = [i] ∧ ∀ depth rest, walk depth (i :: rest) = walk depth rest := by
  rw [htokens] at h
  obtain ⟨i, _, hi, hnil, rfl⟩ := List.forall₂_cons_right_iff.mp h
  obtain rfl := List.forall₂_nil_right_iff.mp hnil
  exact ⟨i, rfl, walk_leaf hleaf hi⟩

/-- Inside a list, expressions are passed over as a whole if each of them is. -/
theorem walk_inside_flatten {ds : List Datum}
    (h : ∀ d ∈ ds, ∀ {items : List Item}, Spell items d.tokens → ∀ depth rest,
      walk (depth + 1) (items ++ rest) = walk (depth + 1) rest)
    {items : List Item} (hitems : Spell items (Datum.flatten ds)) (depth : Nat)
    (rest : List Item) : walk (depth + 1) (items ++ rest) = walk (depth + 1) rest := by
  induction ds generalizing items with
  | nil =>
    obtain rfl := hitems.of_flatten_nil
    rfl
  | cons d ds ih =>
    obtain ⟨hd, hds⟩ := List.forall_mem_cons.mp h
    obtain ⟨is, js, rfl, his, hjs⟩ := hitems.of_flatten_cons
    rw [List.append_assoc, hd his, ih hds hjs]

/-- Inside a list an expression is passed over. -/
theorem walk_inside {d : Datum} (hd : d.IsExpression) {items : List Item}
    (hitems : Spell items d.tokens) (depth : Nat) (rest : List Item) :
    walk (depth + 1) (items ++ rest) = walk (depth + 1) rest := by
  induction d using Datum.treeInduction generalizing items depth rest with
  | list ds ih =>
    rw [Datum.isExpression_list] at hd
    obtain ⟨start, inner, stop, rfl, hinner⟩ := hitems.of_list
    have hflatten := walk_inside_flatten
      (fun d hmem items hitems depth rest => ih d hmem (hd d hmem) hitems depth rest)
      hinner (depth + 1) (⟨stop, .closing⟩ :: rest)
    calc walk (depth + 1) (⟨start, .opening⟩ :: (inner ++ [⟨stop, .closing⟩]) ++ rest)
        = walk (depth + 1 + 1) (inner ++ ⟨stop, .closing⟩ :: rest) := by
          simp [walk]
      _ = walk (depth + 1 + 1) (⟨stop, .closing⟩ :: rest) := hflatten
      _ = walk (depth + 1) rest := by simp [walk]
  | _ =>
    rcases hd.list_or_leaf with ⟨_, heq, -⟩ | ⟨t, hleaf, htokens⟩
    · cases heq
    · obtain ⟨i, rfl, hwalk⟩ := hitems.of_leaf hleaf htokens
      exact hwalk _ rest

/-- A list at the top level is passed over, once it has been looked at for a definition. -/
theorem walk_list {ds : List Datum} (hds : ∀ d ∈ ds, d.IsExpression) {inner : List Item}
    (hinner : Spell inner (Datum.flatten ds)) (start stop : Nat) (rest : List Item) :
    (walk 0 (⟨start, .opening⟩ :: (inner ++ [⟨stop, .closing⟩]) ++ rest)).definitions =
      (definition? (inner ++ ⟨stop, .closing⟩ :: rest)).toList ++ (walk 0 rest).definitions := by
  have hinside := walk_inside_flatten (fun d hd items hitems => walk_inside (hds d hd) hitems)
    hinner 0 (⟨stop, .closing⟩ :: rest)
  simp [walk, hinside]

/-! ## Looking for a definition -/

theorem definition?_eq_some_iff {items : List Item} {x : String} {kind : DefinitionKind}
    {start : Nat} :
    definition? items = some (x, kind, start) ↔
      ∃ a value, items = ⟨a, .word (.keyword .define)⟩ :: ⟨start, .word (.identifier x)⟩ :: value ∧
        kind = valueKind value := by
  constructor
  · intro h
    unfold definition? at h
    split at h
    · cases h
      exact ⟨_, _, rfl, rfl⟩
    · cases h
  · rintro ⟨a, value, rfl, rfl⟩
    rfl

theorem valueKind_eq_function_iff {items : List Item} :
    valueKind items = .function ↔
      ∃ a b more, items = ⟨a, .opening⟩ :: ⟨b, .word (.keyword .lambda)⟩ :: more := by
  constructor
  · intro h
    unfold valueKind at h
    split at h
    · exact ⟨_, _, _, rfl⟩
    · cases h
  · rintro ⟨a, b, more, rfl⟩
    rfl

/-- Where the items of expressions start with a leaf, the expressions do. -/
theorem Spell.of_word {inner : List Item} {ds : List Datum} (hds : ∀ d ∈ ds, d.IsExpression)
    (hinner : Spell inner (Datum.flatten ds)) {a stop : Nat} {t : Token} {rest more : List Item}
    (h : inner ++ ⟨stop, .closing⟩ :: rest = ⟨a, .word t⟩ :: more) :
    ∃ d ds' inner', t.leaf? = some d ∧ ds = d :: ds' ∧ inner = ⟨a, .word t⟩ :: inner' ∧
      Spell inner' (Datum.flatten ds') ∧ more = inner' ++ ⟨stop, .closing⟩ :: rest := by
  rcases List.append_eq_cons_iff.mp h with ⟨-, hclosing⟩ | ⟨inner', rfl, rfl⟩
  · cases hclosing
  obtain ⟨u, ts, hu, hts, hflatten⟩ := List.forall₂_cons_left_iff.mp hinner
  cases hu with
  | word hleaf =>
    obtain ⟨d, ds', rfl, ⟨items, rfl, rfl⟩ | ⟨hd, rfl⟩⟩ := Datum.flatten_eq_cons hds hflatten
    · cases hleaf
    · exact ⟨d, ds', inner', hd, rfl, rfl, hts, rfl⟩

/-- The items of expressions that start with a list. -/
theorem Spell.of_opening {inner : List Item} {ds : List Datum} (hds : ∀ d ∈ ds, d.IsExpression)
    (hinner : Spell inner (Datum.flatten ds)) {a stop : Nat} {rest more : List Item}
    (h : inner ++ ⟨stop, .closing⟩ :: rest = ⟨a, .opening⟩ :: more) :
    ∃ items ds' is stop' rest', ds = .list items :: ds' ∧ Spell is (Datum.flatten items) ∧
      more = is ++ ⟨stop', .closing⟩ :: rest' := by
  rcases List.append_eq_cons_iff.mp h with ⟨-, hclosing⟩ | ⟨inner', rfl, rfl⟩
  · cases hclosing
  obtain ⟨u, ts, hu, hts, hflatten⟩ := List.forall₂_cons_left_iff.mp hinner
  cases hu with
  | opening =>
    obtain ⟨d, ds', rfl, ⟨items, rfl, -⟩ | ⟨hleaf, -⟩⟩ := Datum.flatten_eq_cons hds hflatten
    · obtain ⟨first, js, heq, hfirst, -⟩ := hinner.of_flatten_cons
      obtain ⟨_, is, stop', rfl, his⟩ := hfirst.of_list
      obtain ⟨-, rfl⟩ := List.cons.inj heq
      exact ⟨items, ds', is, stop', js ++ ⟨stop, .closing⟩ :: rest, rfl, his, by simp⟩
    · cases hleaf

/-- The first item of expressions that start with a leaf other than a string. -/
theorem Spell.cons_word {inner : List Item} {t : Token} {d : Datum} {ds : List Datum}
    (hleaf : t.leaf? = some d) (hstr : ∀ content, t ≠ .str content)
    (h : Spell inner (Datum.flatten (d :: ds))) :
    ∃ a inner', inner = ⟨a, .word t⟩ :: inner' ∧ Spell inner' (Datum.flatten ds) := by
  rw [Datum.flatten, (Token.token?_of_leaf? hleaf).2.1] at h
  obtain ⟨⟨a, shape⟩, inner', hshape, hinner', rfl⟩ := List.forall₂_cons_right_iff.mp h
  cases hshape with
  | opening => cases hleaf
  | closing => cases hleaf
  | string content => exact absurd rfl (hstr content)
  | word _ => exact ⟨a, inner', rfl, hinner'⟩

/-- A definition defines a function if and only if its value is a list that starts with
`lambda`. -/
theorem valueKind_items {value : List Datum} (hvalue : ∀ d ∈ value, d.IsExpression)
    {inner : List Item} (hinner : Spell inner (Datum.flatten value)) (stop : Nat)
    (rest : List Item) :
    valueKind (inner ++ ⟨stop, .closing⟩ :: rest) = .function ↔
      ∃ parts more, value = .list (.keyword .lambda :: parts) :: more := by
  rw [valueKind_eq_function_iff]
  constructor
  · rintro ⟨a, b, more, h⟩
    obtain ⟨items, ds, is, stop', rest', rfl, his, hmore⟩ := hinner.of_opening hvalue h
    have hitems := (Datum.isExpression_list items).mp (hvalue _ List.mem_cons_self)
    obtain ⟨d, parts, _, hleaf, rfl, -⟩ := his.of_word hitems hmore.symm
    cases hleaf
    exact ⟨parts, ds, rfl⟩
  · rintro ⟨parts, more, rfl⟩
    obtain ⟨first, js, rfl, hfirst, -⟩ := hinner.of_flatten_cons
    obtain ⟨a, is, stop', rfl, his⟩ := hfirst.of_list
    obtain ⟨b, more', rfl, -⟩ := Spell.cons_word (t := .keyword .lambda) rfl (by simp) his
    exact ⟨a, b, _, rfl⟩

/-- What walking through the items of an expression at the top level finds: its definition,
with the place of its name, if it is one. -/
inductive Describes : Datum → List Item → List (String × DefinitionKind × Nat) → Prop
  | other {d : Datum} {items : List Item} : d.definedName? = none → Describes d items []
  | definition {x : String} {value : List Datum} {i j : Item} {start : Nat} {shape : ItemShape}
      {more : List Item} {kind : DefinitionKind} :
      (kind = .function ↔ ∃ parts rest, value = .list (.keyword .lambda :: parts) :: rest) →
      Describes (.list (.keyword .define :: .symbol x :: value)) (i :: j :: ⟨start, shape⟩ :: more)
        [(x, kind, start)]

theorem describes_list {ds : List Datum} (hds : ∀ d ∈ ds, d.IsExpression) {inner : List Item}
    (hinner : Spell inner (Datum.flatten ds)) (start stop : Nat) (rest : List Item) :
    Describes (.list ds) (⟨start, .opening⟩ :: (inner ++ [⟨stop, .closing⟩]))
      (definition? (inner ++ ⟨stop, .closing⟩ :: rest)).toList := by
  cases hname : (Datum.list ds).definedName? with
  | none =>
    -- items that look like a definition come from expressions that are one
    have hnone : definition? (inner ++ ⟨stop, .closing⟩ :: rest) = none := by
      by_contra hsome
      obtain ⟨⟨x, kind, place⟩, hdefinition⟩ := Option.ne_none_iff_exists'.mp hsome
      obtain ⟨a, value, heq, -⟩ := definition?_eq_some_iff.mp hdefinition
      obtain ⟨_, ds, inner, hkeyword, rfl, -, hinner', hvalue⟩ := hinner.of_word hds heq
      obtain ⟨_, ds, _, hidentifier, rfl, -⟩ :=
        hinner'.of_word (List.forall_mem_cons.mp hds).2 hvalue.symm
      cases hkeyword
      cases hidentifier
      cases hname
    rw [hnone]
    exact .other hname
  | some x =>
    obtain ⟨value, heq⟩ := Datum.definedName?_eq_some_iff.mp hname
    cases heq
    obtain ⟨a, named, rfl, hnamed⟩ :=
      Spell.cons_word (t := .keyword .define) rfl (by simp) hinner
    obtain ⟨b, is, rfl, his⟩ := Spell.cons_word (t := .identifier x) rfl (by simp) hnamed
    have hvalue := (List.forall_mem_cons.mp (List.forall_mem_cons.mp hds).2).2
    exact .definition (valueKind_items hvalue his stop rest)

theorem walk_expression {d : Datum} (hd : d.IsExpression) {items : List Item}
    (hitems : Spell items d.tokens) (rest : List Item) :
    ∃ found, (walk 0 (items ++ rest)).definitions = found ++ (walk 0 rest).definitions ∧
      Describes d items found := by
  rcases hd.list_or_leaf with ⟨ds, rfl, hds⟩ | ⟨t, hleaf, htokens⟩
  · obtain ⟨start, inner, stop, rfl, hinner⟩ := hitems.of_list
    exact ⟨_, walk_list hds hinner start stop rest, describes_list hds hinner start stop rest⟩
  · obtain ⟨i, rfl, hwalk⟩ := hitems.of_leaf hleaf htokens
    refine ⟨[], ?_, .other ?_⟩
    · rw [List.singleton_append, hwalk]
      rfl
    · cases t <;> cases hleaf <;> rfl

theorem Describes.names {d : Datum} {items : List Item}
    {found : List (String × DefinitionKind × Nat)} (h : Describes d items found) :
    found.map (·.1) = d.definedName?.toList := by
  cases h with
  | other hnone => rw [hnone]; rfl
  | definition _ => rfl

/-- Walking through the items of expressions collects the names that they define. -/
theorem walk_names {exprs : List Datum} (hexprs : ∀ e ∈ exprs, e.IsExpression) {items : List Item}
    (hitems : Spell items (Datum.flatten exprs)) :
    (walk 0 items).definitions.map (·.1) = exprs.filterMap Datum.definedName? := by
  induction exprs generalizing items with
  | nil =>
    obtain rfl := hitems.of_flatten_nil
    rfl
  | cons d ds ih =>
    obtain ⟨hd, hds⟩ := List.forall_mem_cons.mp hexprs
    obtain ⟨is, js, rfl, his, hjs⟩ := hitems.of_flatten_cons
    obtain ⟨found, hwalk, hfound⟩ := walk_expression hd his js
    rw [hwalk, List.map_append, hfound.names, ih hds hjs, List.filterMap_cons]
    cases d.definedName? <;> rfl

/-- Among expressions with these items there is a definition of `x`, its name starts at
`start`, and the expressions after it define `later`. -/
def DefinedAt (exprs : List Datum) (items : List Item) (x : String) (kind : DefinitionKind)
    (start : Nat) (later : List String) : Prop :=
  ∃ before value after, exprs = before ++ .list (.keyword .define :: .symbol x :: value) :: after ∧
    (kind = .function ↔ ∃ parts rest, value = .list (.keyword .lambda :: parts) :: rest) ∧
    later = after.filterMap Datum.definedName? ∧
    ∃ is shape js, items = is ++ ⟨start, shape⟩ :: js ∧
      is.length = (Datum.flatten before).length + 2

theorem DefinedAt.cons {ds : List Datum} {js : List Item} {x : String} {kind : DefinitionKind}
    {start : Nat} {later : List String} (h : DefinedAt ds js x kind start later) {d : Datum}
    {is : List Item} (his : Spell is d.tokens) :
    DefinedAt (d :: ds) (is ++ js) x kind start later := by
  obtain ⟨before, value, after, rfl, hkind, hlater, is', shape, js, rfl, hlength⟩ := h
  refine ⟨d :: before, value, after, rfl, hkind, hlater, is ++ is', shape, js, by simp, ?_⟩
  rw [Datum.flatten, List.length_append, List.length_append, hlength, his.length_eq]
  omega

/-- Each definition that walking collects is that of an expression, and its name is the
second item after the parenthesis. -/
theorem walk_split {exprs : List Datum} (hexprs : ∀ e ∈ exprs, e.IsExpression) {items : List Item}
    (hitems : Spell items (Datum.flatten exprs)) {x : String} {kind : DefinitionKind} {start : Nat}
    {earlier later : List (String × DefinitionKind × Nat)}
    (h : (walk 0 items).definitions = earlier ++ (x, kind, start) :: later) :
    DefinedAt exprs items x kind start (later.map (·.1)) := by
  induction exprs generalizing items earlier with
  | nil =>
    obtain rfl := hitems.of_flatten_nil
    exact absurd h (by simp [walk])
  | cons d ds ih =>
    obtain ⟨hd, hds⟩ := List.forall_mem_cons.mp hexprs
    obtain ⟨is, js, rfl, his, hjs⟩ := hitems.of_flatten_cons
    obtain ⟨found, hwalk, hfound⟩ := walk_expression hd his js
    rw [hwalk] at h
    cases hfound with
    | other _ => exact (ih hds hjs h).cons his
    | definition hkind =>
      cases earlier with
      | nil =>
        obtain ⟨hhead, rfl⟩ := List.cons.inj h
        cases hhead
        refine ⟨[], _, ds, rfl, hkind, walk_names hds hjs, ?_⟩
        exact ⟨[_, _], _, _, rfl, by simp⟩
      | cons _ earlier => exact (ih hds hjs (List.cons.inj h).2).cons his

/-! ## Names that are defined again -/

theorem names_putDefinition (d : Definition) (ds : List Definition) :
    (putDefinition d ds).map (·.name) =
      if d.name ∈ ds.map (·.name) then ds.map (·.name) else ds.map (·.name) ++ [d.name] := by
  induction ds with
  | nil => rfl
  | cons e es ih =>
    rw [putDefinition]
    by_cases he : e.name = d.name
    · simp [he]
    · have he' : d.name ≠ e.name := fun h => he h.symm
      rw [if_neg he, List.map_cons, ih]
      simp only [List.map_cons, List.mem_cons, he', false_or]
      split <;> rfl

/-- What is put takes the place of what had its name. -/
theorem mem_putDefinition {d e : Definition} {ds : List Definition}
    (hds : (ds.map (·.name)).Nodup) (h : e ∈ putDefinition d ds) :
    e = d ∨ e ∈ ds ∧ e.name ≠ d.name := by
  induction ds with
  | nil => exact .inl (List.mem_singleton.mp h)
  | cons f fs ih =>
    obtain ⟨hf, hfs⟩ := List.nodup_cons.mp hds
    rw [putDefinition] at h
    by_cases hname : f.name = d.name
    · rw [if_pos hname] at h
      rcases List.mem_cons.mp h with rfl | he
      · exact .inl rfl
      · refine .inr ⟨List.mem_cons_of_mem f he, fun heq => hf ?_⟩
        exact List.mem_map.mpr ⟨e, he, heq.trans hname.symm⟩
    · rw [if_neg hname] at h
      rcases List.mem_cons.mp h with rfl | he
      · exact .inr ⟨List.mem_cons_self, hname⟩
      · rcases ih hfs he with rfl | ⟨he, hne⟩
        · exact .inl rfl
        · exact .inr ⟨List.mem_cons_of_mem f he, hne⟩

theorem collectDefinitions_concat (text : List Char) (found : List (String × DefinitionKind × Nat))
    (x : String) (kind : DefinitionKind) (start : Nat) :
    collectDefinitions text (found ++ [(x, kind, start)]) =
      putDefinition { name := x, kind, position := positionAt text start }
        (collectDefinitions text found) := by
  rw [collectDefinitions, List.foldl_append]
  rfl

/-- Each name is listed once, where it was defined first. -/
theorem names_collectDefinitions (text : List Char)
    (found : List (String × DefinitionKind × Nat)) :
    (collectDefinitions text found).map (·.name) = (found.map (·.1)).eraseDups ∧
      ((collectDefinitions text found).map (·.name)).Nodup := by
  induction found using List.reverseRecOn with
  | nil => exact ⟨rfl, List.nodup_nil⟩
  | append_singleton found last ih =>
    obtain ⟨x, kind, start⟩ := last
    obtain ⟨hnames, hnodup⟩ := ih
    rw [collectDefinitions_concat, names_putDefinition, List.map_append, List.eraseDups_append,
      hnames]
    rw [hnames] at hnodup
    by_cases hx : x ∈ found.map (·.1)
    · simp [hx, hnodup, List.removeAll]
    · have hne : ∀ y ∈ found.map (·.1), y ≠ x := fun y hy heq => hx (heq ▸ hy)
      have hone : [x].eraseDups = [x] := rfl
      simpa [hx, hone, hnodup, List.removeAll, List.nodup_append] using hne

/-- Of several definitions of a name the last one is listed. -/
theorem last_of_mem_collectDefinitions {text : List Char}
    {found : List (String × DefinitionKind × Nat)} {d : Definition}
    (hd : d ∈ collectDefinitions text found) :
    ∃ earlier start later, found = earlier ++ (d.name, d.kind, start) :: later ∧
      d.position = positionAt text start ∧ d.name ∉ later.map (·.1) := by
  induction found using List.reverseRecOn with
  | nil => exact absurd hd List.not_mem_nil
  | append_singleton found last ih =>
    obtain ⟨x, kind, start⟩ := last
    rw [collectDefinitions_concat] at hd
    rcases mem_putDefinition (names_collectDefinitions text found).2 hd with rfl | ⟨hd, hne⟩
    · exact ⟨found, start, [], rfl, rfl, List.not_mem_nil⟩
    · obtain ⟨earlier, start', later, rfl, hposition, hlater⟩ := ih hd
      refine ⟨earlier, start', later ++ [(x, kind, start)], by simp, hposition, ?_⟩
      rw [List.map_append, List.mem_append, not_or]
      exact ⟨hlater, by simpa using hne⟩

/-! ## The definitions of a program -/

/-- An identifier among the tokens of a text stands in it at the offset of its lexeme, after
a part that has the tokens before it. -/
theorem exists_name_at {text : String} {ts us : List Token} {x : String}
    (h : tokenize text = .ok (ts ++ .identifier x :: us)) {start : Nat}
    (hstart : ((locatedLexemes text.toList).map (·.start))[ts.length]? = some start) :
    ∃ a w b, text.toList = a ++ (w ++ b) ∧ start = a.length ∧
      tokenize (String.ofList a) = .ok ts ∧ (∀ c ∈ w, Text.isNewline c = false) ∧
      x.length = w.length ∧ Text.lowerCase (String.ofList w) = x := by
  rw [tokenize_eq_mapM, mapM_eq_ok_iff, List.map_append] at h
  obtain ⟨before, rest, hlexemes, hbefore, hrest⟩ := List.map_eq_append_iff.mp h
  obtain ⟨lexeme, after, rfl, hlexeme, -⟩ := List.map_eq_cons_iff.mp hrest
  obtain ⟨ls₁, ls, hls, rfl, hmap⟩ := List.map_eq_append_iff.mp hlexemes
  obtain ⟨l, ls₂, rfl, rfl, -⟩ := List.map_eq_cons_iff.mp hmap
  have hlength : ls₁.length = ts.length := by simpa using congrArg List.length hbefore
  have hl : l.start = start := by simpa [hls, ← hlength] using hstart
  obtain ⟨a, b, htext, ha, hlocated⟩ := locatedLexemes_split hls
  obtain ⟨w, hw, hchars, hx, hlower⟩ := Token.ofLexeme_eq_identifier hlexeme
  refine ⟨a, w, b, ?_, by rw [← hl, ha], ?_, ?_, hx, hlower⟩
  · rw [htext, hw]
    rfl
  · rw [tokenize_eq_mapM, String.toList_ofList, lexemes, hlocated, mapM_eq_ok_iff]
    exact hbefore
  · exact fun c hc => isNewline_of_isWordChar (hchars c hc)

/-- The name of a definition stands in the text where the third lexeme of the definition
starts. -/
theorem place_of_definition {text : String} {before value after : List Datum} {x : String}
    (h : tokenize text = .ok (Datum.flatten
      (before ++ .list (.keyword .define :: .symbol x :: value) :: after))) {start : Nat}
    (hstart : ((locatedLexemes text.toList).map (·.start))[(Datum.flatten before).length + 2]? =
      some start) :
    (∃ a b, text.toList = a ++ b ∧ start = a.length ∧
      tokenize (String.ofList a) = .ok (Datum.flatten before ++ [.opening, .keyword .define])) ∧
    ∃ line, (Text.newlineParts text.toList)[(positionAt text.toList start).line]? = some line ∧
      Text.lowerCase (String.ofList
        ((line.drop (positionAt text.toList start).column).take x.length)) = x := by
  have hname : Datum.flatten (before ++ .list (.keyword .define :: .symbol x :: value) :: after) =
      (Datum.flatten before ++ [.opening, .keyword .define]) ++ .identifier x ::
        (Datum.flatten value ++ .closing :: Datum.flatten after) := by
    simp [Datum.flatten, Datum.tokens, Datum.token?]
  rw [hname] at h
  obtain ⟨a, w, b, htext, rfl, ha, hw, hlength, hlower⟩ :=
    exists_name_at h (by simpa using hstart)
  refine ⟨⟨a, w ++ b, htext, rfl, ha⟩, ?_⟩
  rw [htext]
  obtain ⟨line, hline, htake⟩ := exists_line_at a b hw
  refine ⟨line, hline, ?_⟩
  rw [hlength, htake, hlower]

/-- The index of a program is made from the items that its tokens stand for. -/
theorem exists_index_of_parse {text : String} {exprs : List Datum} (h : parse text = .ok exprs) :
    ∃ index items, Index.ofText text = .ok index ∧
      index.definitions = collectDefinitions text.toList (walk 0 items).definitions ∧
      items.map (·.start) = (locatedLexemes text.toList).map (·.start) ∧
      Spell items (Datum.flatten exprs) := by
  obtain ⟨htokens, -⟩ := tokenize_of_parse h
  rw [tokenize_eq_mapM] at htokens
  obtain ⟨items, hfound, hstarts, hspell⟩ := items_of_tokens htokens
  have hitems : (items.map Finding.item).filterMap Finding.item? = items := by
    rw [List.filterMap_map]
    exact List.filterMap_some
  refine ⟨_, items, Index.ofText_eq_ok_iff.mpr ⟨_, hfound, rfl⟩, ?_, hstarts, hspell⟩
  rw [hitems]

/-- The index of a program lists the names that it defines at the top level, in the order of
their first definitions. Each is listed as it was defined last: as a function if its value
was a `lambda`, and at the place in the text where that definition has the name. -/
theorem index_lists_definitions (text : String) (exprs : List Datum) (h : parse text = .ok exprs) :
    ∃ index, Index.ofText text = .ok index ∧
      index.definitions.map (·.name) = (exprs.filterMap Datum.definedName?).eraseDups ∧
      ∀ d ∈ index.definitions, ∃ before value after,
        exprs = before ++ .list (.keyword .define :: .symbol d.name :: value) :: after ∧
        d.name ∉ after.filterMap Datum.definedName? ∧
        (d.kind = .function ↔ ∃ parts rest, value = .list (.keyword .lambda :: parts) :: rest) ∧
        (∃ a b, text.toList = a ++ b ∧ d.position = positionAt text.toList a.length ∧
          tokenize (String.ofList a) =
            .ok (Datum.flatten before ++ [.opening, .keyword .define])) ∧
        ∃ line, (Text.newlineParts text.toList)[d.position.line]? = some line ∧
          Text.lowerCase (String.ofList ((line.drop d.position.column).take d.name.length)) =
            d.name := by
  obtain ⟨htokens, hexprs⟩ := tokenize_of_parse h
  obtain ⟨index, items, hindex, hdefinitions, hstarts, hspell⟩ := exists_index_of_parse h
  refine ⟨index, hindex, ?_, ?_⟩
  · rw [hdefinitions, (names_collectDefinitions _ _).1, walk_names hexprs hspell]
  · intro d hd
    rw [hdefinitions] at hd
    obtain ⟨earlier, start, later, hwalk, hposition, hlast⟩ := last_of_mem_collectDefinitions hd
    obtain ⟨before, value, after, rfl, hkind, hlater, is, shape, js, rfl, hlength⟩ :=
      walk_split hexprs hspell hwalk
    refine ⟨before, value, after, rfl, hlater ▸ hlast, hkind, ?_⟩
    have hstart : ((locatedLexemes text.toList).map (·.start))[
        (Datum.flatten before).length + 2]? = some start := by
      rw [← hstarts]
      simp [← hlength]
    obtain ⟨⟨a, b, htext, rfl, ha⟩, hline⟩ := place_of_definition htokens hstart
    rw [hposition]
    exact ⟨⟨a, b, htext, rfl, ha⟩, hline⟩

theorem index_lists_definitions_redefinition :
    let text := "(define X 1)\n(define y \")\")\n(define x (lambda (a) a))"
    let exprs : List Datum := [
      .list [.keyword .define, .symbol "x", .number (.int 1)],
      .list [.keyword .define, .symbol "y", .str ")"],
      .list [.keyword .define, .symbol "x",
        .list [.keyword .lambda, .list [.symbol "a"], .symbol "a"]]]
    parse text = .ok exprs ∧ ∃ index, Index.ofText text = .ok index ∧
      index.definitions.map (·.name) = ["x", "y"] ∧
      ∀ d ∈ index.definitions, ∃ before value after,
        exprs = before ++ .list (.keyword .define :: .symbol d.name :: value) :: after ∧
        d.name ∉ after.filterMap Datum.definedName? ∧
        (d.kind = .function ↔ ∃ parts rest, value = .list (.keyword .lambda :: parts) :: rest) := by
  intro text exprs
  have hparse : parse text = .ok exprs := by
    dsimp only [text, exprs]
    rfl
  obtain ⟨index, hindex, hnames, hdefinitions⟩ := index_lists_definitions text exprs hparse
  refine ⟨hparse, index, hindex, hnames, fun d hd => ?_⟩
  obtain ⟨before, value, after, hexprs, hlast, hkind, -⟩ := hdefinitions d hd
  exact ⟨before, value, after, hexprs, hlast, hkind⟩

end Editor

end SmallScheme

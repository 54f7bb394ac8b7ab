import SmallScheme.Editor.Workspace
import SmallScheme.Proofs.Findings

/-!
# Documents and what is published of them

An editor opens, changes and closes documents in any order, also documents that are not
open, and with texts that cannot be indexed. `Server.receive` is one such notification,
and `Server.receive_cases` says all that it can do. After any number of them, what is
stored and what was published last belong together, document by document: `Current`.

Main statement: `documents_current`.
-/

namespace SmallScheme.Editor

/-! ## Workspaces -/

namespace Workspace

variable (w : Workspace) {uri other : String}

theorem get?_erase_self (uri : String) : (w.erase uri).get? uri = none := by
  rw [get?, List.lookup_eq_none_iff]
  intro entry hentry
  have hne : entry.1 ≠ uri := by simpa [erase] using (List.mem_filter.mp hentry).2
  exact bne_iff_ne.mpr hne.symm

theorem get?_erase_of_ne (hne : other ≠ uri) : (w.erase uri).get? other = w.get? other := by
  obtain ⟨documents⟩ := w
  simp only [get?, erase]
  induction documents with
  | nil => rfl
  | cons entry documents ih =>
    obtain ⟨name, d⟩ := entry
    by_cases hname : name = uri
    · subst hname
      rw [List.filter_cons_of_neg (by simp), ih, List.lookup_cons, beq_false_of_ne hne]
    · rw [List.filter_cons_of_pos (by simpa using hname), List.lookup_cons, List.lookup_cons, ih]

theorem get?_insert_self (uri : String) (d : Document) : (w.insert uri d).get? uri = some d := by
  simp [get?, insert]

theorem get?_insert_of_ne (hne : other ≠ uri) (d : Document) :
    (w.insert uri d).get? other = w.get? other := by
  rw [← w.get?_erase_of_ne hne]
  simp only [get?, insert, erase, List.lookup_cons, beq_false_of_ne hne]

end Workspace

/-! ## Notifications -/

namespace Notification

/-- The document that a notification is about. -/
def uri : Notification → String
  | .opened uri _ => uri
  | .changed uri _ => uri
  | .closed uri => uri

/-- The text that the document has after a notification, unless it is closed: the last one
given, or the one that it had. -/
def text? (w : Workspace) : Notification → Option String
  | .opened _ text => some text
  | .changed uri texts => some (texts.getLast?.getD (((w.get? uri).map Document.text).getD ""))
  | .closed _ => none

end Notification

theorem Workspace.notify_of_text (w : Workspace) {n : Notification} {text : String}
    (htext : n.text? w = some text) : w.notify n = w.store n.uri text := by
  cases n with
  | opened uri given =>
    cases htext
    rfl
  | changed uri texts =>
    cases htext
    simp only [notify, Notification.uri]
    cases texts.getLast? with
    | none => rfl
    | some last => rfl
  | closed uri => cases htext

/-- A workspace and what was published from it, the latest first. -/
structure Server where
  workspace : Workspace := {}
  published : List Publication := []

namespace Server

/-- Take a notification. If its text cannot be indexed, nothing changes and nothing is
published. -/
def receive (s : Server) (n : Notification) : Server :=
  match s.workspace.notify n with
  | .ok (workspace, publication) => { workspace, published := publication :: s.published }
  | .error _ => s

/-- Take notifications, those that fail included, from the start on. -/
def afterAll (ns : List Notification) : Server :=
  ns.foldl receive {}

/-- What was published last for a document, if anything was. -/
def lastPublished? (s : Server) (uri : String) : Option (List Diagnostic) :=
  (s.published.find? (·.uri = uri)).map (·.diagnostics)

variable (s : Server)

/-! ## One notification -/

/-- The document gets a text and its index, the text cannot be indexed, or the document is
closed. -/
theorem receive_cases (n : Notification) :
    (∃ text index, n.text? s.workspace = some text ∧ Index.ofText text = .ok index ∧
      s.receive n =
        { workspace := s.workspace.insert n.uri { text, index }
          published := { uri := n.uri, diagnostics := diagnostics text index } :: s.published }) ∨
    (∃ text o, n.text? s.workspace = some text ∧ Index.ofText text = .error o ∧
      s.workspace.notify n = .error o ∧ s.receive n = s) ∨
    (n.text? s.workspace = none ∧
      s.receive n =
        { workspace := s.workspace.erase n.uri
          published := { uri := n.uri, diagnostics := [] } :: s.published }) := by
  cases htext : n.text? s.workspace with
  | none =>
    cases n with
    | closed uri => exact .inr (.inr ⟨rfl, rfl⟩)
    | opened | changed => cases htext
  | some text =>
    have hnotify := s.workspace.notify_of_text htext
    rw [Workspace.store] at hnotify
    cases hindex : Index.ofText text with
    | ok index =>
      rw [hindex] at hnotify
      exact .inl ⟨text, index, rfl, hindex, by rw [receive, hnotify]; rfl⟩
    | error o =>
      rw [hindex] at hnotify
      exact .inr (.inl ⟨text, o, rfl, hindex, hnotify, by rw [receive, hnotify]; rfl⟩)

/-- A notification is about one document: nothing of another one changes. -/
theorem receive_other {n : Notification} {uri : String} (hne : uri ≠ n.uri) :
    (s.receive n).workspace.get? uri = s.workspace.get? uri ∧
      (s.receive n).lastPublished? uri = s.lastPublished? uri := by
  have hpublished (diagnostics : List Diagnostic) :
      ({ uri := n.uri, diagnostics } :: s.published : List Publication).find? (·.uri = uri) =
        s.published.find? (·.uri = uri) :=
    List.find?_cons_of_neg (by simpa using hne.symm)
  rcases s.receive_cases n with ⟨text, index, -, -, hreceive⟩ | ⟨text, o, -, -, -, hreceive⟩ |
    ⟨-, hreceive⟩
  · rw [hreceive, lastPublished?, hpublished]
    exact ⟨s.workspace.get?_insert_of_ne hne _, rfl⟩
  · rw [hreceive]
    exact ⟨rfl, rfl⟩
  · rw [hreceive, lastPublished?, hpublished]
    exact ⟨s.workspace.get?_erase_of_ne hne, rfl⟩

theorem lastPublished?_cons (workspace : Workspace) (uri : String) (diagnostics : List Diagnostic)
    (earlier : List Publication) :
    lastPublished? { workspace, published := { uri, diagnostics } :: earlier } uri =
      some diagnostics := by
  simp [lastPublished?]

/-- What is stored and what was published last belong together: the index of a document is that
of its text and the diagnostics are those of the two; of a document that is not stored nothing
is shown. -/
def Current (uri : String) : Prop :=
  (∀ d, s.workspace.get? uri = some d →
    Index.ofText d.text = .ok d.index ∧
      s.lastPublished? uri = some (diagnostics d.text d.index)) ∧
  (s.workspace.get? uri = none → s.lastPublished? uri = none ∨ s.lastPublished? uri = some [])

/-- One notification keeps all documents current. -/
theorem Current.receive {s : Server} {uri : String} (h : s.Current uri) (n : Notification) :
    (s.receive n).Current uri := by
  by_cases huri : uri = n.uri
  · subst huri
    rcases s.receive_cases n with ⟨text, index, -, hindex, hreceive⟩ |
      ⟨text, o, -, -, -, hreceive⟩ | ⟨-, hreceive⟩ <;> rw [hreceive]
    · rw [Current, lastPublished?_cons, Workspace.get?_insert_self]
      refine ⟨?_, by rintro ⟨⟩⟩
      rintro d ⟨⟩
      exact ⟨hindex, rfl⟩
    · exact h
    · rw [Current, lastPublished?_cons, Workspace.get?_erase_self]
      exact ⟨by rintro d ⟨⟩, fun _ => .inr rfl⟩
  · obtain ⟨hget, hlast⟩ := s.receive_other huri
    rw [Current, hget, hlast]
    exact h

/-- So do all of them. -/
theorem Current.foldl_receive {s : Server} {uri : String} (h : s.Current uri)
    (ns : List Notification) : (ns.foldl Server.receive s).Current uri := by
  induction ns generalizing s with
  | nil => exact h
  | cons n ns ih => exact ih (h.receive n)

theorem current_afterAll (ns : List Notification) (uri : String) : (afterAll ns).Current uri := by
  have hstart : ({} : Server).Current uri := ⟨by rintro d ⟨⟩, fun _ => .inl rfl⟩
  exact hstart.foldl_receive ns

end Server

open Server in
/-- **Documents and diagnostics stay current.** After any sequence of notifications, those that
fail included: every stored document has the index of its text, and its diagnostics were the
last to be published for it; for a document that is not stored, nothing was published last or
the empty list was. Whatever notification comes next, it changes nothing of any other document;
its own document has the text given last with the index of that text, or is no longer stored if
it was closed; and if the text cannot be indexed, nothing changes at all. -/
theorem documents_current (ns : List Notification) :
    let s := afterAll ns
    (∀ uri d, s.workspace.get? uri = some d →
      Index.ofText d.text = .ok d.index ∧
        s.lastPublished? uri = some (diagnostics d.text d.index)) ∧
    (∀ uri, s.workspace.get? uri = none →
      s.lastPublished? uri = none ∨ s.lastPublished? uri = some []) ∧
    ∀ n : Notification,
      (∀ uri, uri ≠ n.uri →
        (s.receive n).workspace.get? uri = s.workspace.get? uri ∧
          (s.receive n).lastPublished? uri = s.lastPublished? uri) ∧
      (∀ text index, n.text? s.workspace = some text → Index.ofText text = .ok index →
        (s.receive n).workspace.get? n.uri = some { text, index }) ∧
      (∀ text o, n.text? s.workspace = some text → Index.ofText text = .error o →
        s.workspace.notify n = .error o ∧ s.receive n = s) ∧
      (n.text? s.workspace = none → (s.receive n).workspace.get? n.uri = none) := by
  intro s
  refine ⟨?_, ?_, ?_⟩
  · intro uri d hd
    exact (current_afterAll ns uri).1 d hd
  · intro uri hnone
    exact (current_afterAll ns uri).2 hnone
  · intro n
    refine ⟨fun uri hne => s.receive_other hne, ?_⟩
    rcases s.receive_cases n with ⟨text, index, htext, hindex, hreceive⟩ |
      ⟨text, o, htext, hindex, hnotify, hreceive⟩ | ⟨htext, hreceive⟩ <;> rw [htext]
    · refine ⟨?_, ?_, by rintro ⟨⟩⟩
      · rintro _ index' ⟨⟩ hindex'
        obtain rfl : index' = index := Except.ok.inj (hindex'.symm.trans hindex)
        rw [hreceive]
        exact Workspace.get?_insert_self _ _ _
      · rintro _ o ⟨⟩ hindex'
        rw [hindex] at hindex'
        cases hindex'
    · refine ⟨?_, ?_, by rintro ⟨⟩⟩
      · rintro _ index ⟨⟩ hindex'
        rw [hindex] at hindex'
        cases hindex'
      · rintro _ o' ⟨⟩ hindex'
        obtain rfl : o' = o := Except.error.inj (hindex'.symm.trans hindex)
        exact ⟨hnotify, hreceive⟩
    · refine ⟨by rintro text index ⟨⟩, by rintro text o ⟨⟩, ?_⟩
      intro _
      rw [hreceive]
      exact Workspace.get?_erase_self _ _

open Server in
/-- A document with an open list, and a change of it to an integer with too many digits: the
document and its warning stay. -/
theorem documents_current_failed_change :
    let long := String.ofList (List.replicate (digitLimit + 1) '1')
    let s := afterAll [.opened "a" "("]
    let change : Notification := .changed "a" ["x", long]
    s.workspace.get? "a" = some { text := "(", index := { openLists := 1 } } ∧
      s.lastPublished? "a" = some [unclosedWarning "(" 1] ∧
      (∃ o, s.workspace.notify change = .error o) ∧ s.receive change = s ∧
      (s.lastPublished? "b" = none ∨ s.lastPublished? "b" = some []) ∧
      (s.receive (.opened "a" "")).workspace.get? "b" = s.workspace.get? "b" := by
  intro long s change
  have hindex : Index.ofText "(" = .ok { openLists := 1 } := by
    refine Index.ofText_eq_ok_iff.mpr ⟨[.item ⟨0, .opening⟩], rfl, ?_⟩
    have hflaws : [Finding.item ⟨0, .opening⟩].filterMap Finding.flaw? = [] := rfl
    have hwalk : walk 0 ([Finding.item ⟨0, .opening⟩].filterMap Finding.item?) =
        { openLists := 1 } := rfl
    simp only [hflaws, hwalk, List.append_nil, List.map_nil, List.mergeSort_nil]
    rfl
  obtain ⟨o, ho⟩ : ∃ o, Index.ofText long = .error o := by
    have hdigits (n : Nat) : Text.isDigits (List.replicate (n + 1) '1') := by
      simp [Text.isDigits, List.replicate_succ]
    have hlength : digitLimit < (List.replicate (digitLimit + 1) '1').length := by
      rw [List.length_replicate]
      exact Nat.lt_succ_self _
    refine Index.ofText_eq_error_iff.mpr ⟨_, ?_, hdigits digitLimit, hlength⟩
    rw [String.toList_ofList, (Text.isWord_of_isDigits (hdigits digitLimit)).lexemes]
    exact List.mem_singleton_self _
  obtain ⟨-, -, hopen⟩ := documents_current []
  have hstored : s.workspace.get? "a" = some { text := "(", index := { openLists := 1 } } :=
    (hopen (.opened "a" "(")).2.1 _ _ rfl hindex
  obtain ⟨hdocuments, hothers, hnext⟩ := documents_current [.opened "a" "("]
  obtain ⟨hfails, hsame⟩ := (hnext change).2.2.1 long o rfl ho
  have hother : s.workspace.get? "b" = none :=
    ((hopen (.opened "a" "(")).1 "b" (by decide)).1
  exact ⟨hstored, (hdocuments "a" _ hstored).2, ⟨o, hfails⟩, hsame, hothers "b" hother,
    ((hnext (.opened "a" "")).1 "b" (by decide)).1⟩

end SmallScheme.Editor

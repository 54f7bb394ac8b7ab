import SmallScheme.Editor.Cursor
import SmallScheme.Editor.Diagnostic
import SmallScheme.Text.Casing

/-!
# The documents of an editor

A workspace holds the open documents with their indexes. Each change of a
document is answered by publishing its diagnostics; questions are answered from
the index. A text that cannot be indexed changes nothing.
-/

namespace SmallScheme.Editor

/-! ## Built-in forms -/

/-- A built-in form: its head and the words after it. -/
structure Builtin where
  name : String
  parameters : List String
deriving Repr, DecidableEq

/-- The form as it is written. -/
def Builtin.signature (b : Builtin) : String :=
  "(" ++ " ".intercalate (b.name :: b.parameters) ++ ")"

/-- All built-in forms: the special forms, then the operators. -/
def builtins : List Builtin :=
  Keyword.all.map (fun k => { name := k.spelling, parameters := k.parameters }) ++
    Operator.all.map (fun o => { name := o.spelling, parameters := o.parameters })

/-- The built-in form of a name. -/
def builtin? (name : String) : Option Builtin :=
  builtins.find? (·.name = name)

/-- What is told of a definition: its name, its kind and where it stands, counted
from one. -/
def Definition.describe (d : Definition) : String :=
  d.name ++ " - " ++ d.kind.word ++ " (defined at " ++ toString (d.position.line + 1) ++ ":" ++
    toString (d.position.column + 1) ++ ")"

/-- What is told of a word: the form of a built-in, or the definition that the word
names in any case. -/
def Index.describe? (i : Index) (word : String) : Option String :=
  match builtin? word with
  | some b => some b.signature
  | none => (i.find? (Text.lowerCase word)).map Definition.describe

/-! ## Documents -/

/-- A text and its index. -/
structure Document where
  text : String
  index : Index
deriving Repr, DecidableEq

/-- The open documents by name. -/
structure Workspace where
  documents : List (String × Document) := []
deriving Repr, DecidableEq

/-- What an editor tells of a document. -/
inductive Notification where
  | opened (uri : String) (text : String)
  /-- The document was changed to each of these texts in turn. -/
  | changed (uri : String) (texts : List String)
  | closed (uri : String)
deriving Repr, DecidableEq

/-- The diagnostics of a document, as they are sent to the editor. -/
structure Publication where
  uri : String
  diagnostics : List Diagnostic
deriving Repr, DecidableEq

namespace Workspace

/-- The document of a name. -/
def get? (w : Workspace) (uri : String) : Option Document :=
  w.documents.lookup uri

/-- Forget the document of a name. -/
def erase (w : Workspace) (uri : String) : Workspace :=
  { w with documents := w.documents.filter (·.1 ≠ uri) }

/-- Put a document in the place of the one of its name, if there is one. -/
def insert (w : Workspace) (uri : String) (d : Document) : Workspace :=
  { w with documents := (uri, d) :: w.documents.filter (·.1 ≠ uri) }

/-- The names of the open documents, in alphabetical order. -/
def openNames (w : Workspace) : List String :=
  (w.documents.map (·.1)).mergeSort (fun a b => !(b < a))

/-- Index a text, keep it, and publish its diagnostics. -/
def store (w : Workspace) (uri text : String) : Except Oversized (Workspace × Publication) := do
  let index ← Index.ofText text
  return (w.insert uri { text, index }, { uri, diagnostics := diagnostics text index })

/-- Take a notification. A change without texts indexes the document again, or an
empty one. -/
def notify (w : Workspace) : Notification → Except Oversized (Workspace × Publication)
  | .opened uri text => w.store uri text
  | .changed uri texts =>
    match texts.getLast? with
    | some text => w.store uri text
    | none => w.store uri (((w.get? uri).map Document.text).getD "")
  | .closed uri => .ok (w.erase uri, { uri, diagnostics := [] })

/-! ## Questions -/

/-- What is told of the word at a position. -/
def hover (w : Workspace) (uri : String) (p : Position) : Except CursorFault (Option String) :=
  match w.get? uri with
  | none => .ok none
  | some d => do return (← wordAt d.text p).word?.bind d.index.describe?

/-- The definitions of a document. -/
def symbols? (w : Workspace) (uri : String) : Option (List Definition) :=
  (w.get? uri).map (·.index.definitions)

/-- The characters of a defined name. -/
def nameRange (d : Definition) : Range :=
  .ofLength d.position d.name.length

/-- What a completion inserts. -/
inductive CompletionKind where
  | keyword
  | function
  | value
deriving Repr, DecidableEq

/-- A word that can be inserted. -/
structure Completion where
  label : String
  kind : CompletionKind
  detail? : Option String
deriving Repr, DecidableEq

/-- The completion of a built-in form. -/
def completionOfBuiltin (b : Builtin) : Completion :=
  { label := b.name, kind := .keyword, detail? := some b.signature }

/-- The completion of a definition. -/
def completionOfDefinition (d : Definition) : Completion :=
  { label := d.name
    kind := match d.kind with
      | .function => .function
      | .value => .value
    detail? := none }

/-- The words that can be inserted into a document: the built-in forms, then its
definitions. -/
def completions (w : Workspace) (uri : String) : List Completion :=
  builtins.map completionOfBuiltin ++
    ((w.symbols? uri).getD []).map completionOfDefinition

/-- The built-in form that is being typed at a position. -/
def signatureAt? (w : Workspace) (uri : String) (p : Position) : Option Builtin := do
  let d ← w.get? uri
  let callee ← calleeOf? (lineBefore d.text p)
  builtin? callee

end Workspace

end SmallScheme.Editor

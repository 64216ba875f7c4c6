import DependencyAudit.FileSystem.Confine
import DependencyAudit.Text.Case
import DependencyAudit.Toml.Scope

/-!
# Keep lists

A keep list names packages that are never removed, each with an optional reason. It is a TOML
document with an array `keep` of tables. Keys are matched without regard to case, and keys
that mean nothing here are ignored.
-/

namespace DependencyAudit

/-- A package that is never removed. -/
structure KeepEntry where
  name : Text
  /-- Why it stays. -/
  reason : Text
  deriving DecidableEq, Repr

/-- The packages that are never removed. -/
abbrev KeepList := List KeepEntry

namespace KeepEntry

/-- The fields of an entry. -/
inductive Field
  | name
  | reason
  deriving DecidableEq, Repr

/-- The field that a key means. -/
def field? (key : Text) : Option Field :=
  if key.lower = Text.ofString "name" then some .name
  else if key.lower = Text.ofString "reason" then some .reason
  else none

/-- Sets what a pair means for an entry; the fields are texts. -/
def set? (e : KeepEntry) (key : Toml.Key) (v : Toml.Value) : Option KeepEntry :=
  match key with
  | [] => none
  | first :: more =>
    match field? first with
    | none => some e
    | some field =>
      match more, v with
      | [], .text t =>
        match field with
        | .name => some { e with name := t }
        | .reason => some { e with reason := t }
      | _, _ => none

/-- The entry that an inline table describes. -/
def ofValue? : Toml.Value → Option KeepEntry
  | .table members => members.foldlM (fun e (key, v) => e.set? key v) ⟨[], []⟩
  | _ => none

end KeepEntry

namespace KeepList

/-- Where the pairs of the open table go. -/
inductive Target
  /-- To the document itself. -/
  | document
  /-- To the entry added last. -/
  | lastEntry
  /-- Nowhere: the table means nothing here. -/
  | nowhere
  /-- To a text, which takes none. -/
  | field
  deriving DecidableEq, Repr

/-- A keep list in the making. -/
structure Draft where
  /-- The keys defined so far. -/
  scope : Toml.Scope
  /-- The path of the open table. -/
  path : Toml.Key
  target : Target
  entries : List KeepEntry

namespace Draft

/-- The draft before the first expression. -/
def start : Draft := ⟨.empty, [], .document, []⟩

/-- Is the key that of the list? -/
def isKeep (key : Text) : Bool := key.lower = Text.ofString "keep"

/-- Changes the entry added last. -/
def setLast? (entries : List KeepEntry) (key : Toml.Key) (v : Toml.Value) :
    Option (List KeepEntry) :=
  match entries.reverse with
  | [] => none
  | last :: before => (last.set? key v).map fun e => (e :: before).reverse

/-- Sets what a pair means for the document. -/
def setDocument? (entries : List KeepEntry) (key : Toml.Key) (v : Toml.Value) :
    Option (List KeepEntry) :=
  match key with
  | [] => none
  | first :: more =>
    if !isKeep first then some entries
    else
      match more, v with
      | [], .array items => items.mapM KeepEntry.ofValue?
      | _, _ => none

/-- Where the pairs behind a table header go. -/
def tableTarget? (entries : List KeepEntry) : Toml.Key → Option Target
  | [] => none
  | first :: more =>
    if !isKeep first then some .nowhere
    else if entries.isEmpty then none
    else
      match more with
      | [] => some .lastEntry
      | second :: others =>
        match KeepEntry.field? second, others with
        | none, _ => some .nowhere
        | some _, [] => some .field
        | some _, _ => none

/-- Where the pairs behind the header of an array element go, and the entries by then. -/
def elementTarget? (entries : List KeepEntry) (isFirst : Bool) :
    Toml.Key → Option (Target × List KeepEntry)
  | [] => none
  | first :: more =>
    if !isKeep first then some (.nowhere, entries)
    else
      match more with
      | [] => some (.lastEntry, (if isFirst then [] else entries) ++ [⟨[], []⟩])
      | second :: _ =>
        if entries.isEmpty || (KeepEntry.field? second).isSome then none
        else some (.nowhere, entries)

/-- Takes note of an expression. -/
def add? (d : Draft) : Toml.Expression → Option Draft
  | .pair key v =>
    if d.target = .nowhere then some d
    else do
      let scope ← d.scope.definePair? d.path key v
      let entries ← match d.target with
        | .document => setDocument? d.entries key v
        | .lastEntry => setLast? d.entries key v
        | _ => none
      some { d with scope, entries }
  | .header key => do
    let scope ← Toml.Scope.openTable? key (d.scope.updateAt .closeDotted d.path)
    let target ← tableTarget? d.entries key
    some { d with scope, target, path := key }
  | .arrayHeader key => do
    let (scope, isFirst) ← Toml.Scope.openElement? key (d.scope.updateAt .closeDotted d.path)
    let (target, entries) ← elementTarget? d.entries isFirst key
    some ⟨scope, key, target, entries⟩

end Draft

/-- The entries of a keep list. -/
def ofText? (text : Text) : Option KeepList := do
  let expressions ← Toml.parse? text
  let draft ← expressions.foldlM Draft.add? Draft.start
  some draft.entries

/-- The number of the first entry without a name, counted from one. -/
def nameless? (list : KeepList) : Option Nat :=
  (list.findIdx? (·.name.isEmpty)).map (· + 1)

/-- Reads the keep list in a file. Every entry needs a name. -/
def read (fs : FileSystem) (path : Text) : Except Fault KeepList :=
  match fs.content path with
  | .error e => .error (.within (Text.concat ["failed to read ", Path.base path]) (.system e))
  | .ok text =>
    match ofText? text with
    | none =>
      .error (.within (Text.concat ["failed to parse ", Path.base path]) (.defect .toml))
    | some list =>
      match list.nameless? with
      | some n =>
        .error (.plain (Text.concat
          ["keep entry ", Text.ofNat n, " is missing required 'name' field"]))
      | none => .ok list

/-- The usual name of the keep list. -/
def defaultName : Text := "DEPTRIM.toml"

/-- Reads the keep list of a project. A missing file is an empty list; a file outside the root is
refused. -/
def load (fs : FileSystem) (root fileName : Text) : Except Fault KeepList :=
  let name := if fileName.isEmpty then defaultName else fileName
  match fs.confine root name with
  | .error f => .error (.within name f)
  | .ok path =>
    match fs.stat path with
    | .error ⟨_, _, .notFound⟩ => .ok []
    | _ => read fs path

/-- Is the package never removed? -/
def has (list : KeepList) (name : Text) : Bool :=
  list.any (·.name == name)

/-- Why the package stays: the reason of its first entry. -/
def reason (list : KeepList) (name : Text) : Text :=
  ((list.find? (·.name == name)).map (·.reason)).getD []

/-- Splits names into those that may be removed and those that stay. -/
def split (list : KeepList) (names : List Text) : List Text × List Text :=
  (names.filter (!list.has ·), names.filter list.has)

end KeepList

end DependencyAudit

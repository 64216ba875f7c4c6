import DependencyAudit.Toml.Document

/-!
# Defined keys

A key may be given a value only once, a table may be opened only once, and a value cannot be
extended. The keys that have been defined so far form a tree, which is checked and extended
with every expression.
-/

namespace DependencyAudit.Toml

/-- What a defined key stands for. -/
inductive ScopeKind
  | value
  | table
  | tableArray
  deriving DecidableEq, Repr

/-- A defined key with the keys below it. -/
inductive Scope
  | node (kind : ScopeKind) (closed : Bool) (dotted : Bool) (keys : List (Text × Scope))
  deriving Repr

namespace Scope

/-- The scope of a document before its first expression. -/
def empty : Scope := node .table false false []

/-- What the key stands for. -/
def kind : Scope → ScopeKind
  | node kind _ _ _ => kind

/-- Was the table opened by a header, or may it not be extended by dotted keys any more? -/
def closed : Scope → Bool
  | node _ closed _ _ => closed

/-- The keys below. -/
def keys : Scope → List (Text × Scope)
  | node _ _ _ keys => keys

/-- Puts a key below. -/
def put (s : Scope) (name : Text) (child : Scope) : Scope :=
  match s with
  | node kind closed dotted keys =>
    if (keys.lookup name).isSome then
      node kind closed dotted (keys.map fun (n, c) => if n = name then (n, child) else (n, c))
    else node kind closed dotted (keys ++ [(name, child)])

mutual

/-- Closes the tables that dotted keys have made. -/
def closeDotted : Scope → Scope
  | node kind closed dotted keys => node kind (closed || dotted) false (closeDottedAll keys)

/-- Closes the tables that dotted keys have made, in a row of scopes. -/
def closeDottedAll : List (Text × Scope) → List (Text × Scope)
  | [] => []
  | (name, s) :: more => (name, closeDotted s) :: closeDottedAll more

end

/-- Changes the scope at a path. -/
def updateAt (change : Scope → Scope) : Key → Scope → Scope
  | [], s => change s
  | name :: more, s =>
    match s.keys.lookup name with
    | some child => s.put name (updateAt change more child)
    | none => s

/-- Opens a table by a header. -/
def openTable? : Key → Scope → Option Scope
  | [], _ => none
  | [name], s =>
    match s.keys.lookup name with
    | some (node .table false dotted keys) => some (s.put name (node .table true dotted keys))
    | some _ => none
    | none => some (s.put name (node .table true false []))
  | name :: more, s =>
    match s.keys.lookup name with
    | some child =>
      if child.kind = .value then none else (openTable? more child).map (s.put name)
    | none => (openTable? more (node .table false false [])).map (s.put name)

/-- Opens the next element of a table array by a header. Also tells whether it is the first
one. -/
def openElement? : Key → Scope → Option (Scope × Bool)
  | [], _ => none
  | [name], s =>
    match s.keys.lookup name with
    | some (node .tableArray closed dotted _) =>
      some (s.put name (node .tableArray closed dotted []), false)
    | some _ => none
    | none => some (s.put name (node .tableArray true false []), true)
  | name :: more, s =>
    match s.keys.lookup name with
    | some child =>
      if child.kind = .value then none
      else (openElement? more child).map fun (c, first) => (s.put name c, first)
    | none =>
      (openElement? more (node .table false false [])).map fun (c, first) => (s.put name c, first)

/-- Defines a dotted key as a value. -/
def define? : Key → Scope → Option Scope
  | [], _ => none
  | [name], s =>
    match s.keys.lookup name with
    | some _ => none
    | none => some (s.put name (node .value false true []))
  | name :: more, s =>
    match s.keys.lookup name with
    | some child =>
      if child.kind ≠ .table || child.closed then none
      else (define? more child).map (s.put name)
    | none => (define? more (node .table false true [])).map (s.put name)

mutual

/-- Are the keys of the inline tables in a value defined once each? -/
def isSound : Value → Bool
  | .array items => allSound items
  | .table members => membersSound empty members
  | _ => true

/-- Are all values of a row sound? -/
def allSound : List Value → Bool
  | [] => true
  | v :: more => isSound v && allSound more

/-- Can the members of an inline table be defined one after the other? -/
def membersSound (s : Scope) : List (Key × Value) → Bool
  | [] => true
  | (key, v) :: more =>
    match define? key s with
    | some s => isSound v && membersSound s more
    | none => false

end

/-- Defines a pair below the path of the open table. -/
def definePair? (path : Key) (key : Key) (v : Value) (s : Scope) : Option Scope :=
  if !isSound v then none else go path s
where
  /-- Descends to the open table. -/
  go : Key → Scope → Option Scope
    | [], s => define? key s
    | name :: more, s =>
      match s.keys.lookup name with
      | some child => (go more child).map (s.put name)
      | none => none

end Scope

end DependencyAudit.Toml

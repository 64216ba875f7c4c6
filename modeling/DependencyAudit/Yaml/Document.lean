import DependencyAudit.Yaml.Scalar

/-!
# YAML documents

Block style: one entry of a mapping or a sequence per line. The entries of a mapping or
sequence inside a mapping stand at the next multiple of four columns, and what is inside an
item of a sequence stands right behind its dash. A key that is long or has several lines
stands behind a question mark, and its value behind a colon on a line of its own.
-/

namespace DependencyAudit

/-- A YAML value. -/
inductive YamlNode
  /-- A number, a truth value or nothing, as it is written. -/
  | word (t : Text)
  | text (t : Text)
  | sequence (items : List YamlNode)
  | mapping (members : List (Text × YamlNode))

namespace YamlNode

/-- The column of what is inside a mapping at a column. -/
def innerColumn (column : Nat) : Nat :=
  4 * ((column + 4) / 4)

/-- The value on the line of its key or dash, if it is written there. -/
def inline? (indent : Nat) : YamlNode → Option Text
  | word t => some t
  | text t => some (Yaml.scalar indent t)
  | sequence [] => some "[]"
  | mapping [] => some "\x7b\x7d"
  | _ => none

/-- Puts a mark at a column in front of the first of some entries that stand further on. -/
def marked (column : Nat) (mark : Char) : List Text → List Text
  | [] => []
  | first :: more => (Yaml.spaces column ++ Text.byte mark :: first.drop (column + 1)) :: more

/-- Can the key stand on one line with its value? It has to be short and may not have several
lines. -/
def isSimpleKey (key : Text) : Bool :=
  key.length ≤ 128 && !(Yaml.codesOf key).any Yaml.isBreak

mutual

/-- The entries of a value at a column. -/
def entries (column : Nat) : YamlNode → List Text
  | word t => [Yaml.spaces column ++ t]
  | text t => [Yaml.spaces column ++ Yaml.scalar column t]
  | sequence [] => [Yaml.spaces column ++ Text.ofString "[]"]
  | mapping [] => [Yaml.spaces column ++ Text.ofString "\x7b\x7d"]
  | sequence items => itemEntries column items
  | mapping members => memberEntries column members

/-- The entries of a sequence. -/
def itemEntries (column : Nat) : List YamlNode → List Text
  | [] => []
  | v :: more => marked column '-' (entries (column + 2) v) ++ itemEntries column more

/-- The entries of a mapping. -/
def memberEntries (column : Nat) : List (Text × YamlNode) → List Text
  | [] => []
  | (key, v) :: more =>
    let inner := innerColumn column
    let written := Yaml.scalar inner key
    (if isSimpleKey key then
      let head := Yaml.spaces column ++ written ++ [Ascii.colon]
      match v.inline? inner with
      | some t => [head ++ Ascii.space :: t]
      | none => head :: entries inner v
    else
      (Yaml.spaces column ++ Text.ofString "? " ++ written) ::
        match v.inline? inner with
        | some t => [Yaml.spaces column ++ Text.ofString ": " ++ t]
        | none => marked column ':' (entries inner v)) ++ memberEntries column more

end

/-- Puts entries on lines of their own; one that ends with a line end needs no other. -/
def joinEntries : List Text → Text
  | [] => []
  | [last] => last
  | first :: more =>
    let atLineEnd := (Yaml.codesOf first).getLast?.any Yaml.isBreak
    first ++ (if atLineEnd then [] else [Ascii.newline]) ++ joinEntries more

/-- A value as a document, without line ends at its end. -/
def document (v : YamlNode) : Text :=
  Text.dropRightWhile (· = Ascii.newline) <|
    match v.inline? 4 with
    | some t => t
    | none => joinEntries (v.entries 0)

end YamlNode

end DependencyAudit

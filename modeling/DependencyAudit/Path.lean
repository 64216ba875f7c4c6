import DependencyAudit.Text.Basic

/-!
# Paths

Slash-separated paths as texts, and the lexical operations on them. None of these looks at a
file system.
-/

namespace DependencyAudit.Path

/-- The separator of path components. -/
abbrev slash : UInt8 := Text.byte '/'

/-- Does the path start at the root directory? -/
def isAbsolute (path : Text) : Bool :=
  path.head? = some slash

/-- The pieces between separators. Empty pieces come from leading, trailing and repeated
separators. -/
def pieces (path : Text) : List Text :=
  path.splitOnByte slash

/-- Adds one piece to the cleaned components so far, which are held in reverse. A `..`
removes the component before it; at the start it is dropped from an absolute path and kept in
a relative one. -/
def cleanStep (absolute : Bool) (done : List Text) (piece : Text) : List Text :=
  if piece.isEmpty || piece = Text.ofString "." then done
  else if piece = Text.ofString ".." then
    match done with
    | [] => if absolute then [] else [piece]
    | last :: before => if last = Text.ofString ".." then piece :: done else before
  else piece :: done

/-- The components of the shortest equivalent path. -/
def components (path : Text) : List Text :=
  ((pieces path).foldl (cleanStep (isAbsolute path)) []).reverse

/-- The path with the given components. -/
def ofComponents (absolute : Bool) (names : List Text) : Text :=
  if absolute then slash :: Text.join [slash] names
  else if names.isEmpty then "."
  else Text.join [slash] names

/-- The shortest equivalent path. -/
def clean (path : Text) : Text :=
  ofComponents (isAbsolute path) (components path)

/-- Joins two paths and cleans the result; an empty one is left out. -/
def join (a b : Text) : Text :=
  if !a.isEmpty then clean (a ++ slash :: b)
  else if !b.isEmpty then clean b
  else []

/-- Everything up to the last separator, cleaned. -/
def directory (path : Text) : Text :=
  match path.cutAtLastByte slash with
  | (none, _) => "."
  | (some before, _) => clean (before ++ [slash])

/-- The last component. -/
def base (path : Text) : Text :=
  if path.isEmpty then "."
  else
    let trimmed := path.dropRightWhile (· = slash)
    if trimmed.isEmpty then [slash] else (trimmed.cutAtLastByte slash).2

/-- The extension of the last component, from its last dot on. -/
def extension (path : Text) : Text :=
  match (path.cutAtLastByte slash).2.cutAtLastByte (Text.byte '.') with
  | (none, _) => []
  | (some _, last) => Text.byte '.' :: last

/-- Removes the longest common beginning of two component lists. -/
def dropCommon : List Text → List Text → List Text × List Text
  | a :: as, b :: bs => if a = b then dropCommon as bs else (a :: as, b :: bs)
  | as, bs => (as, bs)

/-- The components of a cleaned path for comparison with another; only as a target does the
current directory count as a component. -/
def relativeComponents (isTarget : Bool) (path : Text) : List Text :=
  match components path with
  | [] => if isTarget && !isAbsolute path then [Text.ofString "."] else []
  | names => names

/-- The path that leads from `base` to `target`; there is none from a relative to an absolute
path, nor from above the current directory back into it. -/
def relative? (base target : Text) : Option Text :=
  if clean base = clean target then some "."
  else if isAbsolute base != isAbsolute target then none
  else
    let (up, down) := dropCommon (relativeComponents false base) (relativeComponents true target)
    match up, down with
    | first :: _, _ :: _ =>
      if first = Text.ofString ".." then none
      else some (Text.join [slash] (up.map (fun _ => Text.ofString "..") ++ down))
    | _, _ => some (Text.join [slash] (up.map (fun _ => Text.ofString "..") ++ down))

/-- Turns every backslash into a separator. -/
def forward (path : Text) : Text :=
  path.replaceByte (Text.byte '\\') slash

/-- The absolute form of a path, given the current directory. -/
def absolute (current path : Text) : Text :=
  if isAbsolute path then clean path else join current path

/-- Does the relative path lead out of its base? -/
def leaves (relative : Text) : Bool :=
  relative = Text.ofString ".." || relative.startsWith "../"

end DependencyAudit.Path

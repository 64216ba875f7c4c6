import DependencyAudit.FileSystem.Basic

/-!
# Contents of files

Writing a file changes the node at one location. Every other file keeps its content, and paths
lead where they led before: a resolution looks at directories and links only, and a tree with
one more file, or with another content in one, has the same ones.

## Main definitions

* `FileNode.Extends`: everything is still where it was, with the same kind;
* `FileSystem.IsVacant`: there could be a node at the location.

## Main results

* `place_of_extends`: paths keep leading to the same locations;
* `content_replaceContent`: what was written is read back;
* `content_of_editContent`: what becomes of the content of any file.
-/

namespace DependencyAudit

namespace FileNode

/-! ## Trees -/

/-- The nodes are files, links to the same target, or directories. -/
def SameKind : FileNode → FileNode → Prop
  | file _, file _ => True
  | link target, link target' => target = target'
  | directory _, directory _ => True
  | _, _ => False

theorem SameKind.refl (n : FileNode) : n.SameKind n := by
  cases n <;> simp [SameKind]

theorem SameKind.isDirectory_eq {a b : FileNode} (h : a.SameKind b) :
    b.isDirectory = a.isDirectory := by
  cases a <;> cases b <;> simp_all [SameKind, isDirectory]

/-- Everything in the first tree is in the second one too, at the same location and of the same
kind. -/
def Extends (new old : FileNode) : Prop :=
  ∀ location node, old.at? location = some node →
    ∃ node', new.at? location = some node' ∧ node.SameKind node'

theorem Extends.refl (n : FileNode) : n.Extends n :=
  fun _ node h => ⟨node, h, .refl node⟩

/-- A location in two parts is followed part by part. -/
theorem at?_append (n : FileNode) (location more : List Text) :
    n.at? (location ++ more) = (n.at? location).bind (·.at? more) := by
  induction location generalizing n with
  | nil => rfl
  | cons first rest ih =>
    simp only [List.cons_append, at?]
    cases n.child? first with
    | none => rfl
    | some child => exact ih child

/-- The last component of a location is a child of the node before it. -/
theorem at?_concat (n : FileNode) (location : List Text) (name : Text) :
    n.at? (location ++ [name]) = (n.at? location).bind (·.child? name) := by
  have hlast : ∀ m : FileNode, m.at? [name] = m.child? name := fun m => by
    cases hchild : m.child? name <;> simp [at?, hchild]
  simp only [at?_append, hlast]

/-- The entry that was inserted is found. -/
theorem lookup_insertEntry_self (name : Text) (node : FileNode) (entries : List (Text × FileNode)) :
    (insertEntry name node entries).lookup name = some node := by
  induction entries with
  | nil => simp [insertEntry]
  | cons e more ih =>
    obtain ⟨other, n⟩ := e
    rw [insertEntry]
    -- in the place of an entry of that name, in front of the next one, or further behind
    split
    · simp
    · rename_i hne
      split
      · simp
      · have hbeq : (name == other) = false := by simpa using Ne.symm hne
        rw [List.lookup_cons, hbeq]
        exact ih

/-- Inserting an entry leaves the others alone. -/
theorem lookup_insertEntry_of_ne {name name' : Text} (h : name' ≠ name) (node : FileNode)
    (entries : List (Text × FileNode)) :
    (insertEntry name node entries).lookup name' = entries.lookup name' := by
  have hbeq : (name' == name) = false := by simpa using h
  induction entries with
  | nil => simp [insertEntry, List.lookup_cons, hbeq]
  | cons e more ih =>
    obtain ⟨other, n⟩ := e
    rw [insertEntry]
    split
    · rename_i heq
      subst heq
      rw [List.lookup_cons, List.lookup_cons, hbeq]
    · split
      · rw [List.lookup_cons, hbeq]
      · rw [List.lookup_cons, List.lookup_cons, ih]

/-! ## Putting a node at a location -/

/-- Puts a node at a location. -/
abbrev put (root : FileNode) (location : List Text) (node : FileNode) : FileNode :=
  root.update (fun _ => some node) location

/-- Below a directory, one entry changes. -/
theorem put_directory (entries : List (Text × FileNode)) (name : Text) (more : List Text)
    (node : FileNode) :
    ∃ child', (directory entries).put (name :: more) node =
        directory (insertEntry name child' entries) ∧
      ∀ child, entries.lookup name = some child → child' = child.put more node := by
  cases more with
  | nil => exact ⟨node, rfl, fun _ _ => rfl⟩
  | cons next more =>
    refine ⟨_, rfl, fun child hchild => ?_⟩
    rw [hchild]
    rfl

/-- A location that begins with a name lies below a directory with this entry. -/
theorem at?_cons_eq_some {root node : FileNode} {name : Text} {more : List Text}
    (h : root.at? (name :: more) = some node) :
    ∃ entries child, root = directory entries ∧ entries.lookup name = some child ∧
      child.at? more = some node := by
  rw [at?, Option.bind_eq_some_iff] at h
  obtain ⟨child, hchild, hnode⟩ := h
  cases root with
  | file | link => exact absurd hchild (by simp [child?, entries])
  | directory entries => exact ⟨entries, child, rfl, hchild, hnode⟩

/-- What is put in the place of a node is there. -/
theorem at?_put_self {root old : FileNode} {location : List Text} (node : FileNode)
    (h : root.at? location = some old) : (root.put location node).at? location = some node := by
  induction location generalizing root with
  | nil => rfl
  | cons name more ih =>
    obtain ⟨entries, child, rfl, hchild, hold⟩ := at?_cons_eq_some h
    obtain ⟨child', hput, hchild'⟩ := put_directory entries name more node
    rw [hput, at?, child?, FileNode.entries, lookup_insertEntry_self, Option.bind_some,
      hchild' child hchild]
    exact ih hold

/-- Only directories on the way to the location are changed. -/
theorem at?_put_of_ne {root node' : FileNode} {location location' : List Text} (node : FileNode)
    (hfree : ∀ old, root.at? location = some old → old.isDirectory = false)
    (hne : location' ≠ location) (h : root.at? location' = some node') :
    ∃ node'', (root.put location node).at? location' = some node'' ∧
      (node'' = node' ∨ (node'.isDirectory = true ∧ node''.isDirectory = true)) := by
  induction location generalizing root location' with
  | nil =>
    -- nothing lies below a node that is no directory
    obtain ⟨name, more, rfl⟩ := List.exists_cons_of_ne_nil hne
    obtain ⟨entries, child, rfl, -, -⟩ := at?_cons_eq_some h
    exact absurd (hfree _ rfl) (by simp [isDirectory])
  | cons name more ih =>
    cases root with
    | file | link => exact ⟨node', by simpa [put, update] using h, Or.inl rfl⟩
    | directory entries =>
      obtain ⟨child', hput, hchild'⟩ := put_directory entries name more node
      rw [hput]
      cases location' with
      | nil =>
        obtain rfl : directory entries = node' := Option.some.inj h
        exact ⟨_, rfl, Or.inr ⟨rfl, rfl⟩⟩
      | cons name' more' =>
        obtain ⟨_, child, heq, hchild, hnode⟩ := at?_cons_eq_some h
        obtain rfl := directory.inj heq
        rw [at?, child?, FileNode.entries]
        by_cases hname : name' = name
        · subst hname
          -- the changed entry: the two locations part further below
          have hmore : more' ≠ more := fun heq => hne (by rw [heq])
          have hfree' : ∀ old, child.at? more = some old → old.isDirectory = false := by
            intro old hold
            refine hfree old ?_
            rw [at?, child?, FileNode.entries, hchild]
            exact hold
          rw [lookup_insertEntry_self, Option.bind_some, hchild' child hchild]
          exact ih hfree' hmore hnode
        · -- any other entry
          rw [lookup_insertEntry_of_ne hname, hchild]
          exact ⟨node', hnode, Or.inl rfl⟩

/-- A tree is extended by a file that is new or takes the place of another. -/
theorem extends_put {root : FileNode} {location : List Text} (text : Text)
    (hfree : ∀ old, root.at? location = some old → old.isFile = true) :
    (root.put location (file text)).Extends root := by
  intro location' node h
  by_cases heq : location' = location
  · subst heq
    refine ⟨file text, at?_put_self _ h, ?_⟩
    have hfile := hfree node h
    cases node <;> simp_all [SameKind, isFile]
  · have hfree' : ∀ old, root.at? location = some old → old.isDirectory = false := by
      intro old hold
      have hfile := hfree old hold
      cases old <;> simp_all [isFile, isDirectory]
    obtain ⟨node', hnode', rfl | ⟨hdir, hdir'⟩⟩ := at?_put_of_ne (file text) hfree' heq h
    · exact ⟨node', hnode', .refl node'⟩
    · refine ⟨node', hnode', ?_⟩
      cases node <;> cases node' <;> simp_all [SameKind, isDirectory]

end FileNode

/-! ## Paths -/

namespace FileSystem

open FileNode (SameKind Extends)

/-- The resolution ends at a location where the file system has a node. -/
def Finds (fs : FileSystem) (location : List Text) (result : Except Refusal Place) : Prop :=
  ∃ node, result = .ok (.found location node) ∧ fs.root.at? location.reverse = some node

variable {fs fs' : FileSystem}

/-- One more piece leads to a child of the node. -/
theorem at?_reverse_cons {here : FileNode} {location : List Text} (piece : Text)
    (h : fs.root.at? location.reverse = some here) :
    fs.root.at? (piece :: location).reverse = here.child? piece := by
  rw [List.reverse_cons, FileNode.at?_concat, h, Option.bind_some]

/-- Up to the next link, what is found in the one tree is found in a tree that it extends. -/
private theorem walkToLink_of_extends (hext : fs'.root.Extends fs.root) {follow : Bool}
    {onLink onLink' : List Text → List Text → Except Refusal Place}
    (hlink : ∀ location pieces found node, onLink location pieces = .ok (.found found node) →
      fs'.Finds found (onLink' location pieces))
    {location pieces found : List Text} {node : FileNode}
    (h : fs.walkToLink follow onLink location pieces = .ok (.found found node)) :
    fs'.Finds found (fs'.walkToLink follow onLink' location pieces) := by
  -- the resolution in the new tree takes the same turns: every test on the way is about the kind
  -- of a node or about the pieces
  induction pieces generalizing location with
  | nil =>
    unfold walkToLink at h
    split at h
    · rename_i here hhere
      obtain ⟨rfl, -⟩ := Place.found.inj (Except.ok.inj h)
      obtain ⟨here', hhere', -⟩ := hext _ _ hhere
      exact ⟨here', by rw [walkToLink, hhere'], hhere'⟩
    · exact absurd h (by simp)
  | cons piece rest ih =>
    unfold walkToLink at h
    split at h
    · exact absurd h (by simp)
    rename_i here hhere
    obtain ⟨here', hhere', hkind⟩ := hext _ _ hhere
    unfold walkToLink
    rw [hhere']
    simp only [hkind.isDirectory_eq]
    split at h
    · exact absurd h (by simp)
    rename_i hdir
    rw [if_neg hdir]
    split at h
    · rename_i hdot
      rw [if_pos hdot]
      exact ih h
    rename_i hdot
    rw [if_neg hdot]
    split at h
    · rename_i hup
      rw [if_pos hup]
      exact ih h
    rename_i hup
    rw [if_neg hup]
    split at h
    · exact absurd h (by simp)
    rename_i hlong
    rw [if_neg hlong]
    -- the entry is there in both trees, and is a link in both or in none
    have hentry := at?_reverse_cons piece hhere
    have hentry' := at?_reverse_cons piece hhere'
    split at h
    · split at h <;> exact absurd h (by simp)
    · rename_i target hchild
      rw [hchild] at hentry
      obtain ⟨child', hchild', hsame⟩ := hext _ _ hentry
      cases child' with
      | file | directory => exact absurd hsame (by simp [SameKind])
      | link target' =>
        obtain rfl : target = target' := hsame
        rw [hentry'] at hchild'
        simp only [hchild']
        split at h
        · rename_i hlast
          obtain ⟨rfl, -⟩ := Place.found.inj (Except.ok.inj h)
          exact ⟨.link target, if_pos hlast, by rw [hentry', hchild']⟩
        · rename_i hlast
          rw [if_neg hlast]
          exact hlink _ _ _ _ h
    · rename_i child hnotLink hchild
      rw [hchild] at hentry
      obtain ⟨child', hchild', hsame⟩ := hext _ _ hentry
      rw [hentry'] at hchild'
      cases child' with
      | link target' =>
        cases child with
        | link target => exact absurd rfl (hnotLink target)
        | file | directory => exact absurd hsame (by simp [SameKind])
      | file | directory =>
        simp only [hchild']
        exact ih h

/-- What is found along a path is found in a tree that the other one extends. -/
theorem walk_of_extends (hext : fs'.root.Extends fs.root) {follow : Bool} {links : Nat}
    {location pieces found : List Text} {node : FileNode}
    (h : fs.walk follow links location pieces = .ok (.found found node)) :
    fs'.Finds found (fs'.walk follow links location pieces) := by
  induction links generalizing location pieces found node with
  | zero => exact walkToLink_of_extends hext (fun _ _ _ _ hlink => absurd hlink (by simp)) h
  | succ links ih => exact walkToLink_of_extends hext (fun _ _ _ _ hlink => ih hlink) h

/-- Paths keep leading to the same locations. -/
theorem place_of_extends (hext : fs'.root.Extends fs.root) (hcurrent : fs'.current = fs.current)
    {follow : Bool} {path : Text} {found : List Text} {node : FileNode}
    (h : fs.place follow path = .ok (.found found node)) :
    fs'.Finds found (fs'.place follow path) := by
  unfold place at h ⊢
  rw [hcurrent]
  split at h
  · exact absurd h (by simp)
  rename_i hempty
  rw [if_neg hempty]
  split at h
  · exact absurd h (by simp)
  rename_i hname
  rw [if_neg hname]
  -- an absolute path is walked from the root, any other from the current directory
  split at h
  · rename_i habsolute
    rw [if_pos habsolute]
    exact walk_of_extends hext h
  · rename_i habsolute
    rw [if_neg habsolute]
    exact walk_of_extends hext h

/-- A path leads to a node of the file system. -/
theorem at?_of_place {follow : Bool} {path : Text} {found : List Text} {node : FileNode}
    (h : fs.place follow path = .ok (.found found node)) :
    fs.root.at? found.reverse = some node := by
  -- the tree extends itself
  obtain ⟨node', hplace, hnode'⟩ := place_of_extends (.refl fs.root) rfl h
  rw [hplace] at h
  obtain ⟨-, rfl⟩ := Place.found.inj (Except.ok.inj h)
  exact hnode'

/-- There is no node at the location, but there is a directory that it would be an entry of. -/
def IsVacant (fs : FileSystem) (location : List Text) : Prop :=
  ∃ name above entries, location = name :: above ∧
    fs.root.at? above.reverse = some (.directory entries) ∧ entries.lookup name = none

/-- An empty place that is reached up to the next link is vacant. -/
private theorem isVacant_of_walkToLink {follow : Bool}
    {onLink : List Text → List Text → Except Refusal Place}
    (hlink : ∀ location pieces vacant, onLink location pieces = .ok (.vacant vacant) →
      fs.IsVacant vacant)
    {location pieces vacant : List Text}
    (h : fs.walkToLink follow onLink location pieces = .ok (.vacant vacant)) :
    fs.IsVacant vacant := by
  induction pieces generalizing location with
  | nil =>
    unfold walkToLink at h
    split at h <;> exact absurd h (by simp)
  | cons piece rest ih =>
    -- a walk ends in an empty place only at its last piece, which no entry has
    unfold walkToLink at h
    split at h
    · exact absurd h (by simp)
    rename_i here hhere
    split at h
    · exact absurd h (by simp)
    rename_i hdirectory
    split at h
    · exact ih h
    split at h
    · exact ih h
    split at h
    · exact absurd h (by simp)
    split at h
    · rename_i hchild
      split at h
      · obtain rfl := Place.vacant.inj (Except.ok.inj h)
        cases here with
        | file | link => exact absurd rfl hdirectory
        | directory entries => exact ⟨piece, location, entries, rfl, hhere, hchild⟩
      · exact absurd h (by simp)
    · split at h
      · exact absurd h (by simp)
      · exact hlink _ _ _ h
    · exact ih h

/-- Where a path leads to no node, there could be one. -/
theorem isVacant_of_place {follow : Bool} {path : Text} {vacant : List Text}
    (h : fs.place follow path = .ok (.vacant vacant)) : fs.IsVacant vacant := by
  -- by induction on the number of links that may still be followed
  have hwalk : ∀ links location pieces vacant,
      fs.walk follow links location pieces = .ok (.vacant vacant) → fs.IsVacant vacant := by
    intro links
    induction links with
    | zero => exact fun _ _ _ => isVacant_of_walkToLink fun _ _ _ hlink => absurd hlink (by simp)
    | succ links ih => exact fun _ _ _ => isVacant_of_walkToLink fun _ _ _ hlink => ih _ _ _ hlink
  unfold place at h
  split at h
  · exact absurd h (by simp)
  split at h
  · exact absurd h (by simp)
  split at h
  · exact hwalk _ _ _ _ h
  · exact hwalk _ _ _ _ h

/-- There is no node at a vacant location. -/
theorem IsVacant.at?_eq_none {location : List Text} (h : fs.IsVacant location) :
    fs.root.at? location.reverse = none := by
  obtain ⟨name, above, entries, rfl, habove, hnew⟩ := h
  rw [at?_reverse_cons name habove]
  exact hnew

/-- The node of a path is the one at its place. -/
theorem node_of_place {follow : Bool} {path : Text} {found : List Text} {node : FileNode}
    (h : fs.place follow path = .ok (.found found node)) : fs.node follow path = .ok node := by
  rw [FileSystem.node, h]
  rfl

/-! ## Contents -/

/-- A path has content if it leads to a file. -/
theorem content_eq_ok_iff {path text : Text} :
    fs.content path = .ok text ↔
      ∃ location, fs.place true path = .ok (.found location (.file text)) := by
  unfold content node
  constructor
  · intro h
    -- of all that a path may lead to, only a file has content
    cases hplace : fs.place true path with
    | error refusal =>
      rw [hplace] at h
      exact absurd h (by simp [bind, Except.bind])
    | ok place =>
      rw [hplace] at h
      cases place with
      | vacant => exact absurd h (by simp [bind, Except.bind])
      | found location node =>
        cases node with
        | file old =>
          obtain rfl : old = text := Except.ok.inj h
          exact ⟨location, rfl⟩
        | link | directory => exact absurd h (by simp [bind, Except.bind])
  · rintro ⟨location, h⟩
    rw [h]
    rfl

/-- The file system with a file at a location. -/
def withFile (fs : FileSystem) (location : List Text) (text : Text) : FileSystem :=
  { fs with root := fs.root.put location.reverse (.file text) }

/-- What writing a file does: the old content is changed, or a new file is made. -/
theorem editContent_eq_ok {path : Text} {change : Text → Text}
    (h : fs.editContent path change = .ok fs') :
    (∃ location old, fs.place true path = .ok (.found location (.file old)) ∧
      fs' = fs.withFile location (change old)) ∨
    (∃ location, fs.place true path = .ok (.vacant location) ∧
      fs' = fs.withFile location (change [])) := by
  unfold editContent at h
  split at h
  · rename_i location old hplace
    exact Or.inl ⟨location, old, hplace, (Except.ok.inj h).symm⟩
  · rename_i location hplace
    exact Or.inr ⟨location, hplace, (Except.ok.inj h).symm⟩
  · exact absurd h (by simp)
  · exact absurd h (by simp)

/-- Of the files that were there, only the one at the location has another content. -/
theorem place_withFile {location found : List Text} {path old : Text} (text : Text)
    (hfree : ∀ node, fs.root.at? location.reverse = some node → node.isFile = true)
    (h : fs.place true path = .ok (.found found (.file old))) :
    (fs.withFile location text).place true path =
      .ok (.found found (.file (if found = location then text else old))) := by
  -- the path still leads where it led; what is left to say is which node is there now
  have hold := at?_of_place h
  have hext : (fs.withFile location text).root.Extends fs.root :=
    FileNode.extends_put text hfree
  obtain ⟨node, hplace, hnode⟩ := place_of_extends hext rfl h
  rw [hplace]
  split
  · rename_i heq
    subst heq
    have hself := FileNode.at?_put_self (.file text) hold
    obtain rfl : node = .file text := Option.some.inj (hnode.symm.trans hself)
    rfl
  · rename_i hne
    have hfree' : ∀ node, fs.root.at? location.reverse = some node → node.isDirectory = false := by
      intro node hnode
      have hfile := hfree node hnode
      cases node <;> simp_all [FileNode.isFile, FileNode.isDirectory]
    have hne' : found.reverse ≠ location.reverse := fun heq => hne (List.reverse_inj.mp heq)
    obtain ⟨node', hnode', rfl | ⟨hdir, -⟩⟩ :=
      FileNode.at?_put_of_ne (.file text) hfree' hne' hold
    · obtain rfl : node = .file old := Option.some.inj (hnode.symm.trans hnode')
      rfl
    · exact absurd hdir (by simp [FileNode.isDirectory])

/-- Where a file is found, there is one. -/
theorem isFile_of_place {location : List Text} {path old : Text}
    (h : fs.place true path = .ok (.found location (.file old))) :
    ∀ node, fs.root.at? location.reverse = some node → node.isFile = true := by
  intro node hnode
  obtain rfl : node = .file old := Option.some.inj (hnode.symm.trans (at?_of_place h))
  rfl

/-- What was written to a file is read back. -/
theorem content_replaceContent {path text : Text} {node : FileNode}
    (hstat : fs.stat path = .ok node) (h : fs.replaceContent path text = .ok fs') :
    fs'.content path = .ok text := by
  rcases editContent_eq_ok h with ⟨location, old, hplace, rfl⟩ | ⟨location, hplace, -⟩
  · have hwritten := place_withFile text (isFile_of_place hplace) hplace
    rw [if_pos rfl] at hwritten
    exact content_eq_ok_iff.mpr ⟨location, hwritten⟩
  · -- the file was there, so it is not a new one
    rw [stat, FileSystem.node, hplace] at hstat
    exact absurd hstat (by simp [bind, Except.bind])

/-- A file keeps its content when a file is written, unless it is that file. -/
theorem content_of_editContent {path path' text : Text} {change : Text → Text}
    (h : fs.editContent path change = .ok fs') (hcontent : fs.content path' = .ok text) :
    fs'.content path' = .ok text ∨ fs'.content path' = .ok (change text) := by
  obtain ⟨found, hfound⟩ := content_eq_ok_iff.mp hcontent
  rcases editContent_eq_ok h with ⟨location, old, hplace, rfl⟩ | ⟨location, hplace, rfl⟩
  · have hwritten := place_withFile (change old) (isFile_of_place hplace) hfound
    split at hwritten
    · -- both paths lead to one file, so its old content is the one that was changed
      rename_i heq
      subst heq
      have hsame := Option.some.inj ((at?_of_place hplace).symm.trans (at?_of_place hfound))
      obtain rfl : old = text := FileNode.file.inj hsame
      exact Or.inr (content_eq_ok_iff.mpr ⟨found, hwritten⟩)
    · exact Or.inl (content_eq_ok_iff.mpr ⟨found, hwritten⟩)
  · have hnone := (isVacant_of_place hplace).at?_eq_none
    have hfree : ∀ node, fs.root.at? location.reverse = some node → node.isFile = true := by
      simp [hnone]
    have hwritten := place_withFile (change []) hfree hfound
    -- the new file is not where the other one is
    have hne : found ≠ location := by
      rintro rfl
      rw [at?_of_place hfound] at hnone
      exact absurd hnone (by simp)
    rw [if_neg hne] at hwritten
    exact Or.inl (content_eq_ok_iff.mpr ⟨found, hwritten⟩)

end FileSystem

end DependencyAudit

import DependencyAudit.FileSystem.Confine
import DependencyAudit.Proofs.FileSystem.RealPath

/-!
# Trees of the same shape

Two trees have the same shape if they have nodes of the same kind at the same locations, that is,
if they differ in the contents of files only. A path leads to the same location in both of them, or
is refused for the same reason, and so its real path is the same too: contents are not looked at
when a path is resolved. A new content in one file changes what is read under a path only if the
path leads to that file.

## Main definitions

* `FileNode.SameShape`: the trees differ in the contents of files only;
* `FileSystem.Alike`: the resolutions end in the same way.

## Main results

* `FileNode.sameShape_put` and `FileNode.at?_put_file_iff`: a new content in one file;
* `FileSystem.place_alike` and `FileSystem.realPath_of_sameShape`: contents do not matter to paths;
* `FileSystem.content_withFile_of_ne`: whose content stays the same.
-/

namespace DependencyAudit

namespace FileNode

variable {root a b : FileNode} {location : List Text}

/-- Nodes of one kind are two files, one link or two directories. -/
theorem SameKind.cases (h : a.SameKind b) :
    (∃ text text', a = file text ∧ b = file text') ∨
      (∃ target, a = link target ∧ b = link target) ∨
      ∃ entries entries', a = directory entries ∧ b = directory entries' := by
  cases a <;> cases b <;> simp_all [SameKind]

/-- The trees have nodes of the same kind at the same locations. -/
def SameShape (a b : FileNode) : Prop :=
  ∀ location, Option.Rel SameKind (a.at? location) (b.at? location)

theorem SameShape.refl (n : FileNode) : n.SameShape n := by
  intro location
  cases n.at? location with
  | none => exact .none
  | some node => exact .some (.refl node)

theorem SameKind.symm (h : a.SameKind b) : b.SameKind a := by
  cases a <;> cases b <;> simp_all [SameKind]

theorem SameKind.trans {a b c : FileNode} (h : a.SameKind b) (h' : b.SameKind c) :
    a.SameKind c := by
  cases a <;> cases b <;> cases c <;> simp_all [SameKind]

/-- At each location both trees have nodes of one kind, or neither has one. -/
theorem SameShape.cases (h : a.SameShape b) (location : List Text) :
    (a.at? location = none ∧ b.at? location = none) ∨
      ∃ node node', a.at? location = some node ∧ b.at? location = some node' ∧
        node.SameKind node' := by
  have hrel := h location
  cases ha : a.at? location with
  | none =>
    cases hb : b.at? location with
    | none => exact Or.inl ⟨rfl, rfl⟩
    | some node' => rw [ha, hb] at hrel; cases hrel
  | some node =>
    cases hb : b.at? location with
    | none => rw [ha, hb] at hrel; cases hrel
    | some node' =>
      rw [ha, hb] at hrel
      cases hrel with
      | some hkind => exact Or.inr ⟨node, node', rfl, rfl, hkind⟩

/-- Having the same shape is symmetric. -/
theorem SameShape.symm (h : a.SameShape b) : b.SameShape a := by
  intro location
  obtain ⟨ha, hb⟩ | ⟨na, nb, ha, hb, hkind⟩ := h.cases location
  · rw [ha, hb]
    exact .none
  · rw [ha, hb]
    exact .some hkind.symm

/-- Shapes are compared step by step. -/
theorem SameShape.trans {c : FileNode} (h : a.SameShape b) (h' : b.SameShape c) :
    a.SameShape c := by
  intro location
  obtain ⟨ha, hb⟩ | ⟨na, nb, ha, hb, hab⟩ := h.cases location <;>
    obtain ⟨hb', hc⟩ | ⟨nb', nc, hb', hc, hbc⟩ := h'.cases location
  · rw [ha, hc]
    exact .none
  · exact absurd (hb.symm.trans hb') (by simp)
  · exact absurd (hb.symm.trans hb') (by simp)
  · obtain rfl : nb = nb' := Option.some.inj (hb.symm.trans hb')
    rw [ha, hc]
    exact .some (hab.trans hbc)

/-- Another content in a file does not change the shape. -/
theorem sameShape_put {old : Text} (text : Text) (h : root.at? location = some (file old)) :
    root.SameShape (root.put location (file text)) := by
  -- by induction on the way to the file: of each directory on it, one entry changes
  induction location generalizing root with
  | nil =>
    obtain rfl : root = file old := Option.some.inj h
    intro location'
    cases location' with
    | nil => exact .some trivial
    | cons => exact .none
  | cons name more ih =>
    obtain ⟨entries, child, rfl, hchild, hold⟩ := at?_cons_eq_some h
    obtain ⟨child', hput, hchild'⟩ := put_directory entries name more (file text)
    obtain rfl := hchild' child hchild
    rw [hput]
    intro location'
    cases location' with
    | nil => exact .some trivial
    | cons name' more' =>
      rw [at?, at?, child?, child?, FileNode.entries, FileNode.entries]
      by_cases hname : name' = name
      · subst hname
        rw [lookup_insertEntry_self, hchild]
        exact ih hold more'
      · rw [lookup_insertEntry_of_ne hname]
        exact SameShape.refl (directory entries) (name' :: more')

/-- Another content in a file leaves the other files as they are. -/
theorem at?_put_file_iff {old text text' : Text} {location' : List Text}
    (h : root.at? location = some (file old)) (hne : location' ≠ location) :
    (root.put location (file text)).at? location' = some (file text') ↔
      root.at? location' = some (file text') := by
  have hfree : ∀ node, root.at? location = some node → node.isDirectory = false := by
    intro node hnode
    rw [Option.some.inj (hnode.symm.trans h)]
    rfl
  have hkept : ∀ content, root.at? location' = some (file content) →
      (root.put location (file text)).at? location' = some (file content) := by
    intro content hcontent
    obtain ⟨node, hnode, rfl | ⟨hdirectory, -⟩⟩ := at?_put_of_ne (file text) hfree hne hcontent
    · exact hnode
    · exact absurd hdirectory (by simp [isDirectory])
  refine ⟨fun hnew => ?_, hkept text'⟩
  -- there was a file before, and it has kept its content
  obtain ⟨-, hnone⟩ | ⟨node, node', hold, hnew', hkind⟩ := (sameShape_put text h).cases location'
  · rw [hnone] at hnew
    exact absurd hnew (by simp)
  · obtain rfl := Option.some.inj (hnew'.symm.trans hnew)
    cases node with
    | link | directory => exact absurd hkind (by simp [SameKind])
    | file content =>
      obtain rfl : content = text' :=
        file.inj (Option.some.inj ((hkept content hold).symm.trans hnew))
      exact hold

end FileNode

namespace FileSystem

open FileNode (SameKind SameShape)

variable {fs fs' : FileSystem}

/-! ## Resolutions that end in the same way -/

/-- The two resolutions are refused for the same reason, or lead to the same location and there to
nodes of the same kind or to none. -/
inductive Alike : Except Refusal Place → Except Refusal Place → Prop
  | refused (refusal : Refusal) : Alike (.error refusal) (.error refusal)
  | vacant (location : List Text) : Alike (.ok (.vacant location)) (.ok (.vacant location))
  | found (location : List Text) {node node' : FileNode} (h : node.SameKind node') :
    Alike (.ok (.found location node)) (.ok (.found location node'))

/-- Up to the next link, the walks in trees of one shape are alike. -/
private theorem walkToLink_alike (hshape : fs.root.SameShape fs'.root) {follow : Bool}
    {onLink onLink' : List Text → List Text → Except Refusal Place}
    (hlink : ∀ location pieces, Alike (onLink location pieces) (onLink' location pieces))
    (location pieces : List Text) :
    Alike (fs.walkToLink follow onLink location pieces)
      (fs'.walkToLink follow onLink' location pieces) := by
  induction pieces generalizing location with
  | nil =>
    rw [walkToLink, walkToLink]
    obtain ⟨hnone, hnone'⟩ | ⟨here, here', hhere, hhere', hkind⟩ :=
      hshape.cases location.reverse
    · rw [hnone, hnone']
      exact .refused _
    · rw [hhere, hhere']
      exact .found location hkind
  | cons piece rest ih =>
    rw [walkToLink, walkToLink]
    obtain ⟨hnone, hnone'⟩ | ⟨here, here', hhere, hhere', hkind⟩ :=
      hshape.cases location.reverse
    · rw [hnone, hnone']
      exact .refused _
    · have hentry := hshape.cases (piece :: location).reverse
      rw [at?_reverse_cons piece hhere, at?_reverse_cons piece hhere'] at hentry
      simp only [hhere, hhere', hkind.isDirectory_eq]
      -- every test is about the pieces or about the kind of a node
      split
      · exact .refused _
      split
      · exact ih location
      split
      · exact ih location.tail
      split
      · exact .refused _
      obtain ⟨hchild, hchild'⟩ | ⟨child, child', hchild, hchild', hsame⟩ := hentry
      · rw [hchild, hchild']
        dsimp only
        split
        · exact .vacant _
        · exact .refused _
      · rw [hchild, hchild']
        obtain ⟨_, _, rfl, rfl⟩ | ⟨target, rfl, rfl⟩ | ⟨_, _, rfl, rfl⟩ := hsame.cases
        · exact ih _
        · dsimp only
          split
          · exact .found _ rfl
          · exact hlink _ _
        · exact ih _

/-- Walks in trees of one shape are alike. -/
private theorem walk_alike (hshape : fs.root.SameShape fs'.root) (follow : Bool) (links : Nat)
    (location pieces : List Text) :
    Alike (fs.walk follow links location pieces) (fs'.walk follow links location pieces) := by
  induction links generalizing location pieces with
  | zero => exact walkToLink_alike hshape (fun _ _ => .refused _) location pieces
  | succ links ih => exact walkToLink_alike hshape ih location pieces

/-- A path is resolved in the same way. -/
theorem place_alike (hshape : fs.root.SameShape fs'.root) (hcurrent : fs'.current = fs.current)
    (follow : Bool) (path : Text) : Alike (fs.place follow path) (fs'.place follow path) := by
  unfold place
  rw [hcurrent]
  split
  · exact .refused _
  split
  · exact .refused _
  split
  · exact walk_alike hshape follow _ _ _
  · exact walk_alike hshape follow _ _ _

/-- A path names nodes of the same kind, or is refused for the same reason. -/
theorem node_cases (hshape : fs.root.SameShape fs'.root) (hcurrent : fs'.current = fs.current)
    (follow : Bool) (path : Text) :
    (∃ refusal, fs.node follow path = .error refusal ∧ fs'.node follow path = .error refusal) ∨
      ∃ node node', fs.node follow path = .ok node ∧ fs'.node follow path = .ok node' ∧
        node.SameKind node' := by
  have halike := place_alike hshape hcurrent follow path
  unfold FileSystem.node
  cases hplace : fs.place follow path with
  | error refusal =>
    rw [hplace] at halike
    cases hplace' : fs'.place follow path <;> rw [hplace'] at halike <;> cases halike
    exact Or.inl ⟨refusal, rfl, rfl⟩
  | ok place =>
    rw [hplace] at halike
    cases hplace' : fs'.place follow path <;> rw [hplace'] at halike <;> cases halike
    · exact Or.inl ⟨.notFound, rfl, rfl⟩
    · rename_i hkind
      exact Or.inr ⟨_, _, rfl, rfl, hkind⟩

/-- A path leads to the same location. -/
theorem locate?_of_sameShape (hshape : fs.root.SameShape fs'.root)
    (hcurrent : fs'.current = fs.current) (path : Text) : fs'.locate? path = fs.locate? path := by
  have halike := place_alike hshape hcurrent true path
  unfold locate?
  cases hplace : fs.place true path <;> cases hplace' : fs'.place true path <;>
    rw [hplace, hplace'] at halike <;> cases halike <;> rfl

/-- A path leads to a file in both file systems or in none. -/
theorem content_isOk_of_sameShape (hshape : fs.root.SameShape fs'.root)
    (hcurrent : fs'.current = fs.current) (path : Text) :
    (∃ text, fs'.content path = .ok text) ↔ ∃ text, fs.content path = .ok text := by
  obtain ⟨refusal, herror, herror'⟩ | ⟨node, node', hnode, hnode', hkind⟩ :=
    node_cases hshape hcurrent true path
  · simp [content, herror, herror']
  · obtain ⟨_, _, rfl, rfl⟩ | ⟨_, rfl, rfl⟩ | ⟨_, _, rfl, rfl⟩ := hkind.cases <;>
      simp [content, hnode, hnode']

/-! ## Real paths -/

/-- Up to the next link, rewriting is the same in trees of one shape. -/
private theorem resolveToLink_of_sameShape (hshape : fs.root.SameShape fs'.root)
    (hcurrent : fs'.current = fs.current)
    {onLink onLink' : Bool → List Text → List Text → Option Text}
    (hlink : ∀ absolute done pieces, onLink' absolute done pieces = onLink absolute done pieces)
    (absolute : Bool) (done pieces : List Text) :
    fs'.resolveToLink onLink' absolute done pieces =
      fs.resolveToLink onLink absolute done pieces := by
  induction pieces generalizing done with
  | nil => rw [resolveToLink, resolveToLink]
  | cons piece rest ih =>
    unfold resolveToLink
    split
    · exact ih done
    split
    · exact ih _
    -- only the kind of the node is looked at
    obtain ⟨refusal, herror, herror'⟩ | ⟨node, node', hnode, hnode', hkind⟩ :=
      node_cases hshape hcurrent false (Path.ofComponents absolute (piece :: done).reverse)
    · simp only [herror, herror']
    · simp only [hnode, hnode']
      obtain ⟨_, _, rfl, rfl⟩ | ⟨target, rfl, rfl⟩ | ⟨_, _, rfl, rfl⟩ := hkind.cases
      · rw [ih]
        rfl
      · simp only [hlink]
      · rw [ih]
        rfl

/-- Rewriting is the same in trees of one shape. -/
private theorem resolvePieces_of_sameShape (hshape : fs.root.SameShape fs'.root)
    (hcurrent : fs'.current = fs.current) (links : Nat) (absolute : Bool)
    (done pieces : List Text) :
    fs'.resolvePieces links absolute done pieces = fs.resolvePieces links absolute done pieces := by
  induction links generalizing absolute done pieces with
  | zero =>
    exact resolveToLink_of_sameShape hshape hcurrent (fun _ _ _ => rfl) absolute done pieces
  | succ links ih => exact resolveToLink_of_sameShape hshape hcurrent ih absolute done pieces

/-- A path has the same real path. -/
theorem realPath_of_sameShape (hshape : fs.root.SameShape fs'.root)
    (hcurrent : fs'.current = fs.current) (path : Text) : fs'.realPath path = fs.realPath path := by
  have hlinks : fs'.resolveLinks? = fs.resolveLinks? := by
    ext1 path
    exact resolvePieces_of_sameShape hshape hcurrent _ _ _ _
  rw [realPath, realPath, hlinks]

/-- A setting is confined in the same way. -/
theorem confine_of_sameShape (hshape : fs.root.SameShape fs'.root)
    (hcurrent : fs'.current = fs.current) (root value : Text) :
    fs'.confine root value = fs.confine root value := by
  simp only [confine, relativeTo, relativeTo?, realPath_of_sameShape hshape hcurrent]

/-! ## Contents -/

/-- Another text in a file keeps the shape of the tree. -/
theorem sameShape_withFile {outside : List Text} {old : Text} (text : Text)
    (hold : fs.root.at? outside = some (.file old)) :
    fs.root.SameShape (fs.withFile outside.reverse text).root := by
  apply FileNode.sameShape_put
  rw [List.reverse_reverse]
  exact hold

/-- Another content in a file changes what is read only under paths that lead to that file. -/
theorem content_withFile_of_ne {outside : List Text} {old path : Text} (text : Text)
    (hold : fs.root.at? outside = some (.file old))
    (hpath : ∀ names node, fs.LeadsTo path names node → names ≠ outside) :
    (fs.withFile outside.reverse text).content path = fs.content path := by
  obtain ⟨refusal, herror, herror'⟩ | ⟨node, node', hnode, hnode', hkind⟩ :=
    node_cases (sameShape_withFile text hold) rfl true path
  · rw [content, content, herror, herror']
  · rw [content, content, hnode, hnode']
    obtain ⟨before, after, rfl, rfl⟩ | ⟨target, rfl, rfl⟩ | ⟨_, _, rfl, rfl⟩ := hkind.cases
    · -- a file, and not the one that has changed
      obtain ⟨location, hplace⟩ := exists_place_of_node hnode
      have hlead : fs.LeadsTo path location.reverse (.file before) := by
        rw [LeadsTo, List.reverse_reverse]
        exact hplace
      have hne : location ≠ outside.reverse := by
        rintro rfl
        exact hpath _ _ hlead (List.reverse_reverse outside)
      have hfree : ∀ node, fs.root.at? outside.reverse.reverse = some node →
          node.isFile = true := by
        rw [List.reverse_reverse, hold]
        rintro node ⟨⟩
        rfl
      have hplace' := place_withFile text hfree hplace
      rw [if_neg hne] at hplace'
      obtain rfl : before = after :=
        FileNode.file.inj (Except.ok.inj ((node_of_place hplace').symm.trans hnode'))
      rfl
    · rfl
    · rfl

end FileSystem

end DependencyAudit

import DependencyAudit.Proofs.FileSystem.Rewriting
import DependencyAudit.Proofs.FileSystem.Shape

/-!
# A new file

A file is made at a location where there is no node yet. The paths that led to the empty place
lead to the file then, and every other path leads where it led before. A path that goes on behind
the new file is refused for another reason than before, but it is refused all the same.

## Main definitions

* `FileSystem.Grown`: the resolutions end in the same way, but for the new file.

## Main results

* `FileNode.at?_put_new`: what there is at each location;
* `FileSystem.place_grown`: where paths lead;
* `FileSystem.of_content_withFile`: what is read is what was read before, or the new file.
-/

namespace DependencyAudit

namespace FileNode

/-- A new entry in a directory adds one node to the tree. -/
theorem at?_put_new {root : FileNode} {above : List Text} {entries : List (Text × FileNode)}
    {name : Text} (text : Text) (habove : root.at? above = some (directory entries))
    (hnew : entries.lookup name = none) (location : List Text) :
    if location = above ++ [name] then root.at? location = none ∧
      (root.put (above ++ [name]) (file text)).at? location = some (file text)
    else Option.Rel SameKind (root.at? location)
      ((root.put (above ++ [name]) (file text)).at? location) := by
  -- by induction on the way to the directory: of each directory on it, one entry changes
  induction above generalizing root location with
  | nil =>
    obtain rfl : root = directory entries := Option.some.inj habove
    obtain ⟨child', hput, -⟩ := put_directory entries name [] (file text)
    obtain rfl : file text = child' := by
      have hself := lookup_insertEntry_self name child' entries
      rw [← (directory.inj hput : insertEntry name (file text) entries = _)] at hself
      exact Option.some.inj ((lookup_insertEntry_self name (file text) entries).symm.trans hself)
    rw [List.nil_append, hput]
    cases location with
    | nil =>
      rw [if_neg (by simp)]
      exact .some trivial
    | cons name' more =>
      rw [at?, at?, child?, child?, FileNode.entries, FileNode.entries]
      by_cases hname : name' = name
      · subst hname
        rw [lookup_insertEntry_self, hnew]
        cases more with
        | nil =>
          rw [if_pos rfl]
          exact ⟨rfl, rfl⟩
        | cons =>
          rw [if_neg (by simp)]
          exact .none
      · rw [if_neg (by simp [hname]), lookup_insertEntry_of_ne hname]
        exact SameShape.refl (directory entries) (name' :: more)
  | cons first rest ih =>
    obtain ⟨others, child, rfl, hchild, hdirectory⟩ := at?_cons_eq_some habove
    obtain ⟨child', hput, hchild'⟩ := put_directory others first (rest ++ [name]) (file text)
    obtain rfl := hchild' child hchild
    rw [List.cons_append, hput]
    cases location with
    | nil =>
      rw [if_neg (by simp)]
      exact .some trivial
    | cons name' more =>
      rw [at?, at?, child?, child?, FileNode.entries, FileNode.entries]
      by_cases hname : name' = first
      · subst hname
        rw [lookup_insertEntry_self, hchild]
        simp only [List.cons.injEq, true_and]
        exact ih hdirectory more
      · rw [if_neg (by simp [hname]), lookup_insertEntry_of_ne hname]
        exact SameShape.refl (directory others) (name' :: more)

end FileNode

namespace FileSystem

open FileNode (SameKind)

variable {fs : FileSystem} {new location : List Text} {text path : Text}

private theorem rel_cases {a b : Option FileNode} (h : Option.Rel SameKind a b) :
    (a = none ∧ b = none) ∨ ∃ node node', a = some node ∧ b = some node' ∧ node.SameKind node' := by
  cases h with
  | none => exact Or.inl ⟨rfl, rfl⟩
  | some hkind => exact Or.inr ⟨_, _, rfl, rfl, hkind⟩

/-- The new file is where there was nothing. Elsewhere there is a node of the same kind as before,
or still none. -/
theorem IsVacant.at?_withFile (h : fs.IsVacant new) (text : Text) (location : List Text) :
    (location = new ∧ fs.root.at? location.reverse = none ∧
      (fs.withFile new text).root.at? location.reverse = some (.file text)) ∨
    (location ≠ new ∧ fs.root.at? location.reverse = none ∧
      (fs.withFile new text).root.at? location.reverse = none) ∨
    ∃ node node', fs.root.at? location.reverse = some node ∧
      (fs.withFile new text).root.at? location.reverse = some node' ∧ node.SameKind node' := by
  obtain ⟨name, above, entries, rfl, habove, hnew⟩ := h
  have hnode := FileNode.at?_put_new text habove hnew location.reverse
  rw [← List.reverse_cons] at hnode
  split at hnode
  · rename_i heq
    exact Or.inl ⟨List.reverse_inj.mp heq, hnode⟩
  · rename_i hne
    obtain ⟨hnone, hnone'⟩ | hsome := rel_cases hnode
    · exact Or.inr (Or.inl ⟨fun heq => hne (by rw [heq]), hnone, hnone'⟩)
    · exact Or.inr (Or.inr hsome)

/-- Where there was a node, there is one of the same kind. -/
theorem IsVacant.at?_withFile_of_some (h : fs.IsVacant new) (text : Text) {here : FileNode}
    (hhere : fs.root.at? location.reverse = some here) :
    ∃ here', (fs.withFile new text).root.at? location.reverse = some here' ∧
      here.SameKind here' := by
  obtain ⟨-, hnone, -⟩ | ⟨-, hnone, -⟩ | ⟨node, node', hnode, hnode', hkind⟩ :=
    h.at?_withFile text location
  · exact absurd (hnone.symm.trans hhere) (by simp)
  · exact absurd (hnone.symm.trans hhere) (by simp)
  · obtain rfl : node = here := Option.some.inj (hnode.symm.trans hhere)
    exact ⟨node', hnode', hkind⟩

/-- The two resolutions are both refused, or lead to the same location and there to nodes of the
same kind or to none. One that led to the empty place leads to the new file. -/
inductive Grown (new : List Text) (text : Text) :
    Except Refusal Place → Except Refusal Place → Prop
  | refused (refusal refusal' : Refusal) : Grown new text (.error refusal) (.error refusal')
  | vacant {location : List Text} (h : location ≠ new) :
    Grown new text (.ok (.vacant location)) (.ok (.vacant location))
  | made : Grown new text (.ok (.vacant new)) (.ok (.found new (.file text)))
  | found (location : List Text) {node node' : FileNode} (h : node.SameKind node') :
    Grown new text (.ok (.found location node)) (.ok (.found location node'))

/-- A resolution that arrives at the new file has come to its end. -/
private theorem walkToLink_at_file {fs : FileSystem} {follow : Bool}
    {onLink : List Text → List Text → Except Refusal Place}
    (h : fs.root.at? location.reverse = some (.file text)) (pieces : List Text) :
    fs.walkToLink follow onLink location pieces =
      if pieces.isEmpty then .ok (.found location (.file text)) else .error .notADirectory := by
  cases pieces with
  | nil =>
    rw [walkToLink, h]
    rfl
  | cons piece rest =>
    rw [walkToLink, h]
    rfl

private theorem walkToLink_grown (hnew : fs.IsVacant new) (text : Text) {follow : Bool}
    {onLink onLink' : List Text → List Text → Except Refusal Place}
    (hlink : ∀ location pieces here, fs.root.at? location.reverse = some here →
      Grown new text (onLink location pieces) (onLink' location pieces))
    {pieces : List Text} {here : FileNode} (hhere : fs.root.at? location.reverse = some here) :
    Grown new text (fs.walkToLink follow onLink location pieces)
      ((fs.withFile new text).walkToLink follow onLink' location pieces) := by
  -- by induction on the pieces, from a node that was there before
  induction pieces generalizing location here with
  | nil =>
    obtain ⟨here', hhere', hkind⟩ := hnew.at?_withFile_of_some text hhere
    rw [walkToLink, walkToLink, hhere, hhere']
    exact .found location hkind
  | cons piece rest ih =>
    obtain ⟨here', hhere', hkind⟩ := hnew.at?_withFile_of_some text hhere
    have hentry := hnew.at?_withFile text (piece :: location)
    rw [at?_reverse_cons piece hhere, at?_reverse_cons piece hhere'] at hentry
    rw [walkToLink, walkToLink]
    simp only [hhere, hhere', hkind.isDirectory_eq]
    -- every test is about the pieces or about the kind of a node
    split
    · exact .refused _ _
    rename_i hdirectory
    split
    · exact ih hhere
    split
    · obtain ⟨above, habove, -⟩ := exists_at?_tail hhere (by simpa using hdirectory)
      exact ih habove
    split
    · exact .refused _ _
    obtain ⟨rfl, hchild, hchild'⟩ | ⟨hne, hchild, hchild'⟩ |
      ⟨child, child', hchild, hchild', hsame⟩ := hentry
    · -- the entry is the new file, and nothing lies behind it
      rw [hchild, hchild']
      dsimp only
      rw [walkToLink_at_file (by rw [at?_reverse_cons piece hhere', hchild'])]
      split
      · exact .made
      · exact .refused _ _
    · rw [hchild, hchild']
      dsimp only
      split
      · exact .vacant hne
      · exact .refused _ _
    · have hnext : fs.root.at? (piece :: location).reverse = some child := by
        rw [at?_reverse_cons piece hhere, hchild]
      rw [hchild, hchild']
      obtain ⟨_, _, rfl, rfl⟩ | ⟨target, rfl, rfl⟩ | ⟨_, _, rfl, rfl⟩ := hsame.cases
      · exact ih hnext
      · dsimp only
        split
        · exact .found _ rfl
        · split
          · exact hlink [] _ fs.root rfl
          · exact hlink _ _ _ hhere
      · exact ih hnext

private theorem walk_grown (hnew : fs.IsVacant new) (text : Text) (follow : Bool) (links : Nat)
    {pieces : List Text} {here : FileNode} (hhere : fs.root.at? location.reverse = some here) :
    Grown new text (fs.walk follow links location pieces)
      ((fs.withFile new text).walk follow links location pieces) := by
  induction links generalizing location pieces here with
  | zero => exact walkToLink_grown hnew text (fun _ _ _ _ => .refused _ _) hhere
  | succ links ih => exact walkToLink_grown hnew text (fun _ _ _ hhere => ih hhere) hhere

/-- Paths lead where they led before, or to the new file in the empty place. -/
theorem place_grown (hnew : fs.IsVacant new) (text : Text) (follow : Bool) (path : Text) :
    Grown new text (fs.place follow path) ((fs.withFile new text).place follow path) := by
  have hroot : fs.root.at? ([] : List Text).reverse = some fs.root := rfl
  unfold place
  split
  · exact .refused _ _
  split
  · exact .refused _ _
  split
  · exact walk_grown hnew text follow _ hroot
  · exact walk_grown hnew text follow _ hroot

/-- A path that led to the empty place leads to the new file. -/
theorem place_withFile_new (text : Text) (h : fs.place true path = .ok (.vacant new)) :
    (fs.withFile new text).place true path = .ok (.found new (.file text)) := by
  have hgrown := place_grown (isVacant_of_place h) text true path
  rw [h] at hgrown
  cases hplace : (fs.withFile new text).place true path <;> rw [hplace] at hgrown <;> cases hgrown
  · rename_i hne
    exact absurd rfl hne
  · rfl

/-- What is read is what was read before, or it is the new file that is read. -/
theorem of_content_withFile {content : Text} (hnew : fs.IsVacant new) (text : Text)
    (h : (fs.withFile new text).content path = .ok content) :
    fs.content path = .ok content ∨ (fs.withFile new text).locate? path = some new := by
  obtain ⟨location, hplace⟩ := content_eq_ok_iff.mp h
  have hgrown := place_grown hnew text true path
  rw [hplace] at hgrown
  cases hold : fs.place true path with
  | error refusal =>
    rw [hold] at hgrown
    cases hgrown
  | ok place =>
    rw [hold] at hgrown
    cases hgrown with
    | made => exact Or.inr (by rw [locate?, hplace])
    | found _ hkind =>
      obtain ⟨before, after, rfl, hafter⟩ | ⟨_, -, hafter⟩ | ⟨_, _, -, hafter⟩ := hkind.cases
      · -- the file was there, so it is not the new one
        have hne : location ≠ new := by
          rintro rfl
          exact absurd (hnew.at?_eq_none.symm.trans (at?_of_place hold)) (by simp)
        have hfree : ∀ node, fs.root.at? new.reverse = some node → node.isFile = true := by
          simp [hnew.at?_eq_none]
        have hsame := place_withFile text hfree hold
        rw [hplace, if_neg hne] at hsame
        obtain ⟨-, hcontent⟩ := Place.found.inj (Except.ok.inj hsame)
        obtain rfl := FileNode.file.inj hcontent
        exact Or.inl (content_eq_ok_iff.mpr ⟨location, hold⟩)
      · exact absurd hafter (by simp)
      · exact absurd hafter (by simp)

end FileSystem

end DependencyAudit

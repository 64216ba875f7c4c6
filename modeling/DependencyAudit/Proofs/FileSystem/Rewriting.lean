import DependencyAudit.Proofs.FileSystem.RealPath

/-!
# Real paths and locations

Where the rewriting of an absolute path comes to an end, the file system arrives at a node too,
provided that it follows as many links, and the rewritten text is the path of the location of that
node. Together with the converse this says what the rewriting finds: every path through at most
`FileSystem.maxRealPathLinks` links that leads somewhere, and nothing else.

## Main definitions

* `FileSystem.FirstRewrite`: what the rewriting does with its first piece;
* `FileSystem.traced?`: where a path leads, through as many links as the rewriting follows.

## Main results

* `FileSystem.child?_of_node`: what is found under the path of an entry;
* `FileSystem.resolveLinks?_eq`: what the rewriting finds;
* `FileSystem.LeadsTo.traced?`: what exists is traced to its location.
-/

namespace DependencyAudit.FileSystem

open DependencyAudit.Path (IsPlain climb ofComponents)

variable {fs : FileSystem}

/-! ## Rewriting that succeeds -/

theorem isDirectory_root {names : List Text} {here : FileNode}
    (hhere : fs.root.at? names = some here) (hdirectory : here.isDirectory = true) :
    fs.root.isDirectory = true := by
  cases names with
  | nil =>
    obtain rfl : fs.root = here := Option.some.inj hhere
    exact hdirectory
  | cons name more =>
    obtain ⟨entries, -, hroot, -⟩ := FileNode.at?_cons_eq_some hhere
    rw [hroot]
    rfl

/-- What is found under the path of an entry is the entry. -/
theorem child?_of_node (hfs : fs.root.IsOrderly) {k : Nat} {location : List Text} {piece : Text}
    {here child : FileNode} (hhere : fs.root.at? location.reverse = some here)
    (hdirectory : here.isDirectory = true) (hslash : Path.slash ∉ piece)
    (hskip : (piece.isEmpty || piece = Text.ofString ".") = false)
    (hup : piece ≠ Text.ofString "..")
    (h : fs.node false (ofComponents true (climb k ++ (location.reverse ++ [piece]))) =
      .ok child) :
    IsStepDown piece ∧ here.child? piece = some child := by
  obtain ⟨found, hplace⟩ := exists_place_of_node h
  obtain ⟨-, hwalk⟩ := walk_of_place (Path.isAbsolute_ofComponents _) hplace
  have hroot := isDirectory_root hhere hdirectory
  have hnames := (hfs.of_at? hhere).1
  have hslashes : ∀ name ∈ climb k ++ (location.reverse ++ [piece]), Path.slash ∉ name := by
    simp only [List.forall_mem_append]
    exact ⟨fun name => Path.slash_not_mem_climb, fun name hname => (hnames name hname).no_slash,
      by simpa using hslash⟩
  have hnotLink : ∀ target, here = .link target → (false = false ∧ [piece] = []) := by
    rintro target rfl
    exact absurd hdirectory (by simp [FileNode.isDirectory])
  -- the walk arrives in the directory, and the piece is the only one that is left
  rw [Path.pieces_ofComponents (by simp) hslashes, maxLinks, walk, walkToLink_nil_cons rfl hroot,
    walkToLink_climb hroot, walkToLink_names_append rfl hhere hnames hnotLink,
    List.reverse_reverse, List.append_nil, walkToLink, hhere] at hwalk
  simp only [hdirectory, Bool.not_true, Bool.false_eq_true, if_false, hskip, if_neg hup] at hwalk
  split at hwalk
  · exact absurd hwalk (by simp)
  rename_i hshort
  refine ⟨⟨hskip, hup, Nat.not_lt.mp hshort⟩, ?_⟩
  have hat := at?_reverse_cons piece hhere
  split at hwalk
  · exact absurd hwalk (by simp)
  · rename_i target hchild
    have hfound : Place.found (piece :: location) (.link target) = .found found child :=
      Except.ok.inj hwalk
    obtain ⟨-, rfl⟩ := Place.found.inj hfound
    exact hchild
  · rename_i entry hnotLink hchild
    rw [walkToLink, hat, hchild] at hwalk
    obtain ⟨-, rfl⟩ := Place.found.inj (Except.ok.inj hwalk)
    exact hchild

/-- The directory above a node, or the root directory. -/
theorem exists_at?_tail {location : List Text} {here : FileNode}
    (hhere : fs.root.at? location.reverse = some here) (hdirectory : here.isDirectory = true) :
    ∃ above, fs.root.at? location.tail.reverse = some above ∧ above.isDirectory = true := by
  cases location with
  | nil => exact ⟨here, hhere, hdirectory⟩
  | cons last before =>
    rw [List.reverse_cons, FileNode.at?_concat, Option.bind_eq_some_iff] at hhere
    obtain ⟨above, habove, hchild⟩ := hhere
    refine ⟨above, habove, ?_⟩
    cases above with
    | directory => rfl
    | file | link => exact absurd hchild (by simp [FileNode.child?, FileNode.entries])

/-- What the rewriting of an absolute path does with its first piece, when it goes on to the end. -/
inductive FirstRewrite (fs : FileSystem)
    (onLink : Bool → (done pieces : List Text) → Option Text) (done : List Text) (piece : Text)
    (rest : List Text) (real : Text) : Prop
  | skip (hskip : (piece.isEmpty || piece = Text.ofString ".") = true)
      (h : fs.resolveToLink onLink true done rest = some real)
  | up (hup : piece = Text.ofString "..")
      (h : fs.resolveToLink onLink true
        (match done with
          | [] => [Text.ofString ".."]
          | last :: before =>
            if last = Text.ofString ".." then Text.ofString ".." :: done else before)
        rest = some real)
  | link (hskip : (piece.isEmpty || piece = Text.ofString ".") = false)
      (hup : piece ≠ Text.ofString "..") {target : Text}
      (hnode : fs.node false (ofComponents true (piece :: done).reverse) = .ok (.link target))
      (h : onLink true (if Path.isAbsolute target then [] else done) (Path.pieces target ++ rest) =
        some real)
  | enter (hskip : (piece.isEmpty || piece = Text.ofString ".") = false)
      (hup : piece ≠ Text.ofString "..") {child : FileNode}
      (hnode : fs.node false (ofComponents true (piece :: done).reverse) = .ok child)
      (hnotLink : ∀ target, child ≠ .link target)
      (hdirectory : rest ≠ [] → child.isDirectory = true)
      (h : fs.resolveToLink onLink true (piece :: done) rest = some real)

theorem firstRewrite_of_resolveToLink {onLink : Bool → List Text → List Text → Option Text}
    {done rest : List Text} {piece real : Text}
    (h : fs.resolveToLink onLink true done (piece :: rest) = some real) :
    fs.FirstRewrite onLink done piece rest real := by
  -- one case for each way in which a piece can be rewritten
  unfold resolveToLink at h
  split at h
  · rename_i hskip
    exact .skip hskip h
  rename_i hskip
  rw [Bool.not_eq_true] at hskip
  split at h
  · rename_i hup
    subst hup
    exact .up rfl h
  rename_i hup
  dsimp only at h
  split at h
  · exact absurd h (by simp)
  · rename_i target hnode
    refine .link hskip hup hnode ?_
    split at h
    · rename_i habsolute
      rwa [if_pos habsolute]
    · rename_i hrelative
      rwa [if_neg hrelative]
  · rename_i child hnotLink hnode
    split at h
    · exact absurd h (by simp)
    rename_i hgo
    refine .enter hskip hup hnode (fun target => hnotLink target) (fun hne => ?_) h
    simpa [hne] using hgo

/-- The rewritten components stand for the location of a node. -/
structure StandsAt (fs : FileSystem) (done location : List Text) (here : FileNode) : Prop where
  /-- The components spell the location. -/
  tracks : Tracks done location
  /-- The node is found at the location. -/
  at? : fs.root.at? location.reverse = some here

private theorem walkToLink_of_resolveToLink (hfs : fs.root.IsOrderly)
    {onLink : List Text → List Text → Except Refusal Place}
    {onLink' : Bool → List Text → List Text → Option Text} {real : Text}
    (hlink : ∀ done location here pieces, fs.StandsAt done location here →
      here.isDirectory = true → (∀ piece ∈ pieces, Path.slash ∉ piece) →
      onLink' true done pieces = some real →
      ∃ found node, onLink location pieces = .ok (.found found node) ∧
        real = ofComponents true found.reverse)
    {done location pieces : List Text} {here : FileNode} (hstands : fs.StandsAt done location here)
    (hdirectory : pieces ≠ [] → here.isDirectory = true)
    (hslash : ∀ piece ∈ pieces, Path.slash ∉ piece)
    (h : fs.resolveToLink onLink' true done pieces = some real) :
    ∃ found node, fs.walkToLink true onLink location pieces = .ok (.found found node) ∧
      real = ofComponents true found.reverse := by
  induction pieces generalizing done location here with
  | nil =>
    obtain ⟨k, hk⟩ := hstands.tracks.reverse
    rw [resolveToLink, hk, Path.clean_climb k fun name hname =>
      isPlain_location hfs hstands.at? name (List.mem_reverse.mp hname)] at h
    refine ⟨location, here, ?_, (Option.some.inj h).symm⟩
    rw [walkToLink, hstands.at?]
  | cons piece rest ih =>
    obtain ⟨hpiece, hrest⟩ := List.forall_mem_cons.mp hslash
    have hdir := hdirectory (List.cons_ne_nil _ _)
    -- the step of the rewriting is one of a walk that begins in the directory
    suffices hstep : ∃ found node, fs.FirstStep onLink location piece rest here
        (.found found node) ∧ real = ofComponents true found.reverse by
      obtain ⟨found, node, hfirst, hreal⟩ := hstep
      exact ⟨found, node, walkToLink_cons_eq_ok_iff.mpr ⟨here, hstands.at?, hdir, hfirst⟩, hreal⟩
    have hdown : Tracks (piece :: done) (piece :: location) := by
      obtain ⟨k, rfl⟩ := hstands.tracks
      exact ⟨k, rfl⟩
    -- the entry of the directory is what the rewriting asks for
    have hchild : ∀ child, (piece.isEmpty || piece = Text.ofString ".") = false →
        piece ≠ Text.ofString ".." →
        fs.node false (ofComponents true (piece :: done).reverse) = .ok child →
        IsStepDown piece ∧ here.child? piece = some child := by
      intro child hskip hup hnode
      obtain ⟨k, hk⟩ := hdown.reverse
      rw [hk, List.reverse_cons] at hnode
      exact child?_of_node hfs hstands.at? hdir hpiece hskip hup hnode
    cases firstRewrite_of_resolveToLink h with
    | skip hskip hgo =>
      obtain ⟨found, node, hwalk, hreal⟩ := ih hstands (fun _ => hdir) hrest hgo
      exact ⟨found, node, .skip hskip hwalk, hreal⟩
    | up hup hgo =>
      -- above the root directory, the rewritten text climbs and the walk stays
      obtain ⟨k, rfl⟩ := hstands.tracks
      obtain ⟨above, habove, habove'⟩ := exists_at?_tail hstands.at? hdir
      have hup' := tracks_tail k (isPlain_location hfs hstands.at?)
      obtain ⟨found, node, hwalk, hreal⟩ := ih ⟨hup', habove⟩ (fun _ => habove') hrest hgo
      exact ⟨found, node, .up hup hwalk, hreal⟩
    | @link hskip hup target hnode hgo =>
      obtain ⟨hstep, hentry⟩ := hchild _ hskip hup hnode
      have hpieces : ∀ p ∈ Path.pieces target ++ rest, Path.slash ∉ p :=
        List.forall_mem_append.mpr ⟨fun p => Text.not_mem_of_mem_splitOnByte, hrest⟩
      obtain ⟨start, hstart, hstart'⟩ : ∃ start, fs.StandsAt
          (if Path.isAbsolute target then [] else done)
          (if Path.isAbsolute target then [] else location) start ∧ start.isDirectory = true := by
        split
        · exact ⟨fs.root, ⟨Tracks.nil, rfl⟩, isDirectory_root hstands.at? hdir⟩
        · exact ⟨here, hstands, hdir⟩
      obtain ⟨found, node, hwalk, hreal⟩ := hlink _ _ _ _ hstart hstart' hpieces hgo
      exact ⟨found, node, .link hstep hentry hwalk, hreal⟩
    | enter hskip hup hnode hnotLink hbelow hgo =>
      obtain ⟨hstep, hentry⟩ := hchild _ hskip hup hnode
      have hat := (at?_reverse_cons piece hstands.at?).trans hentry
      obtain ⟨found, node, hwalk, hreal⟩ := ih ⟨hdown, hat⟩ hbelow hrest hgo
      exact ⟨found, node, .enter hstep hentry hnotLink hwalk, hreal⟩

private theorem walk_of_resolvePieces (hfs : fs.root.IsOrderly) {links : Nat}
    {done location pieces : List Text} {here : FileNode} {real : Text}
    (hstands : fs.StandsAt done location here) (hdirectory : here.isDirectory = true)
    (hslash : ∀ piece ∈ pieces, Path.slash ∉ piece)
    (h : fs.resolvePieces links true done pieces = some real) :
    ∃ found node, fs.walk true links location pieces = .ok (.found found node) ∧
      real = ofComponents true found.reverse := by
  induction links generalizing done location here pieces with
  | zero =>
    refine walkToLink_of_resolveToLink hfs ?_ hstands (fun _ => hdirectory) hslash h
    -- no further link is followed, so none was met
    exact fun _ _ _ _ _ _ _ hnone => absurd hnone (by simp)
  | succ links ih =>
    refine walkToLink_of_resolveToLink hfs ?_ hstands (fun _ => hdirectory) hslash h
    exact fun _ _ _ _ hstands hdirectory hslash hlink => ih hstands hdirectory hslash hlink

/-! ## Where a path leads -/

/-- The location of what was found. -/
def foundAt? : Except Refusal Place → Option (List Text)
  | .ok (.found location _) => some location.reverse
  | _ => none

theorem foundAt?_eq_some_iff {result : Except Refusal Place} {names : List Text} :
    foundAt? result = some names ↔ ∃ node, result = .ok (.found names.reverse node) := by
  constructor
  · intro h
    unfold foundAt? at h
    split at h
    · rename_i location node
      obtain rfl := Option.some.inj h
      exact ⟨node, by rw [List.reverse_reverse]⟩
    · cases h
  · rintro ⟨node, rfl⟩
    rw [foundAt?, List.reverse_reverse]

/-- The location that a path leads to, through as many links as rewriting follows. -/
def traced? (fs : FileSystem) (path : Text) : Option (List Text) :=
  foundAt? (fs.walk true maxRealPathLinks [] (Path.pieces path))

theorem isPlain_traced? (hfs : fs.root.IsOrderly) {path : Text} {names : List Text}
    (h : fs.traced? path = some names) : ∀ name ∈ names, IsPlain name := by
  obtain ⟨node, hwalk⟩ := foundAt?_eq_some_iff.mp h
  obtain ⟨node', -, hat⟩ := walk_of_extends (.refl fs.root) hwalk
  rw [List.reverse_reverse] at hat
  exact fun name hname => ((hfs.of_at? hat).1 name hname).toIsPlain

/-- Rewriting finds what a walk finds. -/
theorem resolveLinks?_eq (hfs : fs.root.IsOrderly) (hroot : fs.root.isDirectory = true)
    {path : Text} (habsolute : Path.isAbsolute path = true) :
    fs.resolveLinks? path = (fs.traced? path).map (ofComponents true) := by
  rw [resolveLinks?, habsolute]
  cases hresolve : fs.resolvePieces maxRealPathLinks true [] (Path.pieces path) with
  -- a walk over the rewritten text is a walk over the tree
  | some real =>
    have hslash : ∀ piece ∈ Path.pieces path, Path.slash ∉ piece := fun piece =>
      Text.not_mem_of_mem_splitOnByte
    obtain ⟨found, node, hwalk, rfl⟩ :=
      walk_of_resolvePieces hfs ⟨Tracks.nil, rfl⟩ hroot hslash hresolve
    rw [traced?, hwalk]
    rfl
  | none =>
    cases htraced : fs.traced? path with
    | none => rfl
    | some names =>
      obtain ⟨node, hwalk⟩ := foundAt?_eq_some_iff.mp htraced
      -- conversely no walk over the tree needs more links than are followed
      have hsome := resolvePieces_of_walk hfs (Nat.le_refl maxRealPathLinks) Tracks.nil hwalk
      rw [hresolve] at hsome
      cases hsome

/-- What exists is traced to its location. -/
theorem LeadsTo.traced? (hfs : fs.root.IsOrderly) (hroot : fs.root.isDirectory = true)
    {path : Text} {names : List Text} {node : FileNode}
    (habsolute : Path.isAbsolute path = true) (h : fs.LeadsTo path names node) :
    fs.traced? path = some names := by
  obtain ⟨-, hwalk⟩ := walk_of_place habsolute h
  have hresolve := resolvePieces_of_walk hfs (by decide : maxLinks ≤ maxRealPathLinks)
    Tracks.nil hwalk
  have hlinks := resolveLinks?_eq hfs hroot habsolute
  rw [resolveLinks?, habsolute, hresolve, List.reverse_reverse, eq_comm, Option.map_eq_some_iff]
    at hlinks
  obtain ⟨names', htraced, hpath⟩ := hlinks
  rw [htraced, Path.ofComponents_injective (isPlain_traced? hfs htraced) (h.isPlain hfs) hpath]

end DependencyAudit.FileSystem

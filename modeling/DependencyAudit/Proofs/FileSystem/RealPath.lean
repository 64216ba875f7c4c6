import DependencyAudit.FileSystem.RealPath
import DependencyAudit.Proofs.FileSystem.Orderly
import DependencyAudit.Proofs.Path.Relative

/-!
# Real paths of what exists

A path is resolved in two ways. The file system walks its pieces from directory to directory and
follows every link that it meets; `FileSystem.resolveLinks?` rewrites the text of the path, asks
for one beginning after the other whether it is a link, and goes on in front of the target if it
is one. Where the file system arrives at a node, the rewritten text is the path of the location of
that node. The file system gives up after fewer links than the rewriting does.

## Main definitions

* `FileSystem.LeadsTo`: where a path leads, all links followed;
* `FileSystem.FirstStep`: what a walk does with its first piece;
* `FileSystem.Tracks`: rewritten components that stand for a location.

## Main results

* `FileSystem.walkToLink_cons_eq_ok_iff`: how a walk begins;
* `FileSystem.walk_append`: a walk that goes on from where another one ends;
* `FileSystem.walkToLink_names_append`: a walk along names that are there, without links;
* `FileSystem.LeadsTo.below`: the paths of what lies below;
* `FileSystem.realPath_of_leadsTo`: the real path of what exists.
-/

namespace DependencyAudit.FileSystem

open DependencyAudit.Path (IsPlain IsEntryName climb ofComponents)

variable {fs : FileSystem}

/-- The path leads to the node whose location has the given components, all links followed. -/
def LeadsTo (fs : FileSystem) (path : Text) (names : List Text) (node : FileNode) : Prop :=
  fs.place true path = .ok (.found names.reverse node)

/-- Where a path leads there is the node. -/
theorem LeadsTo.at? {path : Text} {names : List Text} {node : FileNode}
    (h : fs.LeadsTo path names node) : fs.root.at? names = some node := by
  simpa using at?_of_place h

/-- Locations in an orderly tree are plain. -/
theorem isPlain_location (hfs : fs.root.IsOrderly) {location : List Text} {here : FileNode}
    (hhere : fs.root.at? location.reverse = some here) : ∀ name ∈ location, IsPlain name :=
  fun name hname => ((hfs.of_at? hhere).1 name (List.mem_reverse.mpr hname)).toIsPlain

/-- A path leads to plain components. -/
theorem LeadsTo.isPlain {path : Text} {names : List Text} {node : FileNode}
    (hfs : fs.root.IsOrderly) (h : fs.LeadsTo path names node) : ∀ name ∈ names, IsPlain name :=
  fun name hname => ((hfs.of_at? h.at?).1 name hname).toIsPlain

instance (fs : FileSystem) (path : Text) (names : List Text) (text : Text) :
    Decidable (fs.LeadsTo path names (.file text)) :=
  match h : fs.place true path with
  | .ok (.found location (.file content)) =>
    decidable_of_iff (location = names.reverse ∧ content = text) (by simp [LeadsTo, h])
  | .ok (.found _ (.link _)) => isFalse (by simp [LeadsTo, h])
  | .ok (.found _ (.directory _)) => isFalse (by simp [LeadsTo, h])
  | .ok (.vacant _) => isFalse (by simp [LeadsTo, h])
  | .error _ => isFalse (by simp [LeadsTo, h])

/-- A node that a path names is found somewhere. -/
theorem exists_place_of_node {follow : Bool} {path : Text} {node : FileNode}
    (h : fs.node follow path = .ok node) :
    ∃ location, fs.place follow path = .ok (.found location node) := by
  unfold FileSystem.node at h
  cases hplace : fs.place follow path with
  | error refusal =>
    rw [hplace] at h
    exact absurd h (by simp [bind, Except.bind])
  | ok place =>
    rw [hplace] at h
    cases place with
    | vacant => exact absurd h (by simp [bind, Except.bind])
    | found location node' =>
      obtain rfl : node' = node := Except.ok.inj h
      exact ⟨location, rfl⟩

/-! ## Walks -/

/-- A path that leads somewhere has no zero byte, and an absolute one is walked from the root
directory. -/
theorem walk_of_place {follow : Bool} {path : Text} {place : Place}
    (habsolute : Path.isAbsolute path = true) (h : fs.place follow path = .ok place) :
    0 ∉ path ∧ fs.walk follow maxLinks [] (Path.pieces path) = .ok place := by
  unfold FileSystem.place at h
  split at h
  · exact absurd h (by simp)
  split at h
  · exact absurd h (by simp)
  rename_i hzero
  exact ⟨by simpa using hzero, h⟩

/-- The place of an absolute path is found by walking from the top. -/
theorem place_of_walk {follow : Bool} {path : Text} (habsolute : Path.isAbsolute path = true)
    (hzero : 0 ∉ path) :
    fs.place follow path = fs.walk follow maxLinks [] (Path.pieces path) := by
  have hempty : path.isEmpty = false := by
    cases path with
    | nil => exact absurd habsolute (by simp [Path.isAbsolute])
    | cons => rfl
  rw [FileSystem.place, hempty, if_neg (by simp), if_neg (by simpa using hzero),
    if_pos habsolute]

/-- The piece of a path is the name of an entry, and not too long for one. -/
structure IsStepDown (piece : Text) : Prop where
  /-- The piece does not stay in place. -/
  no_skip : (piece.isEmpty || piece = Text.ofString ".") = false
  /-- The piece does not lead up. -/
  no_up : piece ≠ Text.ofString ".."
  /-- The piece is not too long for the name of an entry. -/
  short : piece.length ≤ maxNameLength

/-- What a walk that follows every link does with its first piece, at the node `here`. -/
inductive FirstStep (fs : FileSystem)
    (onLink : (location pieces : List Text) → Except Refusal Place) (location : List Text)
    (piece : Text) (rest : List Text) (here : FileNode) (place : Place) : Prop
  | skip (hskip : (piece.isEmpty || piece = Text.ofString ".") = true)
      (h : fs.walkToLink true onLink location rest = .ok place)
  | up (hup : piece = Text.ofString "..")
      (h : fs.walkToLink true onLink location.tail rest = .ok place)
  | vacant (hpiece : IsStepDown piece) (hchild : here.child? piece = none) (hrest : rest = [])
      (hplace : place = .vacant (piece :: location))
  | link (hpiece : IsStepDown piece) {target : Text}
      (hchild : here.child? piece = some (.link target))
      (h : onLink (if Path.isAbsolute target then [] else location)
        (Path.pieces target ++ rest) = .ok place)
  | enter (hpiece : IsStepDown piece) {child : FileNode} (hchild : here.child? piece = some child)
      (hnotLink : ∀ target, child ≠ .link target)
      (h : fs.walkToLink true onLink (piece :: location) rest = .ok place)

/-- A walk that is not refused begins in a directory, with one of these steps. -/
theorem walkToLink_cons_eq_ok_iff {onLink : List Text → List Text → Except Refusal Place}
    {location rest : List Text} {piece : Text} {place : Place} :
    fs.walkToLink true onLink location (piece :: rest) = .ok place ↔
      ∃ here, fs.root.at? location.reverse = some here ∧ here.isDirectory = true ∧
        fs.FirstStep onLink location piece rest here place := by
  constructor
  · intro h
    -- the checks of a step, in their order, with what is left when they have passed
    unfold walkToLink at h
    split at h
    · exact absurd h (by simp)
    rename_i here hhere
    split at h
    · exact absurd h (by simp)
    rename_i hdirectory
    refine ⟨here, hhere, by simpa using hdirectory, ?_⟩
    split at h
    · rename_i hskip
      exact .skip hskip h
    rename_i hskip
    split at h
    · rename_i hup
      exact .up hup h
    rename_i hup
    split at h
    · exact absurd h (by simp)
    rename_i hshort
    have hpiece : IsStepDown piece :=
      ⟨Bool.eq_false_iff.mpr hskip, hup, Nat.not_lt.mp hshort⟩
    split at h
    · rename_i hchild
      split at h
      · rename_i hrest
        exact .vacant hpiece hchild (List.isEmpty_iff.mp hrest) (Except.ok.inj h).symm
      · exact absurd h (by simp)
    · rename_i target hchild
      rw [if_neg (by simp)] at h
      exact .link hpiece hchild h
    · rename_i child hnotLink hchild
      exact .enter hpiece hchild hnotLink h
  · rintro ⟨here, hhere, hdirectory, hstep⟩
    rw [walkToLink, hhere]
    simp only [hdirectory, Bool.not_true, Bool.false_eq_true, if_false]
    -- each step passes the checks in front of its own
    cases hstep with
    | skip hskip h => rw [if_pos hskip, h]
    | up hup h =>
      subst hup
      exact h
    | vacant hpiece hchild hrest hplace =>
      simp [hpiece.no_skip, hpiece.no_up, Nat.not_lt.mpr hpiece.short, hchild, hrest, hplace]
    | link hpiece hchild h =>
      simp [hpiece.no_skip, hpiece.no_up, Nat.not_lt.mpr hpiece.short, hchild, h]
    | enter hpiece hchild hnotLink h =>
      rename_i child
      cases child with
      | link target => exact absurd rfl (hnotLink target)
      | file | directory =>
        simp [hpiece.no_skip, hpiece.no_up, Nat.not_lt.mpr hpiece.short, hchild, h]

/-- An empty piece, as in front of an absolute path, leads nowhere else. -/
theorem walkToLink_nil_cons {follow : Bool}
    {onLink : List Text → List Text → Except Refusal Place} {location : List Text}
    {here : FileNode} (hhere : fs.root.at? location.reverse = some here)
    (hdirectory : here.isDirectory = true) (pieces : List Text) :
    fs.walkToLink follow onLink location ([] :: pieces) =
      fs.walkToLink follow onLink location pieces := by
  rw [walkToLink, hhere]
  simp [hdirectory]

/-- Above the root directory there is only the root directory. -/
theorem walkToLink_climb {follow : Bool}
    {onLink : List Text → List Text → Except Refusal Place}
    (hdirectory : fs.root.isDirectory = true) (k : Nat) (pieces : List Text) :
    fs.walkToLink follow onLink [] (climb k ++ pieces) =
      fs.walkToLink follow onLink [] pieces := by
  induction k with
  | zero => rfl
  | succ k ih =>
    rw [climb, List.replicate_succ, List.cons_append, walkToLink]
    have hroot : fs.root.at? ([] : List Text).reverse = some fs.root := rfl
    simp only [hroot, hdirectory]
    exact ih

/-- A walk passes names that are there. Behind a link there must be nothing left, and the link has
to be left alone. -/
theorem walkToLink_names_append {follow : Bool}
    {onLink : List Text → List Text → Except Refusal Place} {location names : List Text}
    {here node : FileNode} (hhere : fs.root.at? location.reverse = some here)
    (hnode : here.at? names = some node) (hnames : ∀ name ∈ names, IsEntryName name)
    {more : List Text} (hend : ∀ target, node = .link target → follow = false ∧ more = []) :
    fs.walkToLink follow onLink location (names ++ more) =
      fs.walkToLink follow onLink (names.reverse ++ location) more := by
  induction names generalizing location here with
  | nil => rfl
  | cons name rest ih =>
    obtain ⟨hname, hrest⟩ := List.forall_mem_cons.mp hnames
    -- the first name is an entry, and the walk goes on below it
    obtain ⟨entries, child, rfl, hchild, hbelow⟩ := FileNode.at?_cons_eq_some hnode
    have hat := at?_reverse_cons name hhere
    rw [show (FileNode.directory entries).child? name = some child from hchild] at hat
    have hgo := ih hat hbelow hrest
    rw [List.reverse_cons, List.append_assoc, List.singleton_append, ← hgo, List.cons_append,
      walkToLink, hhere]
    simp only [FileNode.isDirectory, hname.nonempty, hname.ne_dot, hname.ne_dotdot,
      Nat.not_lt.mpr hname.short, FileNode.child?, FileNode.entries, hchild]
    cases child with
    | file | directory => rfl
    | link target =>
      -- nothing lies below a link, so it is the end
      cases rest with
      | cons => exact absurd hbelow (by simp [FileNode.at?, FileNode.child?, FileNode.entries])
      | nil =>
        obtain rfl : FileNode.link target = node := Option.some.inj hbelow
        obtain ⟨rfl, rfl⟩ := hend target rfl
        have hstop : fs.walkToLink false onLink (name :: location) [] =
            .ok (.found (name :: location) (.link target)) := by
          rw [walkToLink, hat]
        exact hstop.symm

/-- A walk along names that are there ends at the node below them. A link at the end has to be
left alone. -/
theorem walkToLink_names {follow : Bool}
    {onLink : List Text → List Text → Except Refusal Place} {location names : List Text}
    {here node : FileNode} (hhere : fs.root.at? location.reverse = some here)
    (hnode : here.at? names = some node) (hnames : ∀ name ∈ names, IsEntryName name)
    (hend : ∀ target, node = .link target → follow = false) :
    fs.walkToLink follow onLink location names = .ok (.found (names.reverse ++ location) node) := by
  have hat : fs.root.at? (names.reverse ++ location).reverse = some node := by
    rw [List.reverse_append, List.reverse_reverse, FileNode.at?_append, hhere]
    exact hnode
  have hwalk : fs.walkToLink follow onLink location (names ++ []) = _ :=
    walkToLink_names_append hhere hnode hnames fun target hlink => ⟨hend target hlink, rfl⟩
  rw [List.append_nil] at hwalk
  rw [hwalk, walkToLink, hat]

/-! ## Walks that go on -/

/-- A path that goes on is walked in two parts. -/
private theorem walkToLink_append
    {onLink onLink' : List Text → List Text → Except Refusal Place}
    {location pieces middle more : List Text} {node : FileNode} {place : Place}
    (hlink : ∀ location pieces, onLink location pieces = .ok (.found middle node) →
      onLink' location (pieces ++ more) = .ok place)
    (hmore : fs.walkToLink true onLink' middle more = .ok place)
    (h : fs.walkToLink true onLink location pieces = .ok (.found middle node)) :
    fs.walkToLink true onLink' location (pieces ++ more) = .ok place := by
  induction pieces generalizing location with
  | nil =>
    unfold walkToLink at h
    split at h
    · obtain ⟨rfl, -⟩ := Place.found.inj (Except.ok.inj h)
      exact hmore
    · exact absurd h (by simp)
  | cons piece rest ih =>
    -- the longer walk takes the same first step
    rw [List.cons_append]
    obtain ⟨here, hhere, hdirectory, hstep⟩ := walkToLink_cons_eq_ok_iff.mp h
    refine walkToLink_cons_eq_ok_iff.mpr ⟨here, hhere, hdirectory, ?_⟩
    cases hstep with
    | skip hskip hwalk => exact .skip hskip (ih hwalk)
    | up hup hwalk => exact .up hup (ih hwalk)
    | vacant _ _ _ hplace => exact absurd hplace (by simp)
    | link hpiece hchild hwalk =>
      refine .link hpiece hchild ?_
      rw [← List.append_assoc]
      exact hlink _ _ hwalk
    | enter hpiece hchild hnotLink hwalk => exact .enter hpiece hchild hnotLink (ih hwalk)

/-- A walk goes on from where another one ends. -/
theorem walk_append {links : Nat} {location pieces middle more : List Text} {node : FileNode}
    {place : Place} (hmore : ∀ links, fs.walk true links middle more = .ok place)
    (h : fs.walk true links location pieces = .ok (.found middle node)) :
    fs.walk true links location (pieces ++ more) = .ok place := by
  induction links generalizing location pieces with
  | zero => exact walkToLink_append (fun _ _ hlink => absurd hlink (by simp)) (hmore 0) h
  | succ links ih => exact walkToLink_append (fun _ _ hlink => ih hlink) (hmore (links + 1)) h

/-- A path has no zero byte if its components have none. -/
theorem zero_not_mem_ofComponents {names : List Text} (h : ∀ name ∈ names, 0 ∉ name) :
    0 ∉ ofComponents true names := by
  have hjoin : 0 ∉ Text.join [Path.slash] names := by
    induction names with
    | nil => simp [Text.join]
    | cons name more ih =>
      obtain ⟨hname, hmore⟩ := List.forall_mem_cons.mp h
      cases more with
      | nil => exact hname
      | cons next rest =>
        rw [Text.join_cons (by simp)]
        simp only [List.mem_append, not_or]
        exact ⟨⟨hname, by decide⟩, ih hmore⟩
  rw [ofComponents, if_pos rfl, List.mem_cons, not_or]
  exact ⟨by decide, hjoin⟩

/-- A walk along the components of a path goes on along the names below. -/
private theorem walk_pieces_append {links : Nat} {components names : List Text} {place : Place}
    (hne : names ≠ []) (hslash : ∀ name ∈ components ++ names, Path.slash ∉ name)
    (h : fs.walk true links [] (Path.pieces (ofComponents true components) ++ names) = .ok place) :
    fs.walk true links [] (Path.pieces (ofComponents true (components ++ names))) = .ok place := by
  rw [Path.pieces_ofComponents (by simp [hne]) hslash]
  by_cases hcomponents : components = []
  · -- the root directory: there is one more empty piece behind its separator
    subst hcomponents
    change fs.walk true links [] ([] :: [] :: names) = .ok place at h
    have hdrop : ∀ onLink, fs.walkToLink true onLink [] ([] :: [] :: names) = .ok place →
        fs.walkToLink true onLink [] ([] :: names) = .ok place := by
      intro onLink hwalk
      obtain ⟨here, hhere, hdirectory, -⟩ := walkToLink_cons_eq_ok_iff.mp hwalk
      rwa [walkToLink_nil_cons hhere hdirectory] at hwalk
    cases links with
    | zero => exact hdrop _ h
    | succ links => exact hdrop _ h
  · rwa [Path.pieces_ofComponents hcomponents fun name hname =>
      hslash name (List.mem_append_left _ hname)] at h

/-- Below what a path leads to, the path goes on with the names on the way. -/
theorem LeadsTo.below (hfs : fs.root.IsOrderly) {components base names : List Text}
    {here node : FileNode} (hcomponents : ∀ name ∈ components, IsPlain name)
    (hhere : fs.LeadsTo (ofComponents true components) base here)
    (hnode : here.at? names = some node) (hnotLink : ∀ target, node ≠ .link target) :
    fs.LeadsTo (ofComponents true (components ++ names)) (base ++ names) node := by
  by_cases hne : names = []
  · subst hne
    obtain rfl : here = node := Option.some.inj hnode
    simpa using hhere
  obtain ⟨hzero, hwalk⟩ := walk_of_place (Path.isAbsolute_ofComponents _) hhere
  obtain ⟨hnames, -⟩ := (hfs.of_at? hhere.at?).2.of_at? hnode
  have hslash : ∀ name ∈ components ++ names, Path.slash ∉ name :=
    List.forall_mem_append.mpr
      ⟨fun name hname => (hcomponents name hname).no_slash,
        fun name hname => (hnames name hname).no_slash⟩
  -- the path that leads to the directory has no zero byte, so its components have none
  have hnozero : ∀ name ∈ components ++ names, 0 ∉ name := by
    refine List.forall_mem_append.mpr ⟨fun name hname hmem => hzero ?_,
      fun name hname => (hnames name hname).no_zero⟩
    have hpiece : name ∈ Path.pieces (ofComponents true components) := by
      rw [Path.pieces_ofComponents (List.ne_nil_of_mem hname) fun name hname =>
        (hcomponents name hname).no_slash]
      exact List.mem_cons_of_mem _ hname
    exact Text.mem_of_mem_splitOnByte hpiece hmem
  -- the names below meet no link, so it does not matter how many links are left
  have hmore : ∀ links, fs.walk true links base.reverse names =
      .ok (.found (names.reverse ++ base.reverse) node) := by
    intro links
    have hat : fs.root.at? base.reverse.reverse = some here := by
      rw [List.reverse_reverse]
      exact hhere.at?
    cases links <;> exact walkToLink_names hat hnode hnames fun target hlink =>
      absurd hlink (hnotLink target)
  have hall := walk_pieces_append hne hslash (walk_append hmore hwalk)
  rw [LeadsTo, place_of_walk (Path.isAbsolute_ofComponents _) (zero_not_mem_ofComponents hnozero),
    hall, List.reverse_append]

/-! ## Rewriting -/

/-- The rewritten components stand for the location: they are its components, with some steps
above the root directory in front. -/
def Tracks (done location : List Text) : Prop :=
  ∃ k, done = location ++ climb k

/-- The pieces that are done spell the location, behind a climb. -/
theorem Tracks.reverse {done location : List Text} (h : Tracks done location) :
    ∃ k, done.reverse = climb k ++ location.reverse := by
  obtain ⟨k, rfl⟩ := h
  exact ⟨k, by rw [List.reverse_append, List.reverse_replicate]⟩

theorem Tracks.nil : Tracks [] [] :=
  ⟨0, rfl⟩

/-- A step upwards leads to the directory above, or from the root directory nowhere. -/
theorem tracks_tail {location : List Text} (k : Nat) (h : ∀ name ∈ location, IsPlain name) :
    Tracks (match location ++ climb k with
      | [] => [Text.ofString ".."]
      | last :: before =>
        if last = Text.ofString ".." then Text.ofString ".." :: (location ++ climb k) else before)
      location.tail := by
  cases location with
  | cons last before =>
    have hlast := (h last List.mem_cons_self).ne_dotdot
    exact ⟨k, by simp [hlast]⟩
  | nil =>
    cases k with
    | zero => exact ⟨1, rfl⟩
    | succ k => exact ⟨k + 2, by simp [List.replicate_succ]⟩

/-- What is found at a location is found under its path, whatever steps above the root directory
stand in front. -/
theorem node_climb (hfs : fs.root.IsOrderly) (k : Nat) {names : List Text} {node : FileNode}
    (hne : names ≠ []) (h : fs.root.at? names = some node) :
    fs.node false (ofComponents true (climb k ++ names)) = .ok node := by
  obtain ⟨hnames, -⟩ := hfs.of_at? h
  have hzero : ∀ name ∈ climb k ++ names, 0 ∉ name := by
    intro name hname
    rcases List.mem_append.mp hname with hclimb | hname
    · rw [List.eq_of_mem_replicate hclimb]
      decide
    · exact (hnames name hname).no_zero
  have hslash : ∀ name ∈ climb k ++ names, Path.slash ∉ name := by
    intro name hname
    rcases List.mem_append.mp hname with hclimb | hname
    · exact Path.slash_not_mem_climb hclimb
    · exact (hnames name hname).no_slash
  have hroot : fs.root.isDirectory = true := by
    obtain ⟨name, more, rfl⟩ := List.exists_cons_of_ne_nil hne
    obtain ⟨entries, -, hroot, -⟩ := FileNode.at?_cons_eq_some h
    rw [hroot]
    rfl
  -- the climb ends at the root directory, from which the names are walked
  have hwalk : fs.walk false maxLinks [] ([] :: (climb k ++ names)) =
      .ok (.found names.reverse node) := by
    rw [maxLinks, walk, walkToLink_nil_cons rfl hroot, walkToLink_climb hroot,
      walkToLink_names rfl h hnames (fun _ _ => rfl), List.append_nil]
  rw [FileSystem.node,
    place_of_walk (Path.isAbsolute_ofComponents _) (zero_not_mem_ofComponents hzero),
    Path.pieces_ofComponents (by simp [hne]) hslash, hwalk]
  rfl

/-- Up to the next link, rewriting follows the walk. -/
private theorem resolveToLink_of_walkToLink (hfs : fs.root.IsOrderly)
    {onLink : List Text → List Text → Except Refusal Place}
    {onLink' : Bool → List Text → List Text → Option Text} {found : List Text} {node : FileNode}
    (hlink : ∀ done location pieces, Tracks done location →
      onLink location pieces = .ok (.found found node) →
      onLink' true done pieces = some (ofComponents true found.reverse))
    {done location pieces : List Text} (htracks : Tracks done location)
    (h : fs.walkToLink true onLink location pieces = .ok (.found found node)) :
    fs.resolveToLink onLink' true done pieces = some (ofComponents true found.reverse) := by
  -- the walk tests each piece as the rewriting does; what it finds is what the rewriting asks for
  induction pieces generalizing done location with
  | nil =>
    unfold walkToLink at h
    split at h
    · rename_i here hhere
      obtain ⟨rfl, -⟩ := Place.found.inj (Except.ok.inj h)
      obtain ⟨k, hk⟩ := htracks.reverse
      rw [resolveToLink, hk, Path.clean_climb k fun name hname =>
        isPlain_location hfs hhere name (List.mem_reverse.mp hname)]
    · exact absurd h (by simp)
  | cons piece rest ih =>
    obtain ⟨here, hhere, -, hstep⟩ := walkToLink_cons_eq_ok_iff.mp h
    have hat := at?_reverse_cons piece hhere
    have hdown : Tracks (piece :: done) (piece :: location) := by
      obtain ⟨k, rfl⟩ := htracks
      exact ⟨k, rfl⟩
    -- the question whether the path so far is a link is answered by the entry
    have hnode : ∀ child, here.child? piece = some child →
        fs.node false (ofComponents true (piece :: done).reverse) = .ok child := by
      intro child hchild
      obtain ⟨k, hk⟩ := hdown.reverse
      rw [hk]
      exact node_climb hfs k (by simp) (hat.trans hchild)
    unfold resolveToLink
    cases hstep with
    | skip hskip hwalk =>
      rw [if_pos hskip]
      exact ih htracks hwalk
    | up hup hwalk =>
      subst hup
      rw [if_neg (by decide), if_pos rfl]
      obtain ⟨k, rfl⟩ := htracks
      exact ih (tracks_tail k (isPlain_location hfs hhere)) hwalk
    | vacant _ _ _ hplace => exact absurd hplace (by simp)
    | link hpiece hchild hwalk =>
      rename_i target
      rw [if_neg (by rw [hpiece.no_skip]; simp), if_neg hpiece.no_up]
      simp only [hnode _ hchild]
      split
      · rename_i habsolute
        rw [if_pos habsolute] at hwalk
        exact hlink _ _ _ Tracks.nil hwalk
      · rename_i hrelative
        rw [if_neg hrelative] at hwalk
        exact hlink _ _ _ htracks hwalk
    | enter hpiece hchild hnotLink hwalk =>
      rename_i child
      -- the rewriting refuses pieces behind a file, but so does the walk
      have hgo : (!child.isDirectory && !rest.isEmpty) = false := by
        cases rest with
        | nil => simp
        | cons next more =>
          obtain ⟨child', hchild', hdirectory, -⟩ := walkToLink_cons_eq_ok_iff.mp hwalk
          obtain rfl : child = child' := Option.some.inj ((hat.trans hchild).symm.trans hchild')
          simp [hdirectory]
      rw [if_neg (by rw [hpiece.no_skip]; simp), if_neg hpiece.no_up]
      simp only [hnode _ hchild]
      cases child with
      | link target => exact absurd rfl (hnotLink target)
      | file | directory =>
        rw [hgo, if_neg (by simp)]
        exact ih hdown hwalk

/-- Where a walk ends, rewriting ends with the path of the same location. -/
theorem resolvePieces_of_walk (hfs : fs.root.IsOrderly) {links links' : Nat}
    (hlinks : links ≤ links') {done location pieces found : List Text} {node : FileNode}
    (htracks : Tracks done location)
    (h : fs.walk true links location pieces = .ok (.found found node)) :
    fs.resolvePieces links' true done pieces = some (ofComponents true found.reverse) := by
  induction links generalizing links' done location pieces with
  | zero =>
    -- no link has been followed
    cases links' <;>
      exact resolveToLink_of_walkToLink hfs (fun _ _ _ _ hlink => absurd hlink (by simp)) htracks h
  | succ links ih =>
    -- the rewriting has at least as many links left as the walk
    obtain ⟨links', rfl⟩ : ∃ more, links' = more + 1 := ⟨links' - 1, by omega⟩
    refine resolveToLink_of_walkToLink hfs (fun _ _ _ htracks hlink => ?_) htracks h
    exact ih (Nat.le_of_succ_le_succ hlinks) htracks hlink

/-- The real path of what exists is the path of its location. -/
theorem realPath_of_leadsTo (hfs : fs.root.IsOrderly) {path : Text} {names : List Text}
    {node : FileNode} (habsolute : Path.isAbsolute path = true) (h : fs.LeadsTo path names node) :
    fs.realPath path = ofComponents true names := by
  obtain ⟨-, hwalk⟩ := walk_of_place habsolute h
  have hresolve := resolvePieces_of_walk hfs (by decide : maxLinks ≤ maxRealPathLinks)
    Tracks.nil hwalk
  rw [List.reverse_reverse] at hresolve
  rw [realPath, resolveLinks?, habsolute, hresolve]

end DependencyAudit.FileSystem

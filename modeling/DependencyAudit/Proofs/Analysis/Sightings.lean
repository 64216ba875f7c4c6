import DependencyAudit.Analysis.State
import DependencyAudit.Proofs.FirstOccurrences

/-!
# Sightings as groups

Sightings are added one by one, each a package together with a file. What a collection holds in
the end is described at once by `Sightings.group`: the packages in the order in which they were
first seen, each with its files in the order in which they were first seen. Appending a
collection replays it package by package, in an order in which nothing was seen; the groups do
not notice.

## Main definitions

* `Sightings.group`: the collection that a list of sightings amounts to;
* `Sightings.replay`: the sightings of a collection, package by package.

## Main results

* `foldl_add_group`: adding sightings to a group;
* `append_group`: appending a group.
-/

namespace DependencyAudit.Sightings

/-- The files in which a package was seen, with repetitions. -/
def pathsOf (seen : List (Text × Text)) (name : Text) : List Text :=
  (seen.filter (·.1 = name)).map (·.2)

/-- The collection that a list of sightings amounts to. -/
def group (seen : List (Text × Text)) : Sightings :=
  (firstOccurrences (seen.map (·.1))).map fun name => (name, firstOccurrences (pathsOf seen name))

/-- The sightings of a collection, package by package. -/
def replay (s : Sightings) : List (Text × Text) :=
  s.flatMap fun (name, files) => files.map fun path => (name, path)

/-- The paths of a name are collected part by part. -/
theorem pathsOf_append (seen more : List (Text × Text)) (name : Text) :
    pathsOf (seen ++ more) name = pathsOf seen name ++ pathsOf more name := by
  rw [pathsOf, List.filter_append, List.map_append]
  rfl

/-- A name that was not seen has no paths. -/
theorem pathsOf_eq_nil {seen : List (Text × Text)} {name : Text} (h : name ∉ seen.map (·.1)) :
    pathsOf seen name = [] := by
  rw [pathsOf, List.map_eq_nil_iff, List.filter_eq_nil_iff]
  intro e he heq
  exact h (List.mem_map.mpr ⟨e, he, by simpa using heq⟩)

/-- A name that was seen has a path. -/
theorem pathsOf_ne_nil {seen : List (Text × Text)} {name : Text} (h : name ∈ seen.map (·.1)) :
    pathsOf seen name ≠ [] := by
  obtain ⟨e, he, rfl⟩ := List.mem_map.mp h
  refine List.ne_nil_of_mem (a := e.2) (List.mem_map.mpr ⟨e, List.mem_filter.mpr ⟨he, ?_⟩, rfl⟩)
  simp

/-! ## Reading a group -/

/-- The names of the groups are those that were seen, each once. -/
theorem names_group (seen : List (Text × Text)) :
    (group seen).names = firstOccurrences (seen.map (·.1)) := by
  rw [names, group, List.map_map]
  exact List.map_id _

/-- In a table that is made from names, a name is looked up by itself. -/
private theorem lookup_map {ns : List Text} (f : Text → List Text) (name : Text) :
    (ns.map fun m => (m, f m)).lookup name = if name ∈ ns then some (f name) else none := by
  induction ns with
  | nil => rfl
  | cons m more ih =>
    rw [List.map_cons, List.lookup_cons, ih]
    by_cases h : name = m
    · simp [h]
    · have hbeq : (name == m) = false := by simpa using h
      simp [hbeq, h]

/-- There is a group for a name exactly if the name was seen. -/
theorem has_group {seen : List (Text × Text)} {name : Text} :
    (group seen).has name = true ↔ name ∈ seen.map (·.1) := by
  rw [has, group, lookup_map]
  simp

/-- The files of a group are the paths of the name, each once. -/
theorem files_group (seen : List (Text × Text)) (name : Text) :
    (group seen).files name = firstOccurrences (pathsOf seen name) := by
  rw [files, group, lookup_map]
  by_cases h : name ∈ seen.map (·.1)
  · rw [if_pos (mem_firstOccurrences.mpr h)]
    rfl
  · rw [if_neg (fun hmem => h (mem_firstOccurrences.mp hmem)), pathsOf_eq_nil h]
    rfl

/-- A group has one entry for each package. -/
theorem files_of_mem_group {seen : List (Text × Text)} {name : Text} {files : List Text}
    (h : (name, files) ∈ group seen) : files = firstOccurrences (pathsOf seen name) := by
  obtain ⟨other, -, heq⟩ := List.mem_map.mp h
  obtain ⟨rfl, rfl⟩ := Prod.mk.inj heq
  rfl

/-! ## Adding to a group -/

/-- A path for a name that has a group goes into this group. -/
private theorem add_map_of_mem {ns : List Text} (f : Text → List Text) {name : Text}
    (path : Text) (hns : ns.Nodup) (h : name ∈ ns) :
    add name path (ns.map fun m => (m, f m)) =
      ns.map fun m => (m, if m = name then insertNew (f m) path else f m) := by
  induction ns with
  | nil => exact absurd h (by simp)
  | cons m more ih =>
    obtain ⟨hm, hmore⟩ := List.nodup_cons.mp hns
    rw [List.map_cons, List.map_cons, add]
    split
    · rename_i heq
      subst heq
      -- the package occurs only once, so the rest stays as it is
      have hrest : more.map (fun m' => (m', f m')) =
          more.map fun m' => (m', if m' = m then insertNew (f m') path else f m') := by
        refine List.map_congr_left fun m' hm' => ?_
        rw [if_neg fun heq : m' = m => hm (heq ▸ hm')]
      rw [hrest]
    · rename_i hne
      have hmem : name ∈ more := by
        rcases List.mem_cons.mp h with heq | hmem
        · exact absurd heq.symm hne
        · exact hmem
      rw [ih hmore hmem]

/-- A name without a group gets one at the end. -/
private theorem add_map_of_not_mem {ns : List Text} (f : Text → List Text) {name : Text}
    (path : Text) (h : name ∉ ns) :
    add name path (ns.map fun m => (m, f m)) = (ns.map fun m => (m, f m)) ++ [(name, [path])] := by
  induction ns with
  | nil => rfl
  | cons m more ih =>
    rw [List.mem_cons, not_or] at h
    rw [List.map_cons, add, if_neg (Ne.symm h.1), ih h.2, List.cons_append]

/-- Adding a sighting to a group gives the group with one more sighting. -/
theorem add_group (seen : List (Text × Text)) (name path : Text) :
    add name path (group seen) = group (seen ++ [(name, path)]) := by
  have hpaths : ∀ m, pathsOf (seen ++ [(name, path)]) m =
      pathsOf seen m ++ if name = m then [path] else [] := by
    intro m
    rw [pathsOf_append]
    by_cases h : name = m <;> simp [pathsOf, h]
  unfold group
  rw [List.map_append, List.map_cons, List.map_nil, firstOccurrences_concat]
  by_cases h : name ∈ seen.map (·.1)
  · -- a package that was seen before keeps its place and may get one more file
    rw [insertNew_of_mem (mem_firstOccurrences.mpr h),
      add_map_of_mem _ path (nodup_firstOccurrences _) (mem_firstOccurrences.mpr h)]
    refine List.map_congr_left fun m _ => ?_
    rw [hpaths]
    by_cases heq : m = name
    · rw [if_pos heq, if_pos heq.symm, firstOccurrences_concat]
    · rw [if_neg heq, if_neg (Ne.symm heq), List.append_nil]
  · -- a new package goes to the end, with this file only
    have hnew : name ∉ firstOccurrences (seen.map (·.1)) :=
      fun hmem => h (mem_firstOccurrences.mp hmem)
    rw [insertNew_of_not_mem hnew, add_map_of_not_mem _ path hnew, List.map_append]
    congr 1
    · refine List.map_congr_left fun m hm => ?_
      have hne : name ≠ m := fun heq => hnew (heq ▸ hm)
      rw [hpaths, if_neg hne, List.append_nil]
    · rw [List.map_cons, List.map_nil, hpaths, pathsOf_eq_nil h, if_pos rfl]
      rfl

/-- Adding sightings one by one. -/
theorem foldl_add_group (seen more : List (Text × Text)) :
    more.foldl (fun s e => add e.1 e.2 s) (group seen) = group (seen ++ more) := by
  induction more generalizing seen with
  | nil => simp
  | cons e rest ih =>
    rw [List.foldl_cons, add_group, ih, List.append_assoc, List.singleton_append]

/-! ## Appending a group -/

/-- Appending is adding everything that is replayed. -/
theorem append_eq_foldl (s other : Sightings) :
    s.append other = (replay other).foldl (fun s e => add e.1 e.2 s) s := by
  rw [append, replay, List.foldl_flatMap]
  simp only [List.foldl_map]

/-- The packages of a replayed group, each as often as it has files. -/
private theorem map_fst_replay (ns : List Text) (f : Text → List Text) :
    (replay (ns.map fun m => (m, f m))).map (·.1) = ns.flatMap fun m => (f m).map fun _ => m := by
  rw [replay, List.flatMap_map, List.map_flatMap]
  simp [Function.comp_def]

/-- A package that is replayed for each of its files is noted once. -/
theorem foldl_insertNew_const {seen : List Text} {name : Text} {files : List Text}
    (hfiles : files ≠ []) (h : name ∉ seen) :
    (files.map fun _ => name).foldl insertNew seen = seen ++ [name] := by
  obtain ⟨path, more, rfl⟩ := List.exists_cons_of_ne_nil hfiles
  -- the first file brings the package in, the others find it there
  rw [List.map_cons, List.foldl_cons, insertNew_of_not_mem h]
  induction more with
  | nil => rfl
  | cons _ rest ih =>
    rw [List.map_cons, List.foldl_cons, insertNew_of_mem (by simp)]
    exact ih (by simp)

/-- The names of replayed groups are those of the groups, if no group is empty. -/
private theorem foldl_insertNew_replay {ns seen : List Text} {f : Text → List Text}
    (hf : ∀ m ∈ ns, f m ≠ []) (h : (seen ++ ns).Nodup) :
    (ns.flatMap fun m => (f m).map fun _ => m).foldl insertNew seen = seen ++ ns := by
  induction ns generalizing seen with
  | nil => simp
  | cons m more ih =>
    obtain ⟨hm, hmore⟩ := List.forall_mem_cons.mp hf
    have hnew : m ∉ seen := by
      intro hmem
      exact (List.nodup_append.mp h).2.2 m hmem m List.mem_cons_self rfl
    have hnodup : ((seen ++ [m]) ++ more).Nodup := by simpa using h
    rw [List.flatMap_cons, List.foldl_append, foldl_insertNew_const hm hnew, ih hmore hnodup,
      List.append_assoc, List.singleton_append]

/-- Sightings of one name have paths for this name only. -/
private theorem pathsOf_map (files : List Text) (m name : Text) :
    pathsOf (files.map fun path => (m, path)) name = if m = name then files else [] := by
  rw [pathsOf, List.filter_map, List.map_map]
  by_cases h : m = name <;> simp [h, Function.comp_def]

/-- Replayed groups have the paths that they had. -/
private theorem pathsOf_replay {ns : List Text} (f : Text → List Text) (hns : ns.Nodup)
    (name : Text) :
    pathsOf (replay (ns.map fun m => (m, f m))) name = if name ∈ ns then f name else [] := by
  induction ns with
  | nil => rfl
  | cons m more ih =>
    obtain ⟨hm, hmore⟩ := List.nodup_cons.mp hns
    have hsplit : replay ((m :: more).map fun m => (m, f m)) =
        ((f m).map fun path => (m, path)) ++ replay (more.map fun m => (m, f m)) := rfl
    rw [hsplit, pathsOf_append, pathsOf_map, ih hmore]
    by_cases h : m = name
    · subst h
      simp [hm]
    · simp [h, Ne.symm h]

/-- A group that is appended may be replaced by the sightings that it was made of. -/
theorem group_append_replay (seen more : List (Text × Text)) :
    group (seen ++ replay (group more)) = group (seen ++ more) := by
  -- replaying changes the order across packages, but neither the order in which the packages
  -- turn up nor the order of the files of any one of them
  have hnames : firstOccurrences ((replay (group more)).map (·.1)) =
      firstOccurrences (more.map (·.1)) := by
    -- every package of a group has a file, so it does turn up in the replay
    have hfiles : ∀ m ∈ firstOccurrences (more.map (·.1)),
        firstOccurrences (pathsOf more m) ≠ [] := by
      intro m hm
      obtain ⟨path, hpath⟩ :=
        List.exists_mem_of_ne_nil _ (pathsOf_ne_nil (mem_firstOccurrences.mp hm))
      exact List.ne_nil_of_mem (mem_firstOccurrences.mpr hpath)
    rw [group, map_fst_replay]
    exact foldl_insertNew_replay hfiles (nodup_firstOccurrences _)
  have hpaths : ∀ m, firstOccurrences (pathsOf (replay (group more)) m) =
      firstOccurrences (pathsOf more m) := by
    intro m
    rw [group, pathsOf_replay _ (nodup_firstOccurrences _)]
    split
    · exact firstOccurrences_append_firstOccurrences [] _
    · rename_i hm
      rw [pathsOf_eq_nil fun hmem => hm (mem_firstOccurrences.mpr hmem)]
  unfold group at hnames hpaths ⊢
  rw [List.map_append, List.map_append, firstOccurrences_append_congr hnames]
  refine List.map_congr_left fun m _ => ?_
  rw [pathsOf_append, pathsOf_append, firstOccurrences_append_congr (hpaths m)]

/-- Appending a group gives the group of both lists of sightings. -/
theorem append_group (seen more : List (Text × Text)) :
    (group seen).append (group more) = group (seen ++ more) := by
  rw [append_eq_foldl, foldl_add_group, group_append_replay]

end DependencyAudit.Sightings

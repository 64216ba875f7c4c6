import DependencyAudit.Proofs.Analysis.Sightings

/-!
# Merging states

States are put together from empty states by adding files and by appending states to each other.
However this is done, the result answers every question like the state after the same files in
the same order. The invariant is `State.Knows`: both collections of a state are the groups of
all sightings in its files.

## Main definitions

* `State.Knows`: what a state holds after a list of files;
* `State.SameAs`: two states that cannot be told apart;
* `Plan`: a way to put a state together.

## Main results

* `Plan.knows`: the invariant, for every plan;
* `plan_state_sameAs_ofFacts`: every plan amounts to adding its files one by one.
-/

namespace DependencyAudit

namespace FileFacts

/-- Where the packages of a file are imported. -/
def importSightings (f : FileFacts) : List (Text × Text) :=
  f.bindings.map fun b => (b.dependency, f.path)

/-- Where the packages of a file are confirmed to be used. -/
def useSightings (f : FileFacts) : List (Text × Text) :=
  (f.signals.filter (·.confirmed)).map fun g => (g.dependency, f.path)

end FileFacts

namespace State

open Sightings (group)

/-! ## What a state holds -/

/-- The state holds what is known after the given files. -/
structure Knows (s : State) (facts : List FileFacts) : Prop where
  /-- The imports of all the files, grouped by package. -/
  imported : s.imported = group (facts.flatMap FileFacts.importSightings)
  /-- The uses of all the files, grouped by package. -/
  used : s.used = group (facts.flatMap FileFacts.useSightings)
  /-- The diagnostics in the order of the files. -/
  diagnostics : s.diagnostics = facts.flatMap FileFacts.diagnostics
  /-- The number of files. -/
  files : s.files = facts.length

theorem knows_empty : empty.Knows [] :=
  ⟨rfl, rfl, rfl, rfl⟩

theorem knows_zero : zero.Knows [] :=
  ⟨rfl, rfl, rfl, rfl⟩

/-- Adding a file. -/
theorem Knows.fold {s : State} {facts : List FileFacts} (h : s.Knows facts) (f : FileFacts) :
    (s.fold f).Knows (facts ++ [f]) := by
  -- the sightings of the file go behind all others
  refine ⟨?_, ?_, ?_, ?_⟩
  · have hadd := Sightings.foldl_add_group (facts.flatMap FileFacts.importSightings)
      f.importSightings
    rw [FileFacts.importSightings, List.foldl_map, ← h.imported] at hadd
    rw [List.flatMap_append, List.flatMap_singleton]
    exact hadd
  · have hadd := Sightings.foldl_add_group (facts.flatMap FileFacts.useSightings) f.useSightings
    rw [FileFacts.useSightings, List.foldl_map, ← h.used] at hadd
    rw [List.flatMap_append, List.flatMap_singleton]
    exact hadd
  · rw [State.fold, h.diagnostics, List.flatMap_append, List.flatMap_singleton]
  · rw [State.fold, h.files, List.length_append, List.length_singleton]

/-- Appending a state. -/
theorem Knows.merge {s t : State} {facts more : List FileFacts} (hs : s.Knows facts)
    (ht : t.Knows more) : (s.merge t).Knows (facts ++ more) := by
  refine ⟨?_, ?_, ?_, ?_⟩
  · change s.imported.append t.imported = _
    rw [hs.imported, ht.imported, Sightings.append_group, List.flatMap_append]
  · change s.used.append t.used = _
    rw [hs.used, ht.used, Sightings.append_group, List.flatMap_append]
  · rw [State.merge, hs.diagnostics, ht.diagnostics, List.flatMap_append]
  · rw [State.merge, hs.files, ht.files, List.length_append]

/-- The state after a list of files holds what is known after them. -/
theorem knows_ofFacts (facts : List FileFacts) : (ofFacts facts).Knows facts := by
  -- what was known before stands in front
  suffices hall : ∀ (s : State) (before : List FileFacts), s.Knows before →
      (facts.foldl State.fold s).Knows (before ++ facts) from hall empty [] knows_empty
  induction facts with
  | nil =>
    intro s before h
    rwa [List.append_nil]
  | cons f more ih =>
    intro s before h
    have hmore := ih (s.fold f) (before ++ [f]) (h.fold f)
    rwa [List.append_assoc, List.singleton_append] at hmore

/-! ## Questions to a state -/

/-- No question tells the states apart. -/
structure SameAs (s t : State) : Prop where
  /-- They have the same number of files. -/
  files : s.files = t.files
  /-- They name the same files for the uses of a package. -/
  usedIn : ∀ dependency, s.usedIn dependency = t.usedIn dependency
  /-- They make the same reports, whatever is declared. -/
  report : ∀ declared ignoreBuiltins,
    s.report declared ignoreBuiltins = t.report declared ignoreBuiltins

/-- The answers depend on the files only. -/
theorem Knows.sameAs {s t : State} {facts : List FileFacts} (hs : s.Knows facts)
    (ht : t.Knows facts) : s.SameAs t := by
  -- the questions look at nothing but the collections, the diagnostics and the count
  have himported : s.imported = t.imported := hs.imported.trans ht.imported.symm
  have hused : s.used = t.used := hs.used.trans ht.used.symm
  have hfiles : s.files = t.files := hs.files.trans ht.files.symm
  refine ⟨hfiles, ?_, ?_⟩
  · intro dependency
    rw [usedIn, usedIn, hused]
  · intro declared ignoreBuiltins
    rw [report, report, himported, hused, hfiles, hs.diagnostics, ht.diagnostics]

end State

/-! ## Plans -/

/-- A way to put a state together. -/
inductive Plan
  /-- The state before the first file. -/
  | new
  /-- A state that was never set up. -/
  | zero
  /-- One more file. -/
  | fold (plan : Plan) (f : FileFacts)
  /-- A state that is appended to another. -/
  | merge (plan other : Plan)

namespace Plan

/-- The state that a plan leads to. -/
def state : Plan → State
  | new => .empty
  | zero => .zero
  | fold plan f => plan.state.fold f
  | merge plan other => plan.state.merge other.state

/-- The files of a plan, from left to right. -/
def files : Plan → List FileFacts
  | new => []
  | zero => []
  | fold plan f => plan.files ++ [f]
  | merge plan other => plan.files ++ other.files

/-- A plan leads to what is known after its files. -/
theorem knows (plan : Plan) : plan.state.Knows plan.files := by
  induction plan with
  | new => exact State.knows_empty
  | zero => exact State.knows_zero
  | fold _ f ih => exact ih.fold f
  | merge _ _ ih ihOther => exact ih.merge ihOther

/-- Plans with the same files cannot be told apart. -/
theorem sameAs_of_files_eq (plan other : Plan) (h : plan.files = other.files) :
    plan.state.SameAs other.state := by
  refine plan.knows.sameAs ?_
  rw [h]
  exact other.knows

end Plan

/-- Every plan amounts to adding its files one by one. Appending is associative, and both empty
states can be left out on either side. -/
theorem plan_state_sameAs_ofFacts :
    (∀ plan : Plan, plan.state.SameAs (State.ofFacts plan.files)) ∧
    (∀ p q r : Plan, ((p.state.merge q.state).merge r.state).SameAs
      (p.state.merge (q.state.merge r.state))) ∧
    (∀ p : Plan, (State.empty.merge p.state).SameAs p.state ∧
      (p.state.merge State.empty).SameAs p.state ∧
      (State.zero.merge p.state).SameAs p.state ∧
      (p.state.merge State.zero).SameAs p.state) := by
  refine ⟨?_, ?_, ?_⟩
  · intro plan
    exact plan.knows.sameAs (State.knows_ofFacts plan.files)
  · intro p q r
    exact Plan.sameAs_of_files_eq ((p.merge q).merge r) (p.merge (q.merge r))
      (List.append_assoc _ _ _)
  · intro p
    have hright : p.files ++ [] = p.files := List.append_nil _
    exact ⟨Plan.sameAs_of_files_eq (Plan.new.merge p) p rfl,
      Plan.sameAs_of_files_eq (p.merge .new) p hright,
      Plan.sameAs_of_files_eq (Plan.zero.merge p) p rfl,
      Plan.sameAs_of_files_eq (p.merge .zero) p hright⟩

end DependencyAudit

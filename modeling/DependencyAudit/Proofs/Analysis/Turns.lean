import Mathlib.Data.List.Forall2
import DependencyAudit.Analysis.Turns

/-!
# What comes of the turns

Whatever the order in which the files are done, and whatever their readers see of the reports:
in the end there are facts of each file, in the order of the files. If the reports make no
difference to a reader, the facts do not depend on the schedule at all.

## Main results

* `Schedule.exists_lookup_takeTurns`: every file comes to its turn;
* `Schedule.forall₂_inOrder`: whose facts there are in the end;
* `Schedule.inOrder_takeTurns`: what is the same for every schedule.
-/

namespace DependencyAudit.Schedule

variable (schedule : Schedule) (factsOf : List FileFacts → Text → FileFacts) {files : List Text}
  {done : List (Nat × FileFacts)} {position i : Nat} {path : Text} {f : FileFacts}

/-- Who is done stays done. -/
theorem lookup_turn_of_some (h : done.lookup i = some f) :
    (schedule.turn factsOf files done position).lookup i = some f := by
  unfold turn
  split
  · rw [List.lookup_append, h, Option.some_or]
  · exact h

/-- The file of a turn is done after it. -/
theorem lookup_turn_self (h : done.lookup i = none) (hpath : files[i]? = some path) :
    ∃ reported, (schedule.turn factsOf files done i).lookup i = some (factsOf reported path) := by
  simp only [turn, hpath]
  rw [List.lookup_append, h, Option.none_or, List.lookup_cons, beq_self_eq_true]
  exact ⟨_, rfl⟩

/-- Another file is done after a turn if it was done before. -/
theorem lookup_turn_of_ne (h : position ≠ i) :
    (schedule.turn factsOf files done position).lookup i = done.lookup i := by
  unfold turn
  split
  · have hbeq : (i == position) = false := beq_eq_false_iff_ne.mpr h.symm
    rw [List.lookup_append, List.lookup_cons, hbeq, List.lookup_nil, Option.or_none]
  · rfl

private theorem lookup_foldl_of_some {order : List Nat} (h : done.lookup i = some f) :
    (order.foldl (schedule.turn factsOf files) done).lookup i = some f := by
  induction order generalizing done with
  | nil => exact h
  | cons first more ih => exact ih (lookup_turn_of_some schedule factsOf h)

private theorem exists_lookup_foldl {order : List Nat} (hnone : done.lookup i = none)
    (hi : i ∈ order) (hpath : files[i]? = some path) :
    ∃ reported, (order.foldl (schedule.turn factsOf files) done).lookup i =
      some (factsOf reported path) := by
  -- by induction on the turns that are left; the first one of the file settles it
  induction order generalizing done with
  | nil => exact absurd hi (by simp)
  | cons first more ih =>
    rw [List.foldl_cons]
    by_cases hfirst : first = i
    · subst hfirst
      obtain ⟨reported, hdone⟩ := lookup_turn_self schedule factsOf hnone hpath
      exact ⟨reported, lookup_foldl_of_some schedule factsOf hdone⟩
    · refine ih ((lookup_turn_of_ne schedule factsOf hfirst).trans hnone) ?_
      exact (List.mem_cons.mp hi).resolve_left (Ne.symm hfirst)

/-- Every file comes to its turn. -/
theorem exists_lookup_takeTurns (hpath : files[i]? = some path) :
    ∃ reported, (schedule.takeTurns factsOf files).lookup i = some (factsOf reported path) := by
  have hlt : i < files.length := (List.getElem?_eq_some_iff.mp hpath).1
  have hi : i ∈ schedule.order files.length :=
    (schedule.order_perm files.length).mem_iff.mpr (List.mem_range.mpr hlt)
  exact exists_lookup_foldl schedule factsOf rfl hi hpath

private theorem forall₂_filterMap_lookup {R : Text → FileFacts → Prop}
    {indexed : List (Text × Nat)}
    (h : ∀ p ∈ indexed, ∃ f, done.lookup p.2 = some f ∧ R p.1 f) :
    List.Forall₂ R (indexed.map Prod.fst) (indexed.filterMap fun p => done.lookup p.2) := by
  induction indexed with
  | nil => exact .nil
  | cons first more ih =>
    obtain ⟨f, hlookup, hf⟩ := h first List.mem_cons_self
    simp only [List.map_cons, List.filterMap_cons, hlookup]
    exact .cons hf (ih fun p hp => h p (List.mem_cons_of_mem _ hp))

/-- In the end there are facts of each file, in the order of the files. -/
theorem forall₂_inOrder (files : List Text) :
    List.Forall₂ (fun path f => ∃ reported, f = factsOf reported path) files
      (inOrder files (schedule.takeTurns factsOf files)) := by
  have hfacts : List.Forall₂ (fun path f => ∃ reported, f = factsOf reported path)
      (files.zipIdx.map Prod.fst) (inOrder files (schedule.takeTurns factsOf files)) := by
    refine forall₂_filterMap_lookup ?_
    rintro ⟨path, i⟩ hmem
    obtain ⟨reported, hlookup⟩ := exists_lookup_takeTurns schedule factsOf
      (List.mk_mem_zipIdx_iff_getElem?.mp hmem)
    exact ⟨_, hlookup, reported, rfl⟩
  rwa [List.zipIdx_map_fst] at hfacts

variable {schedule factsOf}

/-- Where reports make no difference, the facts are those of the files, whatever the schedule. -/
theorem inOrder_takeTurns {g : Text → FileFacts}
    (h : ∀ reported path, factsOf reported path = g path) :
    inOrder files (schedule.takeTurns factsOf files) = files.map g := by
  have hfacts : List.Forall₂ Eq (files.map g)
      (inOrder files (schedule.takeTurns factsOf files)) := by
    refine List.forall₂_map_left_iff.mpr ((forall₂_inOrder schedule factsOf files).imp ?_)
    rintro path f ⟨reported, rfl⟩
    exact (h reported path).symm
  exact (List.forall₂_eq_eq_eq ▸ hfacts : files.map g = _).symm

end DependencyAudit.Schedule

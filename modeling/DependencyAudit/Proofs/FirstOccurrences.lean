import DependencyAudit.Analysis.Report

/-!
# Lists without repetitions

`firstOccurrences` keeps the first of several equal elements. It loses no element, repeats none,
and leaving elements out can be done before or after it.

## Main results

* `mem_firstOccurrences` and `nodup_firstOccurrences`: the elements, each once;
* `firstOccurrences_filter`: leaving elements out of the result;
* `firstOccurrences_append_firstOccurrences`: later repetitions do not matter;
* `firstOccurrences_eq_eraseDups`: the repetitions that go are those that `List.eraseDups` drops.
-/

namespace DependencyAudit

variable {α : Type} [DecidableEq α]

theorem insertNew_of_mem {xs : List α} {x : α} (h : x ∈ xs) : insertNew xs x = xs :=
  if_pos h

theorem insertNew_of_not_mem {xs : List α} {x : α} (h : x ∉ xs) : insertNew xs x = xs ++ [x] :=
  if_neg h

/-- Inserting some elements adds these and no others. -/
private theorem mem_foldl_insertNew {xs seen : List α} {x : α} :
    x ∈ xs.foldl insertNew seen ↔ x ∈ seen ∨ x ∈ xs := by
  induction xs generalizing seen with
  | nil => simp
  | cons y more ih => rw [List.foldl_cons, ih, mem_insertNew, List.mem_cons, or_assoc]

/-- Inserting keeps elements distinct. -/
private theorem nodup_foldl_insertNew {xs seen : List α} (h : seen.Nodup) :
    (xs.foldl insertNew seen).Nodup := by
  induction xs generalizing seen with
  | nil => exact h
  | cons y more ih => exact ih (nodup_insertNew h)

/-- First occurrences are of all the elements. -/
@[simp]
theorem mem_firstOccurrences {xs : List α} {x : α} : x ∈ firstOccurrences xs ↔ x ∈ xs := by
  rw [firstOccurrences, mem_foldl_insertNew]
  simp

/-- First occurrences are distinct. -/
theorem nodup_firstOccurrences (xs : List α) : (firstOccurrences xs).Nodup :=
  nodup_foldl_insertNew List.nodup_nil

/-- One more element is inserted into the first occurrences. -/
theorem firstOccurrences_concat (xs : List α) (x : α) :
    firstOccurrences (xs ++ [x]) = insertNew (firstOccurrences xs) x := by
  rw [firstOccurrences, List.foldl_append]
  rfl

/-- An element may join a round of insertion, or be inserted after it. -/
private theorem insertNew_foldl_insertNew (seen found : List α) (x : α) :
    insertNew (found.foldl insertNew seen) x = (insertNew found x).foldl insertNew seen := by
  by_cases hx : x ∈ found
  · rw [insertNew_of_mem hx, insertNew_of_mem (mem_foldl_insertNew.mpr (Or.inr hx))]
  · rw [insertNew_of_not_mem hx, List.foldl_append]
    rfl

/-- Two rounds of insertion are one round, of the elements of both. -/
private theorem foldl_insertNew_foldl (xs seen found : List α) :
    xs.foldl insertNew (found.foldl insertNew seen) =
      (xs.foldl insertNew found).foldl insertNew seen := by
  induction xs generalizing found with
  | nil => rfl
  | cons x more ih => rw [List.foldl_cons, insertNew_foldl_insertNew, ih, List.foldl_cons]

/-- Repetitions in the second of two lists may be left out beforehand. -/
theorem firstOccurrences_append_firstOccurrences (xs ys : List α) :
    firstOccurrences (xs ++ firstOccurrences ys) = firstOccurrences (xs ++ ys) := by
  unfold firstOccurrences
  rw [List.foldl_append, List.foldl_append, ← foldl_insertNew_foldl, List.foldl_nil]

/-- Of the second of two lists, only the first occurrences matter. -/
theorem firstOccurrences_append_congr {xs ys zs : List α}
    (h : firstOccurrences ys = firstOccurrences zs) :
    firstOccurrences (xs ++ ys) = firstOccurrences (xs ++ zs) := by
  rw [← firstOccurrences_append_firstOccurrences xs ys, h,
    firstOccurrences_append_firstOccurrences]

/-- A list in parts: of each part, only the first occurrences matter. -/
theorem firstOccurrences_flatMap_congr {β : Type} {parts : List β} {f g : β → List α}
    (h : ∀ part ∈ parts, firstOccurrences (f part) = firstOccurrences (g part)) :
    firstOccurrences (parts.flatMap f) = firstOccurrences (parts.flatMap g) := by
  induction parts with
  | nil => rfl
  | cons part more ih =>
    obtain ⟨hpart, hmore⟩ := List.forall_mem_cons.mp h
    -- what is found in the first part is all that the later parts are compared with
    have hleft : firstOccurrences (f part ++ more.flatMap f) =
        firstOccurrences (g part ++ more.flatMap f) := by
      rw [firstOccurrences, List.foldl_append, firstOccurrences, List.foldl_append]
      exact congrArg ((more.flatMap f).foldl insertNew) hpart
    rw [List.flatMap_cons, List.flatMap_cons, hleft, firstOccurrences_append_congr (ih hmore)]

/-- Filtering and inserting commute. -/
private theorem filter_insertNew (p : α → Bool) (xs : List α) (x : α) :
    (insertNew xs x).filter p = if p x then insertNew (xs.filter p) x else xs.filter p := by
  by_cases hx : x ∈ xs
  · rw [insertNew_of_mem hx]
    split
    · rename_i hp
      rw [insertNew_of_mem (List.mem_filter.mpr ⟨hx, hp⟩)]
    · rfl
  · rw [insertNew_of_not_mem hx, List.filter_append]
    split
    · rename_i hp
      rw [insertNew_of_not_mem fun h => hx (List.mem_filter.mp h).1]
      simp [hp]
    · rename_i hp
      simp [hp]

/-- Filtering commutes with a round of insertion. -/
private theorem filter_foldl_insertNew (p : α → Bool) (xs seen : List α) :
    (xs.foldl insertNew seen).filter p = (xs.filter p).foldl insertNew (seen.filter p) := by
  induction xs generalizing seen with
  | nil => rfl
  | cons x more ih =>
    rw [List.foldl_cons, ih, filter_insertNew, List.filter_cons]
    split
    · rw [List.foldl_cons]
    · rfl

/-- Elements can be left out before or after. -/
theorem firstOccurrences_filter (p : α → Bool) (xs : List α) :
    firstOccurrences (xs.filter p) = (firstOccurrences xs).filter p := by
  rw [firstOccurrences, firstOccurrences, filter_foldl_insertNew, List.filter_nil]

/-! ## Repetitions -/

/-- A round of insertion adds the elements that are new, without repetitions. -/
private theorem foldl_insertNew_eq_eraseDups [BEq α] [LawfulBEq α] (xs seen : List α) :
    xs.foldl insertNew seen = seen ++ (xs.filter (· ∉ seen)).eraseDups := by
  induction xs generalizing seen with
  | nil => simp
  | cons x more ih =>
    rw [List.foldl_cons, ih]
    by_cases hx : x ∈ seen
    · rw [insertNew_of_mem hx, List.filter_cons_of_neg (by simpa using hx)]
    · rw [insertNew_of_not_mem hx, List.filter_cons_of_pos (by simpa using hx),
        List.eraseDups_cons, List.filter_filter, List.append_assoc, List.singleton_append]
      -- both sides leave out `x` and what was seen before
      congr 3
      refine List.filter_congr fun y _ => ?_
      by_cases hy : y = x <;> simp [hy]

/-- The repetitions that go are those that `List.eraseDups` drops. -/
theorem firstOccurrences_eq_eraseDups [BEq α] [LawfulBEq α] (xs : List α) :
    firstOccurrences xs = xs.eraseDups := by
  rw [firstOccurrences, foldl_insertNew_eq_eraseDups, List.nil_append,
    List.filter_eq_self.mpr (by simp)]

end DependencyAudit

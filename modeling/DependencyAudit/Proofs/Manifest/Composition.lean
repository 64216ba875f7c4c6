import DependencyAudit.Proofs.Manifest.Canonical

/-!
# Successive removals

What is written for a manifest is canonical whatever the layout of the original, so it is read as
the members that were written. Removing packages from it is therefore the same as removing them
from the original together with those that are already gone. By induction any number of removals,
each of which reads what the one before has written, is one removal of all the names, and neither
their order nor their grouping matters.

## Main definitions

* `Manifest.rewrite`: a manifest is read and written without some packages.

## Main results

* `without_without`: one removal after another;
* `foldlM_rewrite`: any number of removals;
* `removals_compose`: removals compose.
-/

namespace DependencyAudit.Manifest

open JsonString (decode)
open JsonValue (document)

/-- Reads a manifest and writes it without the packages of the given names. -/
def rewrite (text : Text) (names : List Text) : Except Fault Text := do
  let m ← parse text
  m.without names

theorem rewrite_eq {text : Text} {m : Manifest} (h : parse text = .ok m) (names : List Text) :
    rewrite text names = m.without names := by
  rw [rewrite, h]
  rfl

/-! ## Deleting twice -/

theorem keptEntries_keptEntries (ns ms : List Text) (entries : List (Text × JsonValue)) :
    keptEntries ms (keptEntries ns entries) = keptEntries (ns ++ ms) entries := by
  unfold keptEntries
  rw [List.filter_filter]
  apply List.filter_congr
  intro e _
  rw [List.contains_append, Bool.not_or, Bool.and_comm]

theorem deleted_deleted (ns ms : List Text) (m : Text × JsonValue) :
    deleted ms (deleted ns m) = deleted (ns ++ ms) m := by
  cases hsection : isSection (decode m.1) with
  | false => rw [deleted_of_other ns hsection, deleted_of_other ms hsection,
      deleted_of_other (ns ++ ms) hsection]
  | true =>
    -- the key stays, so the member is a section the second time as well
    obtain ⟨body, value⟩ := m
    cases value with
    | object entries =>
      rw [deleted_of_section ns entries hsection, deleted_of_section ms _ hsection,
        deleted_of_section (ns ++ ms) entries hsection, keptEntries_keptEntries]
    | _ => rfl

/-- Only the set of the names matters. -/
theorem deleted_congr {ns ms : List Text} (h : ∀ name, name ∈ ns ↔ name ∈ ms) :
    deleted ns = deleted ms := by
  have hkept : keptEntries ns = keptEntries ms := by
    funext entries
    apply List.filter_congr
    intro e _
    rw [Bool.eq_iff_iff]
    simp [h]
  funext m
  unfold deleted
  rw [hkept]

/-! ## One removal after another -/

section Removals

variable {text : Text} {m : Manifest}

theorem isIndent_of_parse (h : parse text = .ok m) : IsIndent m.indent := by
  obtain ⟨members, -, -, rfl⟩ := parse_eq_ok_iff.mp h
  rw [foldl_note_blank]
  exact isIndent_indentOf text

/-- What is written is a manifest, and removing packages from it is removing more of them from the
original. -/
theorem without_without (h : parse text = .ok m) (ns : List Text) :
    ∃ out m', m.without ns = .ok out ∧ parse out = .ok m' ∧
      ∀ ms, m'.without ms = m.without (ns ++ ms) := by
  have hout := without_eq h ns
  obtain ⟨m', hm', -⟩ := exists_parse_of_without h hout
  refine ⟨_, m', hout, hm', ?_⟩
  intro ms
  -- the new text is canonical, so it is edited entry by entry
  have hwritten : ∀ a ∈ (m.members.map spelled).map (deleted ns), IsWrittenMember a := by
    rw [List.forall_mem_map, List.forall_mem_map]
    intro a ha
    obtain ⟨hsound, hsection⟩ := sound_of_parse h a ha
    exact (isWrittenMember_spelled hsound hsection).deleted ns
  rw [without_document (isIndent_of_parse h) hwritten hm', without_eq h, List.map_map]
  have hdeleted : deleted ms ∘ deleted ns = deleted (ns ++ ms) :=
    funext fun a => deleted_deleted ns ms a
  rw [hdeleted]

/-- A removal only depends on which names are given. -/
theorem without_congr (h : parse text = .ok m) {ns ms : List Text}
    (hnames : ∀ name, name ∈ ns ↔ name ∈ ms) : m.without ns = m.without ms := by
  rw [without_eq h, without_eq h, deleted_congr hnames]

/-- Several removals, each of which reads what the one before has written, are one removal. -/
theorem foldlM_rewrite (h : parse text = .ok m) (names : List Text) (more : List (List Text)) :
    (names :: more).foldlM rewrite text = m.without (names :: more).flatten := by
  -- by induction on the later removals; what the first one leaves is a manifest to start from
  induction more generalizing text m names with
  | nil =>
    obtain ⟨out, -, hout, -⟩ := without_without h names
    rw [List.foldlM_cons, rewrite_eq h, List.flatten_singleton, hout]
    rfl
  | cons next more ih =>
    obtain ⟨out, m', hout, hm', hmore⟩ := without_without h names
    rw [List.foldlM_cons, rewrite_eq h, hout, List.flatten_cons, ← hmore]
    exact ih hm' next

/-- Removals compose. What is written for a manifest is a manifest, and removing more packages from
it gives what removing all of them at once gives; with nothing to remove, it is written as it was.
So a series of removals amounts to one removal of all the names however they are grouped, and
neither their order nor repetitions matter. -/
theorem removals_compose (h : parse text = .ok m) :
    (∀ ns ms, ∃ out m', m.without ns = .ok out ∧ parse out = .ok m' ∧
      m'.without ms = m.without (ns ++ ms) ∧ m'.without [] = .ok out) ∧
    (∀ batches : List (List Text), batches ≠ [] →
      batches.foldlM rewrite text = m.without batches.flatten) ∧
    (∀ ns ms, (∀ name, name ∈ ns ↔ name ∈ ms) → m.without ns = m.without ms) := by
  refine ⟨?_, ?_, fun ns ms => without_congr h⟩
  · intro ns ms
    obtain ⟨out, m', hout, hm', hmore⟩ := without_without h ns
    exact ⟨out, m', hout, hm', hmore ms, by rw [hmore, List.append_nil, hout]⟩
  · intro batches hbatches
    obtain ⟨names, more, rfl⟩ := List.exists_cons_of_ne_nil hbatches
    exact foldlM_rewrite h names more

end Removals

theorem removals_compose_sample :
    ∃ m out m', parse sample = .ok m ∧ m.without ["b"] = .ok out ∧ parse out = .ok m' ∧
      m'.without ["left-pad"] = m.without ["b", "left-pad"] ∧ m'.without [] = .ok out ∧
      [[("b" : Text)], [], ["left-pad", "c"]].foldlM rewrite sample =
        m.without ["c", "left-pad", "b"] := by
  have hparse : (parse sample).toOption.isSome = true := by decide +kernel
  cases h : parse sample with
  | error f =>
    rw [h] at hparse
    exact absurd hparse (by simp [Except.toOption])
  | ok m =>
    obtain ⟨htwice, hgroup, horder⟩ := removals_compose h
    obtain ⟨out, m', hout, hm', hmore, hsame⟩ := htwice ["b"] ["left-pad"]
    refine ⟨m, out, m', rfl, hout, hm', hmore, hsame, ?_⟩
    rw [hgroup _ (by simp)]
    exact horder _ _ (by simp [or_comm, or_left_comm])

end DependencyAudit.Manifest

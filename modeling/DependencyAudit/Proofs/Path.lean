import DependencyAudit.Path
import DependencyAudit.Proofs.Text.Split

/-!
# Clean paths

The shortest equivalent path of an absolute path names plain components only: none is empty, and
none stands for the directory itself or the one above it. Such a path is its own shortest
equivalent, so making a path absolute a second time changes nothing.

## Main results

* `Path.components_ofComponents`: plain components are read back;
* `Path.absolute_absolute`: an absolute path stays as it is.
-/

namespace DependencyAudit.Path

/-- The name of an entry of a directory, as opposed to the directory itself or the one above. -/
structure IsPlain (name : Text) : Prop where
  /-- The name is not that of the directory itself, by being empty. -/
  nonempty : name.isEmpty = false
  /-- The name is not that of the directory itself, by its dot. -/
  ne_dot : name ≠ Text.ofString "."
  /-- The name is not that of the directory above. -/
  ne_dotdot : name ≠ Text.ofString ".."
  /-- The name is a single component. -/
  no_slash : slash ∉ name

/-- A plain component is kept. -/
theorem cleanStep_of_isPlain {absolute : Bool} {done : List Text} {name : Text}
    (h : IsPlain name) : cleanStep absolute done name = name :: done := by
  simp [cleanStep, h.nonempty, h.ne_dot, h.ne_dotdot]

/-- Plain components are kept, in their order. -/
theorem foldl_cleanStep_of_isPlain {absolute : Bool} {done names : List Text}
    (h : ∀ name ∈ names, IsPlain name) :
    names.foldl (cleanStep absolute) done = names.reverse ++ done := by
  induction names generalizing done with
  | nil => rfl
  | cons name more ih =>
    obtain ⟨hname, hmore⟩ := List.forall_mem_cons.mp h
    rw [List.foldl_cons, cleanStep_of_isPlain hname, ih hmore]
    simp

/-- Cleaning an absolute path leaves plain components only. -/
theorem isPlain_cleanStep {done : List Text} {piece : Text} (hpiece : slash ∉ piece)
    (h : ∀ name ∈ done, IsPlain name) : ∀ name ∈ cleanStep true done piece, IsPlain name := by
  unfold cleanStep
  split
  · exact h
  rename_i hdot
  rw [Bool.or_eq_true, not_or, Bool.not_eq_true] at hdot
  split
  · cases done with
    | nil => simp
    | cons last before =>
      -- the component before is plain, so the `..` takes it away
      obtain ⟨hlast, hbefore⟩ := List.forall_mem_cons.mp h
      simpa [hlast.ne_dotdot] using hbefore
  · rename_i hdotdot
    exact List.forall_mem_cons.mpr ⟨⟨hdot.1, by simpa using hdot.2, hdotdot, hpiece⟩, h⟩

/-- The components of an absolute path are plain. -/
theorem isPlain_of_mem_components {path : Text} (h : isAbsolute path = true) :
    ∀ name ∈ components path, IsPlain name := by
  have hfold : ∀ (ps done : List Text), (∀ p ∈ ps, slash ∉ p) → (∀ name ∈ done, IsPlain name) →
      ∀ name ∈ ps.foldl (cleanStep true) done, IsPlain name := by
    intro ps
    induction ps with
    | nil => exact fun _ _ hdone => hdone
    | cons piece more ih =>
      intro done hps hdone
      obtain ⟨hpiece, hmore⟩ := List.forall_mem_cons.mp hps
      exact ih _ hmore (isPlain_cleanStep hpiece hdone)
  intro name hname
  rw [components, h, List.mem_reverse] at hname
  exact hfold _ [] (fun _ => Text.not_mem_of_mem_splitOnByte) (by simp) name hname

@[simp]
theorem isAbsolute_ofComponents (names : List Text) :
    isAbsolute (ofComponents true names) = true := by
  simp [isAbsolute, ofComponents]

/-- Plain components are read back from the path that they make up. -/
theorem components_ofComponents {names : List Text} (h : ∀ name ∈ names, IsPlain name) :
    components (ofComponents true names) = names := by
  have hpieces : (pieces (ofComponents true names)).foldl (cleanStep true) [] = names.reverse := by
    rw [ofComponents, if_pos rfl, pieces, Text.splitOnByte_cons_self, List.foldl_cons]
    -- the piece in front of the first separator is empty
    change List.foldl (cleanStep true) [] _ = _
    cases names with
    | nil => rfl
    | cons first more =>
      rw [Text.splitOnByte_join (by simp) fun name hname => (h name hname).no_slash,
        foldl_cleanStep_of_isPlain h, List.append_nil]
  rw [components, isAbsolute_ofComponents, hpieces, List.reverse_reverse]

/-- A clean absolute path is spelled from its components. -/
theorem clean_of_isAbsolute {path : Text} (h : isAbsolute path = true) :
    clean path = ofComponents true (components path) := by
  rw [clean, h]

/-- Cleaning twice is cleaning once. -/
theorem clean_clean {path : Text} (h : isAbsolute path = true) :
    clean (clean path) = clean path := by
  rw [clean_of_isAbsolute h, clean_of_isAbsolute (isAbsolute_ofComponents _),
    components_ofComponents (isPlain_of_mem_components h)]

/-- An absolute path stays absolute. -/
theorem isAbsolute_clean {path : Text} (h : isAbsolute path = true) :
    isAbsolute (clean path) = true := by
  rw [clean_of_isAbsolute h, isAbsolute_ofComponents]

/-- A path that goes on stays absolute. -/
theorem isAbsolute_append {path : Text} (h : isAbsolute path = true) (more : Text) :
    isAbsolute (path ++ more) = true := by
  cases path with
  | nil => exact absurd h (by simp [isAbsolute])
  | cons b rest => exact h

/-- Something is joined to an absolute path behind a separator. -/
theorem join_of_isAbsolute {path : Text} (h : isAbsolute path = true) (more : Text) :
    join path more = clean (path ++ slash :: more) := by
  cases path with
  | nil => exact absurd h (by simp [isAbsolute])
  | cons b rest => rfl

/-- What is made absolute is a clean path, that of the path itself or of its join. -/
theorem exists_clean_eq_absolute {current : Text} (h : isAbsolute current = true) (path : Text) :
    ∃ whole, isAbsolute whole = true ∧ absolute current path = clean whole := by
  unfold absolute
  split
  · rename_i hpath
    exact ⟨path, hpath, rfl⟩
  · exact ⟨current ++ slash :: path, isAbsolute_append h _, join_of_isAbsolute h path⟩

/-- A path that was made absolute stays as it is. -/
theorem absolute_absolute {current : Text} (h : isAbsolute current = true) (path : Text) :
    absolute current (absolute current path) = absolute current path := by
  obtain ⟨whole, hwhole, heq⟩ := exists_clean_eq_absolute h path
  rw [heq, absolute, if_pos (isAbsolute_clean hwhole), clean_clean hwhole]

/-- A path that was made absolute consists of plain components. -/
theorem exists_components_absolute {current : Text} (h : isAbsolute current = true) (path : Text) :
    ∃ names, (∀ name ∈ names, IsPlain name) ∧
      absolute current path = ofComponents true names := by
  obtain ⟨whole, hwhole, heq⟩ := exists_clean_eq_absolute h path
  exact ⟨components whole, isPlain_of_mem_components hwhole, heq.trans (clean_of_isAbsolute hwhole)⟩

end DependencyAudit.Path

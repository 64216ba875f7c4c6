import DependencyAudit.Log.File
import DependencyAudit.Proofs.FileSystem.NewFile

/-!
# What logging changes

A record that is logged is appended to the log file, and nothing else happens to the files: every
path leads where it led before, and only under the paths of the log file there is more to read.

## Main definitions

* `LogFile.IsAt`: a path leads to the log file.

## Main results

* `LogFile.sameShape_writeAll`: paths keep leading to the same locations;
* `LogFile.content_writeAll_of_isAt` and `LogFile.content_writeAll_of_not_isAt`: what is read
  after some records have been logged;
* `LogFile.content_openAt` and `LogFile.of_content_openAt`: opening changes no content, and makes
  no other file.
-/

namespace DependencyAudit

namespace FileSystem

variable {fs fs' : FileSystem} {location : List Text} {path text : Text}

/-- A path has a location exactly if it leads to a node. -/
theorem locate?_eq_some_iff :
    fs.locate? path = some location ↔ ∃ node, fs.place true path = .ok (.found location node) := by
  unfold locate?
  split
  · rename_i hplace
    simp [hplace]
  · rename_i hnot
    simp only [reduceCtorEq, false_iff, not_exists]
    exact fun node hplace => hnot location node hplace

/-- Appending does nothing, or it changes the content of one file. -/
theorem appendAt_cases (fs : FileSystem) (location : List Text) (more : Text) :
    (fs.appendAt location more = fs ∧
      ∀ old, fs.root.at? location.reverse ≠ some (.file old)) ∨
    ∃ old, fs.root.at? location.reverse = some (.file old) ∧
      fs.appendAt location more = fs.withFile location (old ++ more) := by
  unfold appendAt
  split
  · rename_i old hold
    exact Or.inr ⟨old, hold, rfl⟩
  · rename_i hnone
    exact Or.inl ⟨rfl, fun old hold => hnone old hold⟩

/-- Appending keeps the shape of the tree. -/
theorem sameShape_appendAt (fs : FileSystem) (location : List Text) (more : Text) :
    fs.root.SameShape (fs.appendAt location more).root := by
  obtain ⟨hsame, -⟩ | ⟨old, hold, hchanged⟩ := appendAt_cases fs location more
  · rw [hsame]
    exact .refl _
  · rw [hchanged]
    exact FileNode.sameShape_put _ hold

/-- Appending keeps the current directory. -/
theorem current_appendAt (fs : FileSystem) (location : List Text) (more : Text) :
    (fs.appendAt location more).current = fs.current := by
  obtain ⟨hsame, -⟩ | ⟨old, -, hchanged⟩ := appendAt_cases fs location more
  · rw [hsame]
  · rw [hchanged]
    rfl

/-- What was appended to a file is read behind its content. -/
theorem content_appendAt_self (more : Text) (hpath : fs.locate? path = some location)
    (h : fs.content path = .ok text) :
    (fs.appendAt location more).content path = .ok (text ++ more) := by
  obtain ⟨location', hplace⟩ := content_eq_ok_iff.mp h
  obtain rfl : location' = location :=
    Option.some.inj ((locate?_eq_some_iff.mpr ⟨_, hplace⟩).symm.trans hpath)
  have hat := at?_of_place hplace
  obtain ⟨-, hnone⟩ | ⟨old, hold, hchanged⟩ := appendAt_cases fs location' more
  · exact absurd hat (hnone text)
  obtain rfl : old = text := FileNode.file.inj (Option.some.inj (hold.symm.trans hat))
  have hwritten := place_withFile (old ++ more) (isFile_of_place hplace) hplace
  rw [if_pos rfl] at hwritten
  rw [hchanged]
  exact content_eq_ok_iff.mpr ⟨location', hwritten⟩

/-- Under a path that leads elsewhere there is nothing new to read. -/
theorem content_appendAt_of_ne (more : Text) (hpath : fs.locate? path ≠ some location) :
    (fs.appendAt location more).content path = fs.content path := by
  obtain ⟨hsame, -⟩ | ⟨old, hold, hchanged⟩ := appendAt_cases fs location more
  · rw [hsame]
  rw [hchanged, ← List.reverse_reverse location]
  refine content_withFile_of_ne _ hold fun names node hlead => ?_
  rintro rfl
  rw [LeadsTo, List.reverse_reverse] at hlead
  exact hpath (locate?_eq_some_iff.mpr ⟨node, hlead⟩)

end FileSystem

namespace LogFile

variable {l : LogFile} {fs fs' : FileSystem} {path text : Text}

/-- The path leads to the log file. -/
def IsAt (l : LogFile) (fs : FileSystem) (path : Text) : Prop :=
  ∃ location, l.location? = some location ∧ fs.locate? path = some location

/-- Of no log file there is a path. -/
theorem not_isAt_none : ¬ none.IsAt fs path := by
  rintro ⟨location, hnone, -⟩
  exact absurd hnone (by simp [none])

/-! ## Writing -/

/-- A record keeps the shape of the tree. -/
theorem sameShape_write (l : LogFile) (fs : FileSystem) (r : LogRecord) :
    fs.root.SameShape (l.write fs r).root := by
  unfold write
  split
  · exact FileSystem.sameShape_appendAt _ _ _
  · exact .refl _

/-- A record keeps the current directory. -/
theorem current_write (l : LogFile) (fs : FileSystem) (r : LogRecord) :
    (l.write fs r).current = fs.current := by
  unfold write
  split
  · exact FileSystem.current_appendAt _ _ _
  · rfl

/-- Paths keep leading to the same locations. -/
theorem sameShape_writeAll (l : LogFile) (fs : FileSystem) (rs : List LogRecord) :
    fs.root.SameShape (l.writeAll fs rs).root := by
  induction rs generalizing fs with
  | nil => exact .refl _
  | cons r more ih => exact (sameShape_write l fs r).trans (ih _)

@[simp]
theorem current_writeAll (l : LogFile) (fs : FileSystem) (rs : List LogRecord) :
    (l.writeAll fs rs).current = fs.current := by
  induction rs generalizing fs with
  | nil => rfl
  | cons r more ih => exact (ih _).trans (current_write l fs r)

@[simp]
theorem locate?_writeAll (l : LogFile) (fs : FileSystem) (rs : List LogRecord) (path : Text) :
    (l.writeAll fs rs).locate? path = fs.locate? path :=
  FileSystem.locate?_of_sameShape (sameShape_writeAll l fs rs) (current_writeAll l fs rs) path

/-- A path of the log file stays one. -/
@[simp]
theorem isAt_writeAll_iff {rs : List LogRecord} :
    l.IsAt (l.writeAll fs rs) path ↔ l.IsAt fs path := by
  rw [IsAt, IsAt, locate?_writeAll]

/-- A record does not move the log file. -/
theorem isAt_write_iff {r : LogRecord} : l.IsAt (l.write fs r) path ↔ l.IsAt fs path := by
  rw [IsAt, IsAt, FileSystem.locate?_of_sameShape (sameShape_write l fs r) (current_write l fs r)]

/-- Behind what was in the log file there are the lines of the records, one after the other. -/
theorem content_writeAll_of_isAt (hpath : l.IsAt fs path) (h : fs.content path = .ok text)
    (rs : List LogRecord) :
    (l.writeAll fs rs).content path = .ok (text ++ handler.writeAll rs) := by
  -- by induction on the records; each write is an append
  induction rs generalizing fs text with
  | nil => rwa [LogHandler.writeAll, List.flatMap_nil, List.append_nil]
  | cons r more ih =>
    have hwritten : (l.write fs r).content path = .ok (text ++ handler.write r) := by
      obtain ⟨location, hlocation, hleads⟩ := hpath
      unfold write
      rw [hlocation]
      exact FileSystem.content_appendAt_self _ hleads h
    have hrest := ih (isAt_write_iff.mpr hpath) hwritten
    rwa [LogHandler.writeAll, List.flatMap_cons, ← List.append_assoc]

/-- Under every other path the same is read as before. -/
theorem content_writeAll_of_not_isAt (hpath : ¬ l.IsAt fs path) (rs : List LogRecord) :
    (l.writeAll fs rs).content path = fs.content path := by
  induction rs generalizing fs with
  | nil => rfl
  | cons r more ih =>
    have hwritten : (l.write fs r).content path = fs.content path := by
      unfold write
      split
      · rename_i location hlocation
        exact FileSystem.content_appendAt_of_ne _ fun hleads =>
          hpath ⟨location, hlocation, hleads⟩
      · rfl
    exact (ih (fun hat => hpath (isAt_write_iff.mp hat))).trans hwritten

/-- There is a file under a path if there was one before. -/
theorem content_writeAll_isOk_iff (rs : List LogRecord) :
    (∃ text, (l.writeAll fs rs).content path = .ok text) ↔ ∃ text, fs.content path = .ok text :=
  FileSystem.content_isOk_of_sameShape (sameShape_writeAll l fs rs) (current_writeAll l fs rs) path

/-! ## Opening -/

/-- Opening a log file makes it, or finds it and leaves it as it is. -/
theorem openAt_cases {logPath : Text} (h : openAt fs logPath = .ok (fs', l)) :
    ∃ location, l.location? = some location ∧
      ((∃ old, fs.place true logPath = .ok (.found location (.file old)) ∧
          fs' = fs.withFile location old) ∨
        fs.IsVacant location ∧ fs' = fs.withFile location []) := by
  unfold openAt at h
  split at h
  · rename_i opened hopened
    obtain ⟨rfl, rfl⟩ := Prod.mk.inj (Except.ok.inj h)
    rcases FileSystem.editContent_eq_ok hopened with
      ⟨location, old, hplace, rfl⟩ | ⟨location, hplace, rfl⟩
    · -- nothing is appended yet
      rw [List.append_nil]
      have hsame := FileSystem.place_withFile old (FileSystem.isFile_of_place hplace) hplace
      exact ⟨location, FileSystem.locate?_eq_some_iff.mpr ⟨_, hsame⟩, Or.inl ⟨old, hplace, rfl⟩⟩
    · have hmade := FileSystem.place_withFile_new ([] ++ []) hplace
      exact ⟨location, FileSystem.locate?_eq_some_iff.mpr ⟨_, hmade⟩,
        Or.inr ⟨FileSystem.isVacant_of_place hplace, rfl⟩⟩
  · exact absurd h (by simp)

/-- A path that leads to a log file before it is opened leads to a file. -/
theorem exists_content_of_isAt_before {logPath : Text} (h : openAt fs logPath = .ok (fs', l))
    (hpath : l.IsAt fs path) : ∃ text, fs.content path = .ok text := by
  obtain ⟨location, hlocation, hleads⟩ := hpath
  obtain ⟨location', hlocation', hopened⟩ := openAt_cases h
  obtain rfl := Option.some.inj (hlocation.symm.trans hlocation')
  obtain ⟨node, hplace⟩ := FileSystem.locate?_eq_some_iff.mp hleads
  have hnode := FileSystem.at?_of_place hplace
  obtain ⟨old, hold, -⟩ | ⟨hvacant, -⟩ := hopened
  · obtain rfl : node = .file old :=
      Option.some.inj (hnode.symm.trans (FileSystem.at?_of_place hold))
    exact ⟨old, FileSystem.content_eq_ok_iff.mpr ⟨location, hplace⟩⟩
  · exact absurd (hvacant.at?_eq_none.symm.trans hnode) (by simp)

/-- Opening a log file changes no content. -/
theorem content_openAt {logPath : Text} (h : openAt fs logPath = .ok (fs', l))
    (hcontent : fs.content path = .ok text) : fs'.content path = .ok text := by
  unfold openAt at h
  split at h
  · rename_i opened hopened
    obtain ⟨rfl, -⟩ := Prod.mk.inj (Except.ok.inj h)
    -- nothing is appended yet
    rcases FileSystem.content_of_editContent hopened hcontent with hsame | happended
    · exact hsame
    · rwa [List.append_nil] at happended
  · exact absurd h (by simp)

/-- Every file that is there when a log file has been opened was there before, unless it is the
log file. -/
theorem of_content_openAt {logPath : Text} (h : openAt fs logPath = .ok (fs', l))
    (hcontent : fs'.content path = .ok text) : fs.content path = .ok text ∨ l.IsAt fs' path := by
  obtain ⟨location, hlocation, ⟨old, hplace, rfl⟩ | ⟨hvacant, rfl⟩⟩ := openAt_cases h
  · -- the file was found, so there is one under a path if there was one before
    have hshape : fs.root.SameShape (fs.withFile location old).root :=
      FileNode.sameShape_put old (FileSystem.at?_of_place hplace)
    obtain ⟨text', hbefore⟩ :=
      (FileSystem.content_isOk_of_sameShape hshape rfl path).mp ⟨text, hcontent⟩
    obtain rfl := Except.ok.inj ((content_openAt h hbefore).symm.trans hcontent)
    exact Or.inl hbefore
  · exact (FileSystem.of_content_withFile hvacant [] hcontent).imp_right fun hnew =>
      ⟨location, hlocation, hnew⟩

/-- Under a path of a log file that has been opened there is a file. -/
theorem exists_content_of_isAt {logPath : Text} (h : openAt fs logPath = .ok (fs', l))
    (hpath : l.IsAt fs' path) : ∃ text, fs'.content path = .ok text := by
  obtain ⟨location, hlocation, hleads⟩ := hpath
  -- the node at the location is a file
  obtain ⟨text, hfile⟩ : ∃ text, fs'.root.at? location.reverse = some (.file text) := by
    obtain ⟨location', hlocation', ⟨old, hplace, rfl⟩ | ⟨hvacant, rfl⟩⟩ := openAt_cases h <;>
      obtain rfl := Option.some.inj (hlocation.symm.trans hlocation')
    · exact ⟨old, FileNode.at?_put_self _ (FileSystem.at?_of_place hplace)⟩
    · obtain ⟨-, -, hmade⟩ | ⟨hne, -⟩ | ⟨node, -, hnode, -⟩ := hvacant.at?_withFile [] location
      · exact ⟨[], hmade⟩
      · exact absurd rfl hne
      · exact absurd (hvacant.at?_eq_none.symm.trans hnode) (by simp)
  obtain ⟨node, hplace⟩ := FileSystem.locate?_eq_some_iff.mp hleads
  obtain rfl : node = .file text :=
    Option.some.inj ((FileSystem.at?_of_place hplace).symm.trans hfile)
  exact ⟨text, FileSystem.content_eq_ok_iff.mpr ⟨location, hplace⟩⟩

end LogFile

end DependencyAudit

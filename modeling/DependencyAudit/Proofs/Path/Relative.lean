import DependencyAudit.Proofs.Path

/-!
# Relative paths

The path that leads from one directory to another is compared with a base by its first component:
it leaves the base exactly if it starts with `..`, and it does so exactly if the components of the
base are not the first components of the target. Both paths are absolute and clean here, which is
how real paths are compared.

## Main results

* `Path.components_climb`: above the root directory there is only the root directory;
* `Path.join_ofComponents`: the components of a joined path;
* `Path.directory_ofComponents` and `Path.base_ofComponents`: a path without its last component,
  and the component;
* `Path.relative?_below`: from a directory to something below it;
* `Path.leaves_relative?`: which targets lie outside of a base.
-/

namespace DependencyAudit

namespace Text

variable {sep piece : Text} {front more : List Text}

theorem join_cons (h : more ≠ []) : join sep (piece :: more) = piece ++ sep ++ join sep more := by
  rw [join]
  exact h

/-- The last piece stands behind a separator, if it is not alone. -/
theorem join_concat (h : front ≠ []) (last : Text) :
    join sep (front ++ [last]) = join sep front ++ sep ++ last := by
  induction front with
  | nil => exact absurd rfl h
  | cons piece more ih =>
    cases more with
    | nil => rfl
    | cons next rest =>
      have hfront : join sep (piece :: next :: rest) = piece ++ sep ++ join sep (next :: rest) :=
        join_cons (by simp)
      rw [List.cons_append, join_cons (by simp), ih (by simp), hfront]
      simp only [List.append_assoc]

end Text

namespace Path

variable {names base : List Text}

/-! ## Reading paths -/

/-- The pieces of an absolute path: nothing in front of the first separator, then the components. -/
theorem pieces_ofComponents (hne : names ≠ []) (h : ∀ name ∈ names, slash ∉ name) :
    pieces (ofComponents true names) = [] :: names := by
  rw [ofComponents, if_pos rfl, pieces, Text.splitOnByte_cons_self, Text.splitOnByte_join hne h]

/-- Components that stand for the directory above. -/
abbrev climb (k : Nat) : List Text := List.replicate k (Text.ofString "..")

/-- The components of a climb have no slashes. -/
theorem slash_not_mem_climb {k : Nat} {name : Text} (h : name ∈ climb k) : slash ∉ name := by
  rw [List.eq_of_mem_replicate h]
  decide

/-- From the top there is nowhere to climb to. -/
theorem foldl_cleanStep_climb (k : Nat) : (climb k).foldl (cleanStep true) [] = [] := by
  induction k with
  | zero => rfl
  | succ k ih => exact ih

/-- Above the root directory there is only the root directory. -/
theorem components_climb (k : Nat) (h : ∀ name ∈ names, IsPlain name) :
    components (ofComponents true (climb k ++ names)) = names := by
  by_cases hne : climb k ++ names = []
  · obtain ⟨hk, rfl⟩ := List.append_eq_nil_iff.mp hne
    rw [hk]
    exact components_ofComponents h
  · have hslash : ∀ name ∈ climb k ++ names, slash ∉ name := by
      intro name hname
      rcases List.mem_append.mp hname with hclimb | hplain
      · exact slash_not_mem_climb hclimb
      · exact (h name hplain).no_slash
    -- the empty piece in front counts for nothing, and so do the first components
    have hfold : ([] :: (climb k ++ names)).foldl (cleanStep true) [] = names.reverse := by
      rw [List.foldl_cons]
      change (climb k ++ names).foldl (cleanStep true) [] = _
      rw [List.foldl_append, foldl_cleanStep_climb, foldl_cleanStep_of_isPlain h, List.append_nil]
    rw [components, isAbsolute_ofComponents, pieces_ofComponents hne hslash, hfold,
      List.reverse_reverse]

/-- A climb from the top is cleaned away. -/
theorem clean_climb (k : Nat) (h : ∀ name ∈ names, IsPlain name) :
    clean (ofComponents true (climb k ++ names)) = ofComponents true names := by
  rw [clean_of_isAbsolute (isAbsolute_ofComponents _), components_climb k h]

/-- A path of plain components is clean. -/
theorem clean_ofComponents (h : ∀ name ∈ names, IsPlain name) :
    clean (ofComponents true names) = ofComponents true names :=
  clean_climb 0 h

/-- Plain components can be read off a path. -/
theorem ofComponents_injective {names' : List Text} (h : ∀ name ∈ names, IsPlain name)
    (h' : ∀ name ∈ names', IsPlain name)
    (heq : ofComponents true names = ofComponents true names') : names = names' := by
  rw [← components_ofComponents h, heq, components_ofComponents h']

/-! ## Going further down -/

/-- Components that are joined to an absolute path follow those of the path. -/
theorem join_ofComponents {rest : List Text} (hbase : ∀ name ∈ base, IsPlain name)
    (hrest : ∀ name ∈ rest, IsPlain name) (hne : rest ≠ []) :
    join (ofComponents true base) (Text.join [slash] rest) = ofComponents true (base ++ rest) := by
  have habsolute := isAbsolute_ofComponents base
  have hbefore : (pieces (ofComponents true base)).foldl (cleanStep true) [] = base.reverse := by
    have hcomponents := components_ofComponents hbase
    rw [components, habsolute] at hcomponents
    exact List.reverse_eq_iff.mp hcomponents
  have hafter : Text.splitOnByte slash (Text.join [slash] rest) = rest :=
    Text.splitOnByte_join hne fun name hname => (hrest name hname).no_slash
  rw [join_of_isAbsolute habsolute, clean_of_isAbsolute (isAbsolute_append habsolute _), components,
    isAbsolute_append habsolute, pieces, Text.splitOnByte_append, hafter, List.foldl_append]
  change ofComponents true
    (rest.foldl _ ((pieces (ofComponents true base)).foldl (cleanStep true) [])).reverse = _
  rw [hbefore, foldl_cleanStep_of_isPlain hrest, List.reverse_append, List.reverse_reverse,
    List.reverse_reverse]

/-- The last component follows the last separator. -/
theorem exists_ofComponents_concat (front : List Text) (last : Text) :
    ∃ before, ofComponents true (front ++ [last]) = before ++ slash :: last := by
  by_cases hfront : front = []
  · subst hfront
    exact ⟨[], rfl⟩
  · refine ⟨slash :: Text.join [slash] front, ?_⟩
    rw [ofComponents, if_pos rfl, Text.join_concat hfront]
    simp

/-- The last slash is the one in front of the last component. -/
theorem cutAtLastByte_append (before : Text) {last : Text} (h : slash ∉ last) :
    Text.cutAtLastByte slash (before ++ slash :: last) = (some before, last) := by
  have hreverse : slash ∉ last.reverse := by simpa using h
  rw [Text.cutAtLastByte, List.reverse_append, List.reverse_cons, List.append_assoc,
    List.singleton_append, Text.cutAtByte_append hreverse]
  simp only [List.reverse_reverse]

/-- The extension is that of the last component. -/
theorem extension_append (before : Text) {last : Text} (h : slash ∉ last) :
    extension (before ++ slash :: last) = extension last := by
  have hreverse : slash ∉ last.reverse := by simpa using h
  have hcut : (Text.cutAtLastByte slash last).2 = last := by
    rw [Text.cutAtLastByte, Text.cutAtByte_of_not_mem hreverse]
    exact List.reverse_reverse last
  rw [extension, extension, cutAtLastByte_append before h, hcut]

/-- The extension of a path is that of its last component. -/
theorem extension_ofComponents (front : List Text) {last : Text} (h : slash ∉ last) :
    extension (ofComponents true (front ++ [last])) = extension last := by
  obtain ⟨before, hbefore⟩ := exists_ofComponents_concat front last
  rw [hbefore, extension_append before h]

/-- A separator at the end does not matter. -/
theorem clean_ofComponents_slash (h : ∀ name ∈ names, IsPlain name) :
    clean (ofComponents true names ++ [slash]) = ofComponents true names := by
  have habsolute := isAbsolute_ofComponents names
  have hcomponents := components_ofComponents h
  rw [components, habsolute] at hcomponents
  rw [clean_of_isAbsolute (isAbsolute_append habsolute _), components,
    isAbsolute_append habsolute, pieces, Text.splitOnByte_append, List.foldl_append]
  exact congrArg _ hcomponents

/-- The directory of a path has all components but the last. -/
theorem directory_ofComponents {front : List Text} {last : Text}
    (hfront : ∀ name ∈ front, IsPlain name) (hlast : slash ∉ last) :
    directory (ofComponents true (front ++ [last])) = ofComponents true front := by
  cases front with
  | nil =>
    have hpath : ofComponents true ([] ++ [last]) = [] ++ slash :: last := rfl
    rw [directory, hpath, cutAtLastByte_append _ hlast]
    rfl
  | cons first more =>
    have hpath : ofComponents true ((first :: more) ++ [last]) =
        ofComponents true (first :: more) ++ slash :: last := by
      rw [ofComponents, if_pos rfl, Text.join_concat (List.cons_ne_nil _ _), ofComponents,
        if_pos rfl]
      simp
    rw [directory, hpath, cutAtLastByte_append _ hlast]
    exact clean_ofComponents_slash hfront

/-- The last component of a path is its base. -/
theorem base_ofComponents (front : List Text) {last : Text} (h : IsPlain last) :
    Path.base (ofComponents true (front ++ [last])) = last := by
  obtain ⟨before, hpath⟩ := exists_ofComponents_concat front last
  -- the last component does not end with a separator
  have hdrop : Text.dropRightWhile (· = slash) (before ++ slash :: last) =
      before ++ slash :: last := by
    have hne : last.reverse ≠ [] := by simpa using h.nonempty
    obtain ⟨b, more, hb⟩ := List.exists_cons_of_ne_nil hne
    have hslash : ¬ b = slash := by
      rintro rfl
      exact h.no_slash (List.mem_reverse.mp (by rw [hb]; exact List.mem_cons_self))
    rw [Text.dropRightWhile, List.reverse_append, List.reverse_cons, List.append_assoc, hb,
      List.cons_append, List.dropWhile_cons_of_neg (by simpa using hslash), ← List.cons_append,
      ← hb]
    simp
  rw [Path.base, hpath, if_neg (by simp)]
  simp only [hdrop]
  rw [if_neg (by simp), cutAtLastByte_append _ h.no_slash]

/-! ## The way from one directory to another -/

/-- A common front is dropped entirely. -/
theorem dropCommon_append (base rest : List Text) :
    dropCommon base (base ++ rest) = ([], rest) := by
  induction base with
  | nil => cases rest <;> rfl
  | cons name more ih => rw [List.cons_append, dropCommon, if_pos rfl, ih]

/-- If nothing of the base is left, then the base is a prefix. -/
theorem isPrefix_of_dropCommon (h : (dropCommon base names).1 = []) : base <+: names := by
  induction base generalizing names with
  | nil => exact List.nil_prefix
  | cons name more ih =>
    cases names with
    | nil => exact absurd h (by simp [dropCommon])
    | cons first rest =>
      rw [dropCommon] at h
      split at h
      · rename_i heq
        subst heq
        exact List.cons_prefix_cons.mpr ⟨rfl, ih h⟩
      · exact absurd h (by simp)

/-- What is left of the base is part of it. -/
theorem mem_of_mem_dropCommon {name : Text} (h : name ∈ (dropCommon base names).1) :
    name ∈ base := by
  induction base generalizing names with
  | nil => exact absurd h (by cases names <;> simp [dropCommon])
  | cons first more ih =>
    cases names with
    | nil => exact h
    | cons other rest =>
      rw [dropCommon] at h
      split at h
      · exact List.mem_cons_of_mem _ (ih h)
      · exact h

/-- A path of plain components is compared by these. -/
theorem relativeComponents_ofComponents (isTarget : Bool) (h : ∀ name ∈ names, IsPlain name) :
    relativeComponents isTarget (ofComponents true names) = names := by
  rw [relativeComponents, components_ofComponents h]
  cases names with
  | nil => simp
  | cons => rfl

/-- From one directory to another: up to what they have in common, and down from there. -/
theorem relative?_ofComponents (hbase : ∀ name ∈ base, IsPlain name)
    (hnames : ∀ name ∈ names, IsPlain name) (hne : base ≠ names) :
    relative? (ofComponents true base) (ofComponents true names) =
      some (Text.join [slash] (climb (dropCommon base names).1.length ++
        (dropCommon base names).2)) := by
  have hclean : ¬ clean (ofComponents true base) = clean (ofComponents true names) := by
    rw [clean_ofComponents hbase, clean_ofComponents hnames]
    exact fun heq => hne (ofComponents_injective hbase hnames heq)
  have hup : (dropCommon base names).1.map (fun _ => Text.ofString "..") =
      climb (dropCommon base names).1.length :=
    List.map_const' ..
  rw [relative?, if_neg hclean, isAbsolute_ofComponents, isAbsolute_ofComponents,
    if_neg (by simp), relativeComponents_ofComponents _ hbase,
    relativeComponents_ofComponents _ hnames]
  dsimp only
  rw [hup]
  split
  · rename_i first more _ _ hfirst _
    -- a component of the base is not itself a step upwards
    have hplain := hbase first (mem_of_mem_dropCommon (by rw [hfirst]; exact List.mem_cons_self))
    rw [if_neg hplain.ne_dotdot]
  · rfl

/-- A path is `.` relative to itself. -/
theorem relative?_self (path : Text) : relative? path path = some (Text.ofString ".") :=
  if_pos rfl

/-- From a directory to something below it, the way is down only. -/
theorem relative?_below {rest : List Text} (hbase : ∀ name ∈ base, IsPlain name)
    (hrest : ∀ name ∈ rest, IsPlain name) (hne : rest ≠ []) :
    relative? (ofComponents true base) (ofComponents true (base ++ rest)) =
      some (Text.join [slash] rest) := by
  have hnames : ∀ name ∈ base ++ rest, IsPlain name := List.forall_mem_append.mpr ⟨hbase, hrest⟩
  rw [relative?_ofComponents hbase hnames (by simpa using hne), dropCommon_append]
  rfl

/-! ## Leaving the base -/

/-- A relative path that begins with a climb leaves the base. -/
theorem leaves_climb (more : List Text) :
    leaves (Text.join [slash] (Text.ofString ".." :: more)) = true := by
  rw [leaves, Bool.or_eq_true]
  cases more with
  | nil => exact Or.inl (by simp [Text.join])
  | cons next rest =>
    refine Or.inr ?_
    rw [Text.join_cons (by simp), Text.startsWith, List.isPrefixOf_iff_prefix]
    exact ⟨_, rfl⟩

/-- A path whose first component is a name stays below its base. -/
theorem leaves_of_isPlain {first : Text} (h : IsPlain first) (more : List Text) :
    leaves (Text.join [slash] (first :: more)) = false := by
  -- the first piece of the path is that name, and not `..`
  obtain ⟨others, hpieces⟩ : ∃ others,
      (Text.join [slash] (first :: more)).splitOnByte slash = first :: others := by
    cases more with
    | nil => exact ⟨[], Text.splitOnByte_of_not_mem h.no_slash⟩
    | cons next rest =>
      refine ⟨(Text.join [slash] (next :: rest)).splitOnByte slash, ?_⟩
      rw [Text.join_cons (by simp), List.append_assoc, List.singleton_append,
        Text.splitOnByte_append, Text.splitOnByte_of_not_mem h.no_slash, List.singleton_append]
  rw [leaves, Bool.or_eq_false_iff, decide_eq_false_iff_not]
  constructor
  · intro heq
    rw [heq] at hpieces
    exact h.ne_dotdot (List.cons.inj hpieces).1.symm
  · rw [Bool.eq_false_iff, Text.startsWith, Ne, List.isPrefixOf_iff_prefix]
    rintro ⟨rest, hrest⟩
    rw [← hrest] at hpieces
    exact h.ne_dotdot (List.cons.inj hpieces).1.symm

/-- The way to a target leaves the base exactly if the components of the base are not the first
ones of the target. -/
theorem leaves_relative? (hbase : ∀ name ∈ base, IsPlain name)
    (hnames : ∀ name ∈ names, IsPlain name) :
    ∃ way, relative? (ofComponents true base) (ofComponents true names) = some way ∧
      leaves way = !decide (base <+: names) := by
  by_cases hinside : base <+: names
  · obtain ⟨rest, rfl⟩ := hinside
    cases rest with
    | nil =>
      rw [List.append_nil]
      refine ⟨_, relative?_self _, ?_⟩
      rw [decide_eq_true (List.prefix_refl base)]
      decide
    | cons first more =>
      have hrest := (List.forall_mem_append.mp hnames).2
      refine ⟨_, relative?_below hbase hrest (by simp), ?_⟩
      rw [decide_eq_true (List.prefix_append base _)]
      exact leaves_of_isPlain (hrest first List.mem_cons_self) more
  · have hne : base ≠ names := fun heq => hinside (heq ▸ List.prefix_refl base)
    refine ⟨_, relative?_ofComponents hbase hnames hne, ?_⟩
    rw [decide_eq_false hinside, Bool.not_false]
    -- there is at least one step upwards
    obtain ⟨first, more, hup⟩ : ∃ first more, (dropCommon base names).1 = first :: more :=
      List.exists_cons_of_ne_nil fun hnil => hinside (isPrefix_of_dropCommon hnil)
    rw [hup]
    exact leaves_climb _

end Path

end DependencyAudit

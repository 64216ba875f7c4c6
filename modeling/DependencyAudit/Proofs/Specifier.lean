import DependencyAudit.Proofs.Text.Blank
import DependencyAudit.Proofs.Text.Split
import DependencyAudit.Specifier

/-!
# Package names are a normal form

A specifier is reduced to the name of its package, and everything behind the extraction of
declarations sees this name only. The name is a normal form: it names itself, it is a module of
the runtime if and only if the specifier is one, and longer paths into the same package are
reduced to the same name. The one exception to the last is a scope that stands alone, as a path
below it completes it to the name of a package.

## Main definitions

* `Names`: the forms of specifiers, each with the package that it names.

## Main results

* `packageName?_eq_some_iff`: the package of a specifier, by its form;
* `Names.self`, `Names.isBuiltin_eq` and `Names.below`: what the forms have in common;
* `package_name_stable`: names are a normal form.
-/

namespace DependencyAudit

namespace Text

theorem startsWith_iff {text head : Text} : text.startsWith head = true ↔ head <+: text :=
  List.isPrefixOf_iff_prefix

theorem containsText_iff {part text : Text} :
    containsText part text = true ↔ part <:+: text := by
  induction text with
  | nil => rw [containsText, List.isEmpty_iff, List.infix_nil]
  | cons b rest ih =>
    rw [containsText, Bool.or_eq_true, List.isPrefixOf_iff_prefix, ih, List.infix_cons_iff]

/-- A beginning without the byte `sep` does not reach beyond the first `sep`. -/
theorem prefix_append_cons_iff {head text rest : Text} {sep : UInt8} (h : sep ∉ head) :
    head <+: text ++ sep :: rest ↔ head <+: text := by
  refine ⟨fun hhead => ?_, fun hhead => hhead.trans (List.prefix_append _ _)⟩
  rcases List.prefix_or_prefix_of_prefix hhead (List.prefix_append text (sep :: rest)) with
    hshort | ⟨more, rfl⟩
  · exact hshort
  · cases more with
    | nil => simp
    | cons b more =>
      rw [List.prefix_append_right_inj, List.cons_prefix_cons] at hhead
      exact absurd (by simp [hhead.1]) h

end Text

namespace Specifier

/-! ## The forms of specifiers -/

/-- The byte between the segments of a specifier. -/
abbrev slash : UInt8 := Text.byte '/'

/-- The text begins with the mark of a scope. -/
def IsScoped (text : Text) : Prop :=
  Text.ofString "@" <+: text

/-- What follows a complete segment: nothing, or a slash and anything. -/
def EndsSegment (rest : Text) : Prop :=
  rest = [] ∨ ∃ more, rest = slash :: more

/-- What ends a segment does so with more behind it. -/
theorem EndsSegment.append {rest : Text} (h : EndsSegment rest) (more : Text) :
    EndsSegment (rest ++ slash :: more) := by
  rcases h with rfl | ⟨middle, rfl⟩
  · exact .inr ⟨more, rfl⟩
  · exact .inr ⟨middle ++ slash :: more, rfl⟩

/-- The specifier names a package: by its first segment, or by its first two segments if it has a
scope and the second segment is not empty. -/
inductive Names : (specifier package : Text) → Prop
  | whole {package : Text} (segment : slash ∉ package) : Names package package
  | path {package rest : Text} (segment : slash ∉ package)
      (complete : ¬IsScoped package ∨ EndsSegment rest) :
      Names (package ++ slash :: rest) package
  | inScope {scope name rest : Text} (segment : slash ∉ scope) (mark : IsScoped scope)
      (nameSegment : slash ∉ name) (named : name ≠ []) (ends : EndsSegment rest) :
      Names (scope ++ slash :: (name ++ rest)) (scope ++ slash :: name)

/-- Neither empty nor a path nor an address. -/
def IsPlain (text : Text) : Prop :=
  text ≠ [] ∧ ¬Text.ofString "." <+: text ∧ ¬Text.ofString "/" <+: text ∧
    ¬Text.ofString "://" <:+: text

/-- A specifier is plain if it is neither empty nor a location. -/
theorem isPlain_iff {text : Text} :
    IsPlain text ↔ (text.isEmpty || isLocation text) = false := by
  rw [IsPlain, isLocation]
  simp only [← Text.startsWith_iff, ← Text.containsText_iff, Bool.or_eq_false_iff,
    Bool.not_eq_true, List.isEmpty_eq_false_iff, and_assoc]

/-- Without a slash the whole text is the first segment. -/
theorem firstSegment_of_not_mem {text : Text} (h : slash ∉ text) :
    firstSegment text = (text, none) :=
  Text.cutAtByte_of_not_mem h

/-- The first segment ends at the first slash. -/
theorem firstSegment_append {text : Text} (h : slash ∉ text) (rest : Text) :
    firstSegment (text ++ slash :: rest) = (text, some rest) :=
  Text.cutAtByte_append h rest

/-- Every text is one segment, or a segment with a slash and more behind it. -/
theorem exists_segment (text : Text) :
    ∃ segment rest, slash ∉ segment ∧ EndsSegment rest ∧ text = segment ++ rest := by
  by_cases h : slash ∈ text
  · obtain ⟨segment, rest, rfl, hsegment⟩ := List.eq_append_cons_of_mem h
    exact ⟨segment, slash :: rest, hsegment, .inr ⟨rest, rfl⟩, rfl⟩
  · exact ⟨text, [], h, .inl rfl, (List.append_nil text).symm⟩

/-- The first segment is the one in front of what ends a segment. -/
theorem firstSegment_fst {segment rest : Text} (h : slash ∉ segment) (hrest : EndsSegment rest) :
    (firstSegment (segment ++ rest)).1 = segment := by
  rcases hrest with rfl | ⟨more, rfl⟩
  · rw [List.append_nil, firstSegment_of_not_mem h]
  · rw [firstSegment_append h]

/-- Every text has one of the forms. -/
theorem exists_names (text : Text) : ∃ package, Names text package := by
  obtain ⟨segment, rest, hsegment, rfl | ⟨more, rfl⟩, rfl⟩ := exists_segment text
  · rw [List.append_nil]
    exact ⟨segment, .whole hsegment⟩
  · by_cases hscoped : IsScoped segment
    · -- the second segment counts unless it is empty
      obtain ⟨name, rest, hname, hrest, rfl⟩ := exists_segment more
      by_cases hnamed : name = []
      · rw [hnamed, List.nil_append]
        exact ⟨segment, .path hsegment (.inr hrest)⟩
      · exact ⟨segment ++ slash :: name, .inScope hsegment hscoped hname hnamed hrest⟩
    · exact ⟨segment, .path hsegment (.inl hscoped)⟩

/-- A plain specifier names the package of its first segment, or of its first two. -/
theorem packageName?_of_isPlain {specifier : Text} (hspaceless : specifier.IsSpaceless)
    (hplain : IsPlain specifier) :
    packageName? specifier =
      match firstSegment specifier with
      | (head, none) => some head
      | (head, some rest) =>
        if specifier.startsWith "@" && !(firstSegment rest).1.isEmpty then
          some (head ++ slash :: (firstSegment rest).1)
        else some head := by
  rw [packageName?, hspaceless.trim_eq, isPlain_iff.mp hplain]
  rfl

/-- The form of a specifier determines its package. -/
theorem Names.packageName?_eq {specifier package : Text} (h : Names specifier package)
    (hspaceless : specifier.IsSpaceless) (hplain : IsPlain specifier) :
    packageName? specifier = some package := by
  rw [packageName?_of_isPlain hspaceless hplain]
  cases h with
  | whole segment => rw [firstSegment_of_not_mem segment]
  | @path _ rest segment complete =>
    rw [firstSegment_append segment]
    refine if_neg fun hif => ?_
    rw [Bool.and_eq_true, Text.startsWith_iff, Text.prefix_append_cons_iff (by decide)] at hif
    rcases complete with hscoped | hrest
    · exact hscoped hif.1
    · have hempty : (firstSegment ([] ++ rest)).1 = [] := firstSegment_fst (by simp) hrest
      rw [List.nil_append] at hempty
      simp [hempty] at hif
  | @inScope scope name rest segment mark nameSegment named ends =>
    rw [firstSegment_append segment]
    dsimp only
    rw [firstSegment_fst nameSegment ends]
    refine if_pos ?_
    rw [Bool.and_eq_true, Text.startsWith_iff]
    exact ⟨mark.trans (List.prefix_append _ _), by simpa using named⟩

/-- The package of a specifier, by its form. -/
theorem packageName?_eq_some_iff {specifier package : Text} (h : specifier.IsSpaceless) :
    packageName? specifier = some package ↔ IsPlain specifier ∧ Names specifier package := by
  refine ⟨fun hpackage => ?_, fun hnames => hnames.2.packageName?_eq h hnames.1⟩
  have hplain : IsPlain specifier := by
    rw [isPlain_iff, ← Bool.not_eq_true]
    intro hlocation
    rw [packageName?, h.trim_eq] at hpackage
    simp [hlocation] at hpackage
  obtain ⟨package', hnames⟩ := exists_names specifier
  have hsame := (hnames.packageName?_eq h hplain).symm.trans hpackage
  exact ⟨hplain, Option.some.inj hsame ▸ hnames⟩

/-! ## What the forms have in common -/

namespace Names

variable {specifier package : Text}

/-- A package name is the specifier or ends in front of one of its slashes. -/
theorem exists_append (h : Names specifier package) :
    ∃ rest, EndsSegment rest ∧ specifier = package ++ rest := by
  cases h with
  | whole segment => exact ⟨[], .inl rfl, (List.append_nil _).symm⟩
  | @path _ rest segment complete => exact ⟨slash :: rest, .inr ⟨rest, rfl⟩, rfl⟩
  | @inScope scope name rest segment mark nameSegment named ends =>
    exact ⟨rest, ends, by rw [List.append_assoc, List.cons_append]⟩

/-- A package name names itself. -/
theorem self (h : Names specifier package) : Names package package := by
  cases h with
  | whole segment => exact .whole segment
  | path segment complete => exact .whole segment
  | @inScope scope name rest segment mark nameSegment named ends =>
    have hname := inScope segment mark nameSegment named (.inl rfl)
    rwa [List.append_nil] at hname

/-- The specifier and its package begin with the same segment. -/
theorem firstSegment_eq (h : Names specifier package) :
    (firstSegment package).1 = (firstSegment specifier).1 := by
  cases h with
  | whole segment => rfl
  | path segment complete =>
    rw [firstSegment_of_not_mem segment, firstSegment_append segment]
  | inScope segment mark nameSegment named ends =>
    rw [firstSegment_append segment, firstSegment_append segment]

/-- The specifier and its package have the same beginnings of one segment. -/
theorem prefix_iff (h : Names specifier package) {head : Text} (hhead : slash ∉ head) :
    head <+: specifier ↔ head <+: package := by
  obtain ⟨rest, rfl | ⟨more, rfl⟩, rfl⟩ := h.exists_append
  · rw [List.append_nil]
  · exact Text.prefix_append_cons_iff hhead

/-- A package and a specifier of it are built in, or neither is. -/
theorem isBuiltin_eq (h : Names specifier package) : isBuiltin package = isBuiltin specifier := by
  have hnode : package.startsWith "node:" = specifier.startsWith "node:" := by
    rw [Bool.eq_iff_iff, Text.startsWith_iff, Text.startsWith_iff, h.prefix_iff (by decide)]
  rw [isBuiltin, isBuiltin, hnode, h.firstSegment_eq]

/-- The package of a specifier that is neither a path nor an address is neither. -/
theorem isPlain (h : Names specifier package) (hplain : IsPlain specifier) : IsPlain package := by
  obtain ⟨rest, hrest, hspecifier⟩ := h.exists_append
  obtain ⟨hne, hdot, hslash, haddress⟩ := hplain
  have hprefix : package <+: specifier := ⟨rest, hspecifier.symm⟩
  refine ⟨?_, fun hhead => hdot (hhead.trans hprefix), fun hhead => hslash (hhead.trans hprefix),
    fun hpart => haddress (hpart.trans hprefix.isInfix)⟩
  -- an empty first segment would make the specifier an absolute path
  rintro rfl
  rw [List.nil_append] at hspecifier
  subst hspecifier
  rcases hrest with rfl | ⟨more, rfl⟩
  · exact hne rfl
  · exact hslash ⟨more, rfl⟩

/-- A longer path names the same package, unless the specifier is a scope alone. -/
theorem below (h : Names specifier package)
    (hscope : ¬(IsScoped specifier ∧ slash ∉ specifier)) (rest : Text) :
    Names (specifier ++ slash :: rest) package := by
  cases h with
  | whole segment => exact .path segment (.inl fun hscoped => hscope ⟨hscoped, segment⟩)
  | @path _ more segment complete =>
    rw [List.append_assoc, List.cons_append]
    exact .path segment (complete.imp_right fun hmore => hmore.append rest)
  | @inScope scope name more segment mark nameSegment named ends =>
    rw [List.append_assoc, List.cons_append, List.append_assoc]
    exact .inScope segment mark nameSegment named (ends.append rest)

end Names

/-- A plain specifier with a path behind it is plain, unless that makes it an address. -/
theorem IsPlain.append {specifier more : Text} (h : IsPlain specifier)
    (haddress : ¬Text.ofString "://" <:+: specifier ++ more) : IsPlain (specifier ++ more) := by
  obtain ⟨hne, hdot, hslash, -⟩ := h
  obtain ⟨b, rest, rfl⟩ := List.exists_cons_of_ne_nil hne
  refine ⟨by simp, fun hhead => hdot ?_, fun hhead => hslash ?_, haddress⟩
  · exact List.cons_prefix_cons.mpr ⟨(List.cons_prefix_cons.mp hhead).1, List.nil_prefix⟩
  · exact List.cons_prefix_cons.mpr ⟨(List.cons_prefix_cons.mp hhead).1, List.nil_prefix⟩

/-- Package names are a normal form. For a specifier without white space that names a package,
the name is its own package, and it is a module of the runtime exactly if the specifier is. A path
below the specifier names the same package as long as it does not become an address, unless the
specifier is a scope alone. -/
theorem package_name_stable {specifier package : Text} (hspaceless : specifier.IsSpaceless)
    (hpackage : packageName? specifier = some package) :
    packageName? package = some package ∧
    isBuiltin package = isBuiltin specifier ∧
    ∀ path : Text, path.IsSpaceless →
      ¬Text.ofString "://" <:+: specifier ++ slash :: path →
      ¬(Text.ofString "@" <+: specifier ∧ slash ∉ specifier) →
      packageName? (specifier ++ slash :: path) = some package := by
  obtain ⟨hplain, hnames⟩ := (packageName?_eq_some_iff hspaceless).mp hpackage
  refine ⟨?_, hnames.isBuiltin_eq, fun path hpath haddress hscope => ?_⟩
  · -- white space in the name would be white space in the specifier
    have hname : package.IsSpaceless := by
      obtain ⟨rest, rfl | ⟨more, rfl⟩, rfl⟩ := hnames.exists_append
      · rwa [List.append_nil] at hspaceless
      · exact ((Text.isSpaceless_append_ascii_iff (by decide)).mp hspaceless).1
    exact (packageName?_eq_some_iff hname).mpr ⟨hnames.isPlain hplain, hnames.self⟩
  · have hlonger : (specifier ++ slash :: path).IsSpaceless :=
      (Text.isSpaceless_append_ascii_iff (by decide)).mpr ⟨hspaceless, hpath⟩
    exact (packageName?_eq_some_iff hlonger).mpr
      ⟨hplain.append haddress, hnames.below hscope path⟩

/-- A specifier of a package with a scope, with a path behind the name and with one more component.
-/
theorem package_name_stable_sample :
    packageName? "@babel/core/lib" = some (Text.ofString "@babel/core") ∧
    packageName? "@babel/core" = some (Text.ofString "@babel/core") ∧
    isBuiltin "@babel/core" = isBuiltin "@babel/core/lib" ∧
    packageName? "@babel/core/lib/parse" = some (Text.ofString "@babel/core") := by
  have hpackage : packageName? "@babel/core/lib" = some (Text.ofString "@babel/core") := by decide
  obtain ⟨hself, hbuiltin, hbelow⟩ := package_name_stable (by decide) hpackage
  exact ⟨hpackage, hself, hbuiltin,
    hbelow "parse" (by decide) (by rw [← Text.containsText_iff]; decide) (by decide)⟩

end Specifier

end DependencyAudit

import DependencyAudit.Proofs.Import.Bindings

/-!
# The packages that a text declares

Whatever the text is, its bindings are its declarations united package by package: the packages in
the order of their first declaration, each with the names and the forms of all its declarations
in the order of first sight. So a declaration that is found is never lost, and to show that a
package is bound it is enough to find one declaration of it.

## Main definitions

* `unite`: the binding of a package, read off a list of declarations.

## Main results

* `bindings_eq_unite`: the bindings of a text;
* `exists_binding_of_mem`: each declaration of a package leaves its trace in the binding.
-/

namespace DependencyAudit.Import

/-- The package that a declaration refers to, if its specifier names one. -/
def Declaration.package? (d : Declaration) : Option Text :=
  Specifier.packageName? d.specifier

/-- The declarations of a package united in one binding. The empty name is not a local name. -/
def unite (path : Text) (ds : List Declaration) (package : Text) : Binding :=
  { dependency := package
    symbols := firstOccurrences
      (((ds.filter (·.package? = some package)).flatMap (·.symbols)).filter (!·.isEmpty))
    path := path
    kinds := firstOccurrences ((ds.filter (·.package? = some package)).map (·.kind)) }

/-- The packages of some declarations, each with its binding. -/
def united (path : Text) (ds : List Declaration) : List Binding :=
  (firstOccurrences (ds.filterMap Declaration.package?)).map (unite path ds)

/-! ## One more declaration -/

/-- One more declaration of the package extends its binding. -/
private theorem extendBy_unite {path package : Text} {ds : List Declaration} {d : Declaration}
    (h : d.package? = some package) :
    extendBy (unite path ds package) d = unite path (ds ++ [d]) package := by
  have hfilter : (ds ++ [d]).filter (·.package? = some package) =
      ds.filter (·.package? = some package) ++ [d] := by
    rw [List.filter_append, List.filter_cons_of_pos (by simp [h]), List.filter_nil]
  rw [extendBy, Binding.addKind, unite, ← firstOccurrences_concat, foldl_addSymbol, unite, hfilter]
  simp

/-- Declarations of another package leave the binding alone. -/
private theorem unite_concat_of_ne {path package : Text} {ds : List Declaration} {d : Declaration}
    (h : d.package? ≠ some package) : unite path (ds ++ [d]) package = unite path ds package := by
  have hfilter : (ds ++ [d]).filter (·.package? = some package) =
      ds.filter (·.package? = some package) := by
    rw [List.filter_append, List.filter_cons_of_neg (by simpa using h), List.filter_nil,
      List.append_nil]
  rw [unite, hfilter, unite]

/-- A package without declarations has an empty binding. -/
private theorem unite_of_not_mem {path package : Text} {ds : List Declaration}
    (h : package ∉ firstOccurrences (ds.filterMap Declaration.package?)) :
    unite path ds package = ⟨package, [], path, []⟩ := by
  have hnone : ds.filter (·.package? = some package) = [] := by
    refine List.filter_eq_nil_iff.mpr fun d hd hpackage => h ?_
    exact mem_firstOccurrences.mpr (List.mem_filterMap.mpr ⟨d, hd, of_decide_eq_true hpackage⟩)
  rw [unite, hnone]
  rfl

/-- The bindings of some declarations become those of one declaration more. -/
theorem addFound_united (path : Text) (ds : List Declaration) (d : Declaration) :
    addFound path (united path ds) d = united path (ds ++ [d]) := by
  rw [united, united, List.filterMap_append]
  -- a declaration without a package changes nothing
  cases hpackage : d.package? with
  | none =>
    have hnone : [d].filterMap Declaration.package? = [] := by simp [hpackage]
    rw [hnone, List.append_nil, addFound,
      show Specifier.packageName? d.specifier = none from hpackage]
    exact List.map_congr_left fun _ _ => (unite_concat_of_ne (by simp [hpackage])).symm
  | some package =>
    have hsome : [d].filterMap Declaration.package? = [package] := by simp [hpackage]
    have hadd := @foldl_addDeclaration_map path package _ (unite path ds) [d] (by simp)
      (fun _ => rfl) (nodup_firstOccurrences (ds.filterMap Declaration.package?)) unite_of_not_mem
    rw [hsome, firstOccurrences_concat, addFound,
      show Specifier.packageName? d.specifier = some package from hpackage]
    -- only the binding of this package is extended
    refine hadd.trans (List.map_congr_left fun name _ => ?_)
    split
    · rename_i heq
      subst heq
      exact extendBy_unite hpackage
    · rename_i hne
      refine (unite_concat_of_ne fun h => hne ?_).symm
      exact Option.some.inj (h.symm.trans hpackage)

/-! ## The bindings of a text -/

/-- The bindings of a text unite its declarations by package. -/
theorem bindings_eq_unite (path text : Text) :
    bindings path text = united path (declarations text) := by
  -- after the declarations in `seen`, the bindings found so far are theirs
  have hfold : ∀ ds seen : List Declaration,
      ds.foldl (addFound path) (united path seen) = united path (seen ++ ds) := by
    intro ds
    induction ds with
    | nil => intro seen; rw [List.append_nil]; rfl
    | cons d ds ih =>
      intro seen
      rw [List.foldl_cons, addFound_united, ih, List.append_assoc, List.singleton_append]
  exact hfold (declarations text) []

/-- A declaration of a package is found again in the binding of this package. -/
theorem exists_binding_of_mem (path : Text) {text package : Text} {d : Declaration}
    (hd : d ∈ declarations text) (hpackage : d.package? = some package) :
    ∃ b ∈ bindings path text, b.dependency = package ∧
      (∀ s ∈ d.symbols, s ≠ [] → s ∈ b.symbols) ∧ d.kind ∈ b.kinds := by
  have hown : d ∈ (declarations text).filter (·.package? = some package) :=
    List.mem_filter.mpr ⟨hd, by simpa using hpackage⟩
  refine ⟨unite path (declarations text) package, ?_, rfl, fun s hs hne => ?_, ?_⟩
  · rw [bindings_eq_unite]
    refine List.mem_map_of_mem (mem_firstOccurrences.mpr ?_)
    exact List.mem_filterMap.mpr ⟨d, hd, hpackage⟩
  · refine mem_firstOccurrences.mpr (List.mem_filter.mpr ⟨?_, by simpa using hne⟩)
    exact List.mem_flatMap.mpr ⟨d, hown, hs⟩
  · exact mem_firstOccurrences.mpr (List.mem_map_of_mem hown)

/-- Import statements are found at the places of their pattern. -/
theorem staticImports_eq (text : Text) :
    staticImports text = (places importAt? text 0 false 0).map importDeclaration := by
  rw [staticImports, findAll_importStatement?]
  rfl

/-- Every place of an import statement is declared. -/
theorem mem_declarations_of_import {text : Text} {place : Nat × Text × Text}
    (h : place ∈ places importAt? text 0 false 0) :
    importDeclaration place ∈ declarations text := by
  have himport : importDeclaration place ∈ staticImports text := by
    rw [staticImports_eq]
    exact List.mem_map_of_mem h
  simp [declarations, List.mem_mergeSort, himport]

/-- Every place of a call is declared. -/
theorem mem_declarations_of_call {text word : Text} (hword : word ∈ callees) {place : Nat × Text}
    (h : place ∈ places (call? word) text 0 false 0) :
    callDeclaration place ∈ declarations text := by
  have hcall : callDeclaration place ∈ calls word text := by
    rw [calls, findAll_eq_places _ (fun _ => []) fun _ _ => rfl]
    exact List.mem_map_of_mem h
  have hwords : word = Text.ofString "require" ∨ word = Text.ofString "import" := by
    simpa [callees] using hword
  rcases hwords with rfl | rfl
  · simp [declarations, List.mem_mergeSort, hcall]
  · simp [declarations, List.mem_mergeSort, hcall]

end DependencyAudit.Import

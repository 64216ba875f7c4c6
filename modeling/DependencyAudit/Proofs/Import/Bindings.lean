import DependencyAudit.Proofs.FirstOccurrences
import DependencyAudit.Proofs.Import.Declarations

/-!
# The packages that a program declares

The declarations of a program are united package by package. What is found in the text of a
program is what its statements say: one binding per package, with the names and the forms of all
its statements in the order of first sight. This holds of every program that leaves no statement
open for another reading (`Statement.isReadable`), in whatever layout it is written.

## Main results

* `foldl_addDeclaration_map`: adding declarations to the binding of their package;
* `bindings_of_readable_program`: the bindings that are found in a program.
-/

namespace DependencyAudit.Import

/-! ## Names are not empty -/

/-- The first segment of a specifier that is no location is not empty. -/
private theorem firstSegment_ne_nil {text : Text} (hne : text ≠ [])
    (hlocation : Specifier.isLocation text = false) : (Specifier.firstSegment text).1 ≠ [] := by
  obtain ⟨b, rest, rfl⟩ := List.exists_cons_of_ne_nil hne
  have hb : b ≠ Text.byte '/' := by
    rintro rfl
    have hslash : Text.startsWith (Text.byte '/' :: rest) "/" = true :=
      List.isPrefixOf_iff_prefix.mpr ⟨rest, rfl⟩
    simp [Specifier.isLocation, hslash] at hlocation
  rw [Specifier.firstSegment, Text.cutAtByte]
  split
  · exact hne
  · simp [hb]

/-- A package name is not empty. -/
theorem packageName?_ne_nil {specifier name : Text}
    (h : Specifier.packageName? specifier = some name) : name ≠ [] := by
  rw [Specifier.packageName?] at h
  dsimp only at h
  split at h
  · cases h
  · rename_i hplace
    rw [Bool.or_eq_true, not_or, List.isEmpty_iff, Bool.not_eq_true] at hplace
    have hsegment := firstSegment_ne_nil hplace.1 hplace.2
    split at h
    · rename_i head hcut
      obtain rfl := Option.some.inj h
      rwa [hcut] at hsegment
    · rename_i head tail hcut
      rw [hcut] at hsegment
      split at h
      · obtain rfl := Option.some.inj h
        simp
      · obtain rfl := Option.some.inj h
        exact hsegment

/-- An element binds a name. -/
theorem Element.binds_ne_nil (e : Element) : e.binds ≠ [] := by
  cases e with
  | plain name => exact name.ne_nil
  | renamed _ _ _ localName => exact localName.ne_nil

/-- Names of a group are not empty. -/
theorem Group.ne_nil_of_mem_names {g : Group} {name : Text} (h : name ∈ g.names) : name ≠ [] := by
  cases g with
  | braces elements inner =>
    obtain ⟨s, -, rfl⟩ := List.mem_map.mp h
    exact s.element.binds_ne_nil
  | star before after n =>
    obtain rfl := List.mem_singleton.mp h
    exact n.ne_nil

/-- Names of a clause are not empty. -/
theorem Clause.ne_nil_of_mem_names {c : Clause} {name : Text} (h : name ∈ c.names) :
    name ≠ [] := by
  cases c with
  | default n =>
    obtain rfl := List.mem_singleton.mp h
    exact n.ne_nil
  | group g => exact Group.ne_nil_of_mem_names h
  | both n _ _ g =>
    rcases List.mem_cons.mp h with rfl | h
    · exact n.ne_nil
    · exact Group.ne_nil_of_mem_names h

/-- Names of a target are not empty. -/
theorem Target.ne_nil_of_mem_names {t : Target} {name : Text} (h : name ∈ t.names) :
    name ≠ [] := by
  cases t with
  | name n =>
    obtain rfl := List.mem_singleton.mp h
    exact n.ne_nil
  | pattern elements inner =>
    obtain ⟨s, -, rfl⟩ := List.mem_map.mp h
    exact s.binder.binds_ne_nil

/-! ## Adding declarations -/

/-- A binding with the names and the form of one more declaration. -/
def extendBy (b : Binding) (d : Declaration) : Binding :=
  d.symbols.foldl Binding.addSymbol (b.addKind d.kind)

/-- A name that differs from the first is inserted behind it. -/
private theorem insertNew_cons_of_ne {ns : List Text} {m name : Text} (h : name ≠ m) :
    insertNew (m :: ns) name = m :: insertNew ns name := by
  by_cases hmem : name ∈ ns
  · rw [insertNew_of_mem hmem, insertNew_of_mem (List.mem_cons_of_mem _ hmem)]
  · rw [insertNew_of_not_mem hmem, insertNew_of_not_mem (by simp [h, hmem]), List.cons_append]

/-- A declaration is added to the binding of its package, which is made if there is none. -/
private theorem addDeclaration_map {path name : Text} {ns : List Text} {e : Text → Binding}
    (d : Declaration) (he : ∀ n, (e n).dependency = n) (hns : ns.Nodup)
    (hnew : name ∉ ns → e name = ⟨name, [], path, []⟩) :
    addDeclaration path name d (ns.map e) =
      (insertNew ns name).map fun n => if n = name then extendBy (e n) d else e n := by
  induction ns with
  | nil =>
    have hsingle : insertNew ([] : List Text) name = [name] := insertNew_of_not_mem (by simp)
    rw [hsingle, List.map_cons, if_pos rfl, hnew (by simp)]
    rfl
  | cons m more ih =>
    obtain ⟨hm, hmore⟩ := List.nodup_cons.mp hns
    rw [List.map_cons, addDeclaration, he]
    split
    · rename_i heq
      subst heq
      -- the package occurs only once, so the rest stays as it is
      have hrest : more.map e = more.map fun n => if n = m then extendBy (e n) d else e n := by
        refine List.map_congr_left fun n hn => ?_
        rw [if_neg fun heq : n = m => hm (heq ▸ hn)]
      rw [insertNew_of_mem List.mem_cons_self, List.map_cons, if_pos rfl, hrest]
      rfl
    · rename_i hne
      have hmem : name ∉ more → e name = ⟨name, [], path, []⟩ := fun hnot =>
        hnew (by simp [hnot, Ne.symm hne])
      rw [insertNew_cons_of_ne (Ne.symm hne), List.map_cons, if_neg hne, ih hmore hmem]

/-- A binding keeps its dependency. -/
theorem dependency_extendBy (b : Binding) (d : Declaration) :
    (extendBy b d).dependency = b.dependency := by
  have hsymbols : ∀ (names : List Text) (b : Binding),
      (names.foldl Binding.addSymbol b).dependency = b.dependency := by
    intro names
    induction names with
    | nil => exact fun _ => rfl
    | cons name names ih =>
      intro b
      rw [List.foldl_cons, ih, Binding.addSymbol]
      split <;> rfl
  exact hsymbols _ _

/-- Declarations of one package are added to its binding one by one. -/
theorem foldl_addDeclaration_map {path name : Text} {ns : List Text} {e : Text → Binding}
    {ds : List Declaration} (hne : ds ≠ []) (he : ∀ n, (e n).dependency = n) (hns : ns.Nodup)
    (hnew : name ∉ ns → e name = ⟨name, [], path, []⟩) :
    ds.foldl (fun found d => addDeclaration path name d found) (ns.map e) =
      (insertNew ns name).map fun n => if n = name then ds.foldl extendBy (e n) else e n := by
  induction ds generalizing ns e with
  | nil => exact absurd rfl hne
  | cons d ds ih =>
    -- once the package has a binding, no further one is made
    rw [List.foldl_cons, addDeclaration_map d he hns hnew]
    cases ds with
    | nil => rfl
    | cons d' ds =>
      have hmem : name ∈ insertNew ns name := mem_insertNew.mpr (Or.inr rfl)
      rw [ih (by simp) ?_ (nodup_insertNew hns) fun hnot => absurd hmem hnot,
        insertNew_of_mem hmem]
      · refine List.map_congr_left fun n _ => ?_
        split
        · rfl
        · rfl
      · intro n
        split
        · rw [dependency_extendBy, he]
        · exact he n

/-- Several names are recorded in the order of first sight, apart from the empty one. -/
theorem foldl_addSymbol {name path : Text} {kinds : List DeclarationKind}
    (symbols names : List Text) :
    names.foldl Binding.addSymbol ⟨name, firstOccurrences symbols, path, kinds⟩ =
      ⟨name, firstOccurrences (symbols ++ names.filter (!·.isEmpty)), path, kinds⟩ := by
  induction names generalizing symbols with
  | nil => simp
  | cons s names ih =>
    rw [List.foldl_cons, Binding.addSymbol]
    split
    · rename_i hs
      rw [ih, List.filter_cons_of_neg (by simp [hs])]
    · rename_i hs
      rw [← firstOccurrences_concat, ih, List.filter_cons_of_pos (by simpa using hs),
        List.append_assoc, List.singleton_append]

/-- The names and the forms of several declarations, in the order of first sight. -/
theorem foldl_extendBy {name path : Text} {symbols : List Text} {kinds : List DeclarationKind}
    {ds : List Declaration} (h : ∀ d ∈ ds, ∀ s ∈ d.symbols, s ≠ []) :
    ds.foldl extendBy ⟨name, firstOccurrences symbols, path, firstOccurrences kinds⟩ =
      ⟨name, firstOccurrences (symbols ++ ds.flatMap (·.symbols)), path,
        firstOccurrences (kinds ++ ds.map (·.kind))⟩ := by
  induction ds generalizing symbols kinds with
  | nil => simp
  | cons d ds ih =>
    obtain ⟨hd, hds⟩ := List.forall_mem_cons.mp h
    rw [List.foldl_cons, extendBy, Binding.addKind]
    dsimp only
    have hnames : d.symbols.filter (!·.isEmpty) = d.symbols :=
      List.filter_eq_self.mpr fun s hs => by simpa using hd s hs
    rw [← firstOccurrences_concat, foldl_addSymbol, hnames, ih hds]
    simp

/-! ## The bindings of a program -/

/-- The binding of a package in a program, which is empty when nothing declares it. -/
private def entry (path : Text) (p : Program) (package : Text) : Binding :=
  { dependency := package
    symbols := firstOccurrences ((p.declaring package).flatMap (·.form.names package))
    path := path
    kinds := firstOccurrences ((p.declaring package).map (·.form.kind)) }

/-- The bindings of a program, one for each package in the order of their first statements. -/
private theorem bindings_eq (path : Text) (p : Program) :
    p.bindings path = (firstOccurrences (p.filterMap Statement.package?)).map (entry path p) :=
  rfl

/-- One more statement declares its own package only. -/
private theorem declaring_concat (p : Program) (s : Statement) (package : Text) :
    Program.declaring (p ++ [s]) package =
      p.declaring package ++ if s.package? = some package then [s] else [] := by
  rw [Program.declaring, List.filter_append]
  congr 1
  by_cases h : s.package? = some package <;> simp [h]

/-- The declarations of a statement carry its specifier, its form and its names. -/
private theorem Statement.declarations_spec (s : Statement) (offset : Nat) :
    s.declarations offset ≠ [] ∧
      (∀ d ∈ s.declarations offset, d.specifier = s.literal.specifier) ∧
      (∀ kinds, firstOccurrences (kinds ++ (s.declarations offset).map (·.kind)) =
        firstOccurrences (kinds ++ [s.form.kind])) ∧
      ∀ package, s.package? = some package →
        (s.declarations offset).flatMap (·.symbols) = s.form.names package := by
  have himplicit : ∀ package, s.package? = some package →
      implicitSymbols s.literal.specifier = [package] := fun package h => by
    rw [implicitSymbols, show Specifier.packageName? s.literal.specifier = some package from h]
    rfl
  cases hform : s.form with
  | clause =>
    refine ⟨?_, ?_, ?_, ?_⟩ <;> simp [declarations, hform, Form.kind, Form.names]
  | assignment =>
    refine ⟨?_, ?_, fun kinds => ?_, fun package h => ?_⟩
    · simp [declarations, hform]
    · simp [declarations, hform]
    · -- the call in an assignment has the form of the assignment
      have hkinds : (s.declarations offset).map (·.kind) =
          [DeclarationKind.dynamicRequire] ++ [DeclarationKind.dynamicRequire] := by
        simp [declarations, hform]
      rw [hkinds, ← List.append_assoc, firstOccurrences_concat, insertNew_of_mem (by simp)]
      rfl
    · simp [declarations, hform, Form.names, himplicit package h]
  | call =>
    refine ⟨?_, ?_, ?_, fun package h => ?_⟩
    · simp [declarations, hform]
    · simp [declarations, hform]
    · simp [declarations, hform, Form.kind]
    · simp [declarations, hform, Form.names, himplicit package h]

/-- Names of a statement are not empty. -/
theorem Form.ne_nil_of_mem_names {f : Form} {package name : Text} (hpackage : package ≠ [])
    (h : name ∈ f.names package) : name ≠ [] := by
  cases f with
  | clause => exact Clause.ne_nil_of_mem_names h
  | assignment =>
    rcases List.mem_append.mp h with h | h
    · exact Target.ne_nil_of_mem_names h
    · exact List.mem_singleton.mp h ▸ hpackage
  | call => exact List.mem_singleton.mp h ▸ hpackage

/-- What a declaration does to the bindings of a file. -/
def addFound (path : Text) (found : List Binding) (d : Declaration) : List Binding :=
  match Specifier.packageName? d.specifier with
  | some name => addDeclaration path name d found
  | none => found

/-- Declarations without a package leave no binding. -/
private theorem foldl_addFound_none {path : Text} {ds : List Declaration}
    (h : ∀ d ∈ ds, Specifier.packageName? d.specifier = none) (found : List Binding) :
    ds.foldl (addFound path) found = found := by
  induction ds generalizing found with
  | nil => rfl
  | cons d ds ih =>
    obtain ⟨hd, hds⟩ := List.forall_mem_cons.mp h
    rw [List.foldl_cons, addFound, hd]
    exact ih hds found

/-- Declarations of one package extend the binding of this package. -/
private theorem foldl_addFound_some {path name : Text} {ds : List Declaration}
    (h : ∀ d ∈ ds, Specifier.packageName? d.specifier = some name) (found : List Binding) :
    ds.foldl (addFound path) found =
      ds.foldl (fun found d => addDeclaration path name d found) found := by
  induction ds generalizing found with
  | nil => rfl
  | cons d ds ih =>
    obtain ⟨hd, hds⟩ := List.forall_mem_cons.mp h
    rw [List.foldl_cons, List.foldl_cons, addFound, hd]
    exact ih hds _

/-- A package that no statement declares has an empty binding. -/
private theorem entry_of_not_mem {path : Text} {p : Program} {name : Text}
    (h : name ∉ firstOccurrences (p.filterMap Statement.package?)) :
    entry path p name = ⟨name, [], path, []⟩ := by
  have hnone : p.declaring name = [] := by
    refine List.filter_eq_nil_iff.mpr fun s hs hname => h ?_
    exact mem_firstOccurrences.mpr (List.mem_filterMap.mpr ⟨s, hs, of_decide_eq_true hname⟩)
  rw [entry, hnone]
  rfl

/-- A statement leaves the bindings of other packages alone. -/
private theorem entry_concat_of_ne {path : Text} {p : Program} {s : Statement} {name : Text}
    (h : s.package? ≠ some name) : entry path (p ++ [s]) name = entry path p name := by
  rw [entry, declaring_concat, if_neg h, List.append_nil]
  rfl

/-- A statement extends the binding of its package by its declarations. -/
private theorem entry_concat {path : Text} {p : Program} {s : Statement} {package : Text}
    (h : s.package? = some package) (offset : Nat) :
    (s.declarations offset).foldl extendBy (entry path p package) =
      entry path (p ++ [s]) package := by
  obtain ⟨-, -, hkinds, hsymbols⟩ := s.declarations_spec offset
  have hnames : ∀ d ∈ s.declarations offset, ∀ name ∈ d.symbols, name ≠ [] := by
    intro d hd name hname
    have hmem : name ∈ s.form.names package := by
      rw [← hsymbols package h]
      exact List.mem_flatMap.mpr ⟨d, hd, hname⟩
    exact Form.ne_nil_of_mem_names (packageName?_ne_nil h) hmem
  rw [entry, foldl_extendBy hnames, hkinds, hsymbols package h, entry, declaring_concat, if_pos h,
    List.flatMap_append, List.map_append, List.flatMap_singleton, List.map_singleton]

/-- The declarations of one more statement extend the bindings of a program by it. -/
private theorem foldl_addFound_statement (path : Text) (p : Program) (s : Statement)
    (offset : Nat) :
    (s.declarations offset).foldl (addFound path) (p.bindings path) =
      Program.bindings path (p ++ [s]) := by
  obtain ⟨hne, hspecifier, -⟩ := s.declarations_spec offset
  rw [bindings_eq, bindings_eq, List.filterMap_append]
  -- a statement without a package changes nothing
  cases hpackage : s.package? with
  | none =>
    have hnone : [s].filterMap Statement.package? = [] := by simp [hpackage]
    rw [foldl_addFound_none fun d hd => by rw [hspecifier d hd]; exact hpackage, hnone,
      List.append_nil]
    exact List.map_congr_left fun name _ => (entry_concat_of_ne (by simp [hpackage])).symm
  | some package =>
    have hsome : [s].filterMap Statement.package? = [package] := by simp [hpackage]
    rw [foldl_addFound_some fun d hd => by rw [hspecifier d hd]; exact hpackage, hsome,
      foldl_addDeclaration_map hne (fun _ => rfl) (nodup_firstOccurrences _) entry_of_not_mem,
      firstOccurrences_concat]
    -- only the binding of this package takes the new declarations
    refine List.map_congr_left fun name _ => ?_
    split
    · rename_i heq
      rw [heq, entry_concat hpackage]
    · rename_i hother
      refine (entry_concat_of_ne ?_).symm
      rw [hpackage]
      exact fun h => hother (Option.some.inj h).symm

/-- The bindings that are found in the text of a program are those of the program. -/
theorem bindings_of_readable_program (path : Text) (p : Program)
    (h : ∀ s ∈ p, s.isReadable = true) : bindings path p.text = p.bindings path := by
  -- after the statements of `q`, the bindings found so far are those of `q`
  have hfold : ∀ (p q : Program) (offset : Nat),
      (p.collect Statement.declarations offset).foldl (addFound path) (q.bindings path) =
        Program.bindings path (q ++ p) := by
    intro p
    induction p with
    | nil => intro q offset; simp [Program.collect]
    | cons s p ih =>
      intro q offset
      rw [Program.collect, List.foldl_append, foldl_addFound_statement, ih, List.append_assoc,
        List.singleton_append]
  rw [bindings, declarations_text h]
  exact hfold p [] 0

/-! ## A program -/

private def sampleBlank : Space := ⟨⟨" ", by decide⟩, by decide⟩

private def sampleGap : WideGap := ⟨⟨[.byte Ascii.space], by decide⟩, by decide⟩

/-- A clause with a comment in it, an assignment to a pattern, and a call for a package that was
declared before. -/
private def sampleProgram : Program :=
  [{ before := noBlanks
     form := .clause sampleBlank
       ⟨[.comment (.block " const \x7b\x7d " (by decide) (by decide)), .byte Ascii.space],
         by decide⟩
       (.both ⟨"React", by decide, by decide⟩ ⟨[], by decide⟩ sampleGap.toGap
         (.braces ⟨[], some ⟨sampleGap.toGap, .renamed ⟨"useState", by decide, by decide⟩ sampleGap
           sampleGap ⟨"state", by decide, by decide⟩, sampleGap.toGap⟩⟩ ⟨[], by decide⟩))
       sampleGap.toGap sampleBlank.toBlanks
     literal := ⟨Ascii.apostrophe, "react", Ascii.apostrophe, by decide, by decide, by decide,
       by decide⟩
     after := noBlanks },
   { before := noBlanks
     form := .assignment "const" (by decide) sampleBlank
       (.pattern ⟨[⟨noBlanks, .field ⟨"get", by decide, by decide⟩ none none, noBlanks⟩],
         some ⟨sampleBlank.toBlanks, .field ⟨"put", by decide, by decide⟩
           (some ⟨noBlanks, sampleBlank.toBlanks, ⟨"send", by decide, by decide⟩⟩) none,
           noBlanks⟩⟩ noBlanks)
       sampleBlank.toBlanks sampleBlank.toBlanks ⟨noBlanks, noBlanks, noBlanks⟩
     literal := ⟨Ascii.quote, "superagent", Ascii.quote, by decide, by decide, by decide,
       by decide⟩
     after := noBlanks },
   { before := noBlanks
     form := .call "import" (by decide) ⟨noBlanks, noBlanks, noBlanks⟩
     literal := ⟨Ascii.backtick, "react/jsx", Ascii.backtick, by decide, by decide, by decide,
       by decide⟩
     after := noBlanks }]

private def sampleText : Text :=
  Text.ofString "import /* const \x7b\x7d */ React, \x7b useState as state \x7d from 'react';\n" ++
    (Text.ofString "const \x7bget, put: send\x7d = require(\"superagent\");\n" ++
      Text.ofString "import(`react/jsx`);\n")

/-- The package of the third statement is that of the first, so that there are two bindings. -/
theorem bindings_of_readable_program_sample :
    sampleProgram.text = sampleText ∧
      bindings "a.js" sampleText =
        [⟨"react", ["React", "state", "react"], "a.js", [.staticImport, .dynamicRequire]⟩,
          ⟨"superagent", ["get", "send", "superagent"], "a.js", [.dynamicRequire]⟩] := by
  have htext : sampleProgram.text = sampleText := by decide +kernel
  refine ⟨htext, ?_⟩
  rw [← htext, bindings_of_readable_program _ _ (by decide +kernel)]
  decide +kernel

-- what is not readable can be misread: here `type` is taken for a modifier of the name `as`
example : bindings "a.js" "import \x7b type as t \x7d from 'p';\n" =
    [⟨"p", ["as"], "a.js", [.staticImport]⟩] := by
  decide +kernel

end DependencyAudit.Import

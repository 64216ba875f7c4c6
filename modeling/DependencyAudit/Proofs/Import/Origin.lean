import DependencyAudit.Proofs.Import.Extent
import DependencyAudit.Proofs.Import.Packages

/-!
# Where bindings come from

Nothing is invented: a package is bound only because its specifier stands in the text between two
quotes, behind `from` or behind the parenthesis of a call. This holds of every text, whether or not
it parses or is well-formed UTF-8. The four patterns that search the text have little in common,
but each of them ends with such a literal, and the specifier that it returns is the one that stands
there.

## Main definitions

* `LeadsUp`: the words in front of the literal of a declaration;
* `HasLiteral` and `DeclaredIn`: a text holds a declaration of a package;
* `IsGrounded`: what is true of every binding of a text.

## Main results

* `hasLiteral_of_import`, `hasLiteral_of_call` and `hasLiteral_of_assignment`: what a match rests
  on;
* `hasLiteral_of_mem_declarations`: the literal that a declaration was read off;
* `bindings_rest_on_text`: the bindings of any text.
-/

namespace DependencyAudit.Import

/-- The text ends with the words that stand in front of the specifier in a declaration of the given
form, up to white space. -/
def LeadsUp : DeclarationKind → Text → Prop
  | .staticImport, before => ∃ (front : Text) (inner : Blanks),
      before = front ++ (Text.ofString "from" ++ inner.text)
  | .dynamicRequire, before => ∃ front, ∃ word ∈ callees, ∃ outer inner : Blanks,
      before = front ++ (word ++ (outer.text ++ Text.byte '(' :: inner.text))

/-- The text holds a quoted specifier, with the words of a declaration in front of it. -/
def HasLiteral (text : Text) (kind : DeclarationKind) (specifier : Text) : Prop :=
  ∃ (before : Text) (l : Literal) (after : Text),
    text = before ++ l.opening :: (l.specifier ++ l.closing :: after) ∧ LeadsUp kind before ∧
      l.specifier = specifier

/-- The text holds a declaration of the package in the given form. -/
def DeclaredIn (text : Text) (kind : DeclarationKind) (package : Text) : Prop :=
  ∃ specifier, HasLiteral text kind specifier ∧ Specifier.packageName? specifier = some package

/-- A binding of a file that does not say more than the text of the file. -/
structure IsGrounded (path text : Text) (b : Binding) : Prop where
  /-- The binding is of a package. -/
  dependency_ne_nil : b.dependency ≠ []
  /-- The binding is in the file. -/
  path_eq : b.path = path
  /-- Every name is bound once. -/
  nodup_symbols : b.symbols.Nodup
  /-- No bound name is empty. -/
  nil_not_mem_symbols : [] ∉ b.symbols
  /-- The package is declared in some form. -/
  kinds_ne_nil : b.kinds ≠ []
  /-- Every form is listed once. -/
  nodup_kinds : b.kinds.Nodup
  /-- The text holds a declaration of the package in each of the forms. -/
  declaredIn : ∀ kind ∈ b.kinds, DeclaredIn text kind b.dependency

/-! ## What the patterns match -/

theorem HasLiteral.append {text specifier : Text} {kind : DeclarationKind}
    (h : HasLiteral text kind specifier) (front : Text) :
    HasLiteral (front ++ text) kind specifier := by
  obtain ⟨before, l, after, rfl, hlead, hspecifier⟩ := h
  refine ⟨front ++ before, l, after, by rw [List.append_assoc], ?_, hspecifier⟩
  cases kind with
  | staticImport =>
    obtain ⟨front', inner, rfl⟩ := hlead
    exact ⟨front ++ front', inner, by rw [List.append_assoc]⟩
  | dynamicRequire =>
    obtain ⟨front', word, hword, outer, inner, rfl⟩ := hlead
    exact ⟨front ++ front', word, hword, outer, inner, by rw [List.append_assoc]⟩

/-- Behind a word that is called, an argument is a literal. -/
theorem hasLiteral_of_argument? {c c' : Cursor} {word specifier : Text} (hword : word ∈ callees)
    (h : c.argument? = some (specifier, c')) :
    HasLiteral (word ++ c.ahead) .dynamicRequire specifier := by
  obtain ⟨p, l, hspecifier, hpasses⟩ := Cursor.argument?_passes h
  refine ⟨word ++ p.opening, l, p.closing ++ c'.ahead, ?_,
    ⟨[], word, hword, p.before, p.inner, rfl⟩, hspecifier⟩
  rw [hpasses.ahead]
  simp

theorem hasLiteral_of_import {text clause specifier : Text} {size : Nat}
    (h : importAt? text = some ((clause, specifier), size)) :
    HasLiteral text .staticImport specifier := by
  obtain ⟨front, inner, l, rest, htext, hspecifier, -⟩ := importAt?_takes h
  refine ⟨front ++ (Text.ofString "from" ++ inner.text), l, rest, ?_, ⟨front, inner, rfl⟩,
    hspecifier.symm⟩
  rw [htext]
  simp

theorem hasLiteral_of_call {text word specifier : Text} {size : Nat} (hword : word ∈ callees)
    (h : call? word text = some (specifier, size)) : HasLiteral text .dynamicRequire specifier := by
  obtain ⟨c, hexpect, h⟩ := Option.bind_eq_some_iff.mp h
  obtain ⟨⟨specifier', c'⟩, hargument, h⟩ := Option.bind_eq_some_iff.mp h
  obtain ⟨rfl, -⟩ := Prod.mk.inj (Option.some.inj h)
  have htext : text = word ++ c.ahead := Cursor.expect?_sound hexpect
  rw [htext]
  exact hasLiteral_of_argument? hword hargument

/-- An assignment ends with a call of a literal, whatever its target is. -/
theorem hasLiteral_of_assignment {text target specifier : Text} {size : Nat}
    (h : assignment? text = some ((target, specifier), size)) :
    HasLiteral text .dynamicRequire specifier := by
  obtain ⟨c₁, hword, h⟩ := Option.bind_eq_some_iff.mp h
  obtain ⟨c₂, hspace, h⟩ := Option.bind_eq_some_iff.mp h
  obtain ⟨⟨target', c₃⟩, htarget, h⟩ := Option.bind_eq_some_iff.mp h
  obtain ⟨c₄, hequals, h⟩ := Option.bind_eq_some_iff.mp h
  obtain ⟨c₅, hcallee, h⟩ := Option.bind_eq_some_iff.mp h
  obtain ⟨⟨specifier', c₆⟩, hargument, h⟩ := Option.bind_eq_some_iff.mp h
  obtain ⟨⟨-, rfl⟩, -⟩ : (target' = target ∧ specifier' = specifier) ∧ c₆.passed = size := by
    simpa using h
  -- each step of the cursor passes a piece of the text
  obtain ⟨word, -, htext⟩ := Cursor.expectAny?_sound hword
  obtain ⟨space, hahead₁, -⟩ := Cursor.someBlanks?_sound hspace
  obtain ⟨hahead₂, -⟩ := Cursor.target?_sound htarget
  obtain ⟨blanks₃, hahead₃, -⟩ := c₃.blanks_sound
  obtain ⟨blanks₄, hahead₄, -⟩ := c₄.blanks_sound
  obtain ⟨skipped, hahead₅, -⟩ := c₄.blanks.await_sound
  obtain ⟨callee, hcallee, hahead₆⟩ := Cursor.expectAny?_sound hcallee
  have hall : text = (word ++ (space ++ (target' ++ (blanks₃ ++ (Text.ofString "=" ++
      (blanks₄ ++ skipped)))))) ++ (callee ++ c₅.ahead) := by
    have hstart : text = word ++ c₁.ahead := htext
    rw [hstart, hahead₁, hahead₂, hahead₃, Cursor.expect?_sound hequals, hahead₄, hahead₅, hahead₆]
    simp
  rw [hall]
  exact (hasLiteral_of_argument? hcallee hargument).append _

/-! ## The origin of a declaration -/

/-- If every match of a pattern rests on a literal, then so does every match that is found. -/
theorem hasLiteral_of_mem_places {α : Type} {g : Text → Option (α × Nat)} {kind : DeclarationKind}
    (specifier : α → Text) (hg : ∀ text a size, g text = some (a, size) →
      HasLiteral text kind (specifier a)) {text : Text} {place : Nat × α}
    (h : place ∈ places g text 0 false 0) : HasLiteral text kind (specifier place.2) := by
  obtain ⟨front, back, size, rfl, hmatch⟩ := exists_match_of_mem_places h
  exact (hg back place.2 size hmatch).append front

private theorem hasLiteral_of_mem_calls {word text : Text} (hword : word ∈ callees)
    {d : Declaration} (h : d ∈ calls word text) : HasLiteral text d.kind d.specifier := by
  rw [calls, findAll_eq_places _ (fun _ => []) fun _ _ => rfl] at h
  obtain ⟨place, hplace, rfl⟩ := List.mem_map.mp h
  exact hasLiteral_of_mem_places id (fun _ _ _ hmatch => hasLiteral_of_call hword hmatch) hplace

/-- The specifier of a declaration stands in the text, behind the words of its form. -/
theorem hasLiteral_of_mem_declarations {text : Text} {d : Declaration}
    (h : d ∈ declarations text) : HasLiteral text d.kind d.specifier := by
  rw [declarations, List.mem_mergeSort, List.mem_append, List.mem_append, List.mem_append] at h
  -- one case for each of the four patterns that search the text
  rcases h with ((h | h) | h) | h
  · rw [staticImports_eq] at h
    obtain ⟨place, hplace, rfl⟩ := List.mem_map.mp h
    exact hasLiteral_of_mem_places Prod.snd
      (fun _ _ _ hmatch => hasLiteral_of_import hmatch) hplace
  · exact hasLiteral_of_mem_calls (by decide) h
  · exact hasLiteral_of_mem_calls (by decide) h
  · rw [assignments, findAll_eq_places _ (fun _ => []) fun _ _ => rfl] at h
    obtain ⟨place, hplace, rfl⟩ := List.mem_map.mp h
    exact hasLiteral_of_mem_places Prod.snd
      (fun _ _ _ hmatch => hasLiteral_of_assignment hmatch) hplace

/-! ## The bindings of any text -/

theorem isGrounded_unite {path text package : Text}
    (h : package ∈ (declarations text).filterMap Declaration.package?) :
    IsGrounded path text (unite path (declarations text) package) := by
  obtain ⟨d, hd, hpackage⟩ := List.mem_filterMap.mp h
  have hown : d ∈ (declarations text).filter (·.package? = some package) :=
    List.mem_filter.mpr ⟨hd, by simpa using hpackage⟩
  refine
    { dependency_ne_nil := packageName?_ne_nil hpackage
      path_eq := rfl
      nodup_symbols := nodup_firstOccurrences _
      nil_not_mem_symbols := ?_
      kinds_ne_nil := ?_
      nodup_kinds := nodup_firstOccurrences _
      declaredIn := ?_ }
  · intro hmem
    have hempty := (List.mem_filter.mp (mem_firstOccurrences.mp hmem)).2
    simp at hempty
  · exact List.ne_nil_of_mem (mem_firstOccurrences.mpr (List.mem_map_of_mem hown))
  · -- a form is listed because of a declaration of this package
    intro kind hkind
    obtain ⟨d', hd', rfl⟩ := List.mem_map.mp (mem_firstOccurrences.mp hkind)
    obtain ⟨hd', hpackage'⟩ := List.mem_filter.mp hd'
    exact ⟨d'.specifier, hasLiteral_of_mem_declarations hd', of_decide_eq_true hpackage'⟩

/-- The bindings of a text are of different packages, and each of them rests on declarations that
stand in the text. -/
theorem bindings_rest_on_text (path text : Text) :
    ((bindings path text).map Binding.dependency).Nodup ∧
      ∀ b ∈ bindings path text, IsGrounded path text b := by
  rw [bindings_eq_unite, united]
  constructor
  · rw [List.map_map]
    have hname : Binding.dependency ∘ unite path (declarations text) = id := rfl
    rw [hname, List.map_id]
    exact nodup_firstOccurrences _
  · intro b hb
    obtain ⟨package, hpackage, rfl⟩ := List.mem_map.mp hb
    exact isGrounded_unite (mem_firstOccurrences.mp hpackage)

end DependencyAudit.Import

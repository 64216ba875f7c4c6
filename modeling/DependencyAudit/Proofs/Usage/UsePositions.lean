import DependencyAudit.Collector
import DependencyAudit.Usage.Signal
import Mathlib.Data.List.Forall2
import Mathlib.Logic.Relation

/-!
# Uses are confirmed where they occur

A walk over the syntax tree of a file collects the identifiers in use, and the verdicts on the
bindings of the file are read off what was collected. Both can be said without the walk. An
identifier is in use if some node, reached from the root through named children, uses it, and a
node uses an identifier by its category and by one of its children. A verdict then depends on
which names are in use and on whether there is markup, and on nothing else in the tree.

## Main definitions

* `SyntaxTree.Visits`: a node is reached through named children;
* `SyntaxTree.Uses`: the forms in which a single node uses an identifier;
* `SyntaxTree.UsedName` and `SyntaxTree.HasMarkup`: what occurs in a tree;
* `UsageSettings.IsVerdict`: the verdict on a binding, from what occurs in the tree.

## Main results

* `SyntaxTree.usedName?_eq_some_iff`: the identifier that a single node uses;
* `SyntaxTree.collect_iff`: what a walk collects, from what a single node contributes;
* `UsageSettings.signals_confirm_use_positions`: the verdicts on the bindings of a file.
-/

namespace DependencyAudit

namespace SyntaxTree

/-! ## Use positions -/

/-- The tree `t` is reached from `root` through named children. -/
def Visits (root t : SyntaxTree) : Prop :=
  Relation.ReflTransGen (fun parent child => child ∈ parent.namedChildren) root t

/-- A visit of a tree goes to the tree itself, or on to what one of its named children visits. -/
theorem visits_iff {root t : SyntaxTree} :
    root.Visits t ↔ root = t ∨ ∃ child ∈ root.namedChildren, child.Visits t :=
  Relation.ReflTransGen.cases_head_iff

/-- The tree is the identifier `x`. -/
def IsIdentifier (source : Text) (t : SyntaxTree) (x : Text) : Prop :=
  t.isA "identifier" = true ∧ t.content source = x

/-- The leftmost part of a name. Of a dotted name it is that of the first named child. -/
inductive LeadsTo : SyntaxTree → SyntaxTree → Prop
  | child {t first part : SyntaxTree} (nested : t.isA "nested_identifier" = true)
      (head : t.namedChildren.head? = some first) (leads : LeadsTo first part) : LeadsTo t part
  | plain {t : SyntaxTree} (nested : t.isA "nested_identifier" = false) : LeadsTo t t
  | leaf {t : SyntaxTree} (head : t.namedChildren.head? = none) : LeadsTo t t

/-- The node opens an element and names it. -/
def IsTag (t : SyntaxTree) : Prop :=
  t.isA "jsx_self_closing_element" = true ∨ t.isA "jsx_opening_element" = true

/-- The topmost node of `t` uses the identifier `x`. -/
inductive Uses (source : Text) (t : SyntaxTree) (x : Text) : Prop
  /-- `x.member` -/
  | member (object : SyntaxTree) (category : t.isA "member_expression" = true)
      (role : t.childInRole? "object" = some object) (name : object.IsIdentifier source x)
  /-- `x.member`, where no child has the role of the object -/
  | bareMember (object : SyntaxTree) (category : t.isA "member_expression" = true)
      (role : t.childInRole? "object" = none) (head : t.namedChildren.head? = some object)
      (name : object.IsIdentifier source x)
  /-- `x(…)`, which declares if `x` is `require` -/
  | call (callee : SyntaxTree) (category : t.isA "call_expression" = true)
      (role : t.childInRole? "function" = some callee) (name : callee.IsIdentifier source x)
      (notRequire : x ≠ Text.ofString "require")
  /-- `new x(…)` -/
  | construct (constructed : SyntaxTree) (category : t.isA "new_expression" = true)
      (role : t.childInRole? "constructor" = some constructed)
      (name : constructed.IsIdentifier source x)
  /-- `<X>` or `<X/>`, which is a plain element unless `X` is capitalised -/
  | component (element : SyntaxTree) (category : t.IsTag)
      (role : t.childInRole? "name" = some element) (name : element.IsIdentifier source x)
      (capital : ∃ b ∈ x.head?, Text.isUpper b = true)
  /-- `<x.y>` or `<x.y/>` -/
  | dotted (element first part : SyntaxTree) (category : t.IsTag)
      (role : t.childInRole? "name" = some element)
      (nested : element.isA "nested_identifier" = true)
      (head : element.namedChildren.head? = some first) (leads : first.LeadsTo part)
      (name : part.IsIdentifier source x)

/-- The identifier `x` is in use somewhere in the tree. -/
def UsedName (source : Text) (root : SyntaxTree) (x : Text) : Prop :=
  x ≠ [] ∧ ∃ t, root.Visits t ∧ t.Uses source x

/-- Some element or fragment occurs in the tree. -/
def HasMarkup (root : SyntaxTree) : Prop :=
  ∃ t, root.Visits t ∧ (t.isA "jsx_element" = true ∨ t.isA "jsx_fragment" = true ∨
    t.isA "jsx_self_closing_element" = true)

/-! ## The identifier that a node uses -/

section Node

variable {source x : Text} {t d : SyntaxTree}

/-- A node has one category. -/
theorem isA_eq_false {a b : Text} (h : t.isA a = true) (hne : a ≠ b) : t.isA b = false := by
  have hcategory : t.top.category = a := of_decide_eq_true h
  exact decide_eq_false fun heq => hne (hcategory.symm.trans heq)

/-- The identifier that is read is the one that there is. -/
theorem identifier?_eq_some_iff : t.identifier? source = some x ↔ t.IsIdentifier source x := by
  unfold identifier? IsIdentifier
  split
  · rename_i h
    simp [h]
  · rename_i h
    simp [h]

/-- The object of a member expression is the child in this role, or else the first named child. -/
theorem memberObject?_eq_some_iff :
    t.memberObject? = some d ↔ t.childInRole? "object" = some d ∨
      t.childInRole? "object" = none ∧ t.namedChildren.head? = some d := by
  unfold memberObject?
  cases t.childInRole? "object" with
  | none => simp
  | some object => simp

/-- Of a list of children, the leftmost is that of the first one that is named. -/
private theorem leftmostOr_eq (whole : SyntaxTree) (ts : List SyntaxTree) :
    leftmost.leftmostOr whole ts =
      ((ts.filter (·.top.named)).head?.map leftmost).getD whole := by
  induction ts with
  | nil => rw [leftmost.leftmostOr, List.filter_nil, List.head?_nil, Option.map_none,
      Option.getD_none]
  | cons c ts ih =>
    rw [leftmost.leftmostOr]
    by_cases hnamed : c.top.named = true
    · simp [hnamed]
    · simp [hnamed, ih]

/-- The leftmost of a nested identifier is that of its first named child. -/
theorem leftmost_of_nested (h : t.isA "nested_identifier" = true) :
    t.leftmost = (t.namedChildren.head?.map leftmost).getD t := by
  obtain ⟨top, children⟩ := t
  have hcategory : top.category = Text.ofString "nested_identifier" := of_decide_eq_true h
  rw [leftmost, if_pos hcategory, leftmostOr_eq]
  rfl

/-- What is no nested identifier is its own leftmost. -/
theorem leftmost_of_plain (h : t.isA "nested_identifier" = false) : t.leftmost = t := by
  obtain ⟨top, children⟩ := t
  have hcategory : top.category ≠ Text.ofString "nested_identifier" := of_decide_eq_false h
  rw [leftmost, if_neg hcategory]

/-- A tree leads to its leftmost. -/
theorem leadsTo_leftmost (t : SyntaxTree) : t.LeadsTo t.leftmost := by
  by_cases hnested : t.isA "nested_identifier" = true
  · rw [leftmost_of_nested hnested]
    cases hhead : t.namedChildren.head? with
    | none => exact .leaf hhead
    | some first => exact .child hnested hhead (leadsTo_leftmost first)
  · rw [Bool.not_eq_true] at hnested
    rw [leftmost_of_plain hnested]
    exact .plain hnested
termination_by sizeOf t
decreasing_by
  -- the first named child is one of the children
  obtain ⟨top, children⟩ := t
  have hmem : first ∈ children := (List.mem_filter.mp (List.mem_of_head? hhead)).1
  have hsize := List.sizeOf_lt_of_mem hmem
  simp only [node.sizeOf_spec]
  omega

/-- A name has one leftmost part. -/
theorem leadsTo_iff : t.LeadsTo d ↔ t.leftmost = d := by
  refine ⟨fun h => ?_, fun h => h ▸ leadsTo_leftmost t⟩
  induction h with
  | child nested head _ ih => rw [leftmost_of_nested nested, head, ← ih]; rfl
  | plain nested => exact leftmost_of_plain nested
  | @leaf t head =>
    by_cases hnested : t.isA "nested_identifier" = true
    · rw [leftmost_of_nested hnested, head]
      rfl
    · rw [Bool.not_eq_true] at hnested
      exact leftmost_of_plain hnested

/-- The component that an element name refers to: a capitalised identifier, or the leftmost part
of a dotted name. -/
theorem elementComponent?_eq_some_iff :
    t.elementComponent? source = some x ↔
      (t.IsIdentifier source x ∧ ∃ b ∈ x.head?, Text.isUpper b = true) ∨
      (t.isA "nested_identifier" = true ∧ ∃ first part, t.namedChildren.head? = some first ∧
        first.LeadsTo part ∧ part.IsIdentifier source x) := by
  unfold elementComponent?
  by_cases hplain : t.isA "identifier" = true
  · have hnested := isA_eq_false (b := "nested_identifier") hplain (by decide)
    rw [if_pos hplain]
    simp only [IsIdentifier, hplain, hnested, true_and, Bool.false_eq_true, false_and, or_false]
    cases hcontent : t.content source with
    | nil =>
      simp only [reduceCtorEq, false_iff, not_and, not_exists]
      rintro rfl b hb
      cases hb
    | cons b rest =>
      by_cases hupper : Text.isUpper b = true
      · simp only [hupper, if_true, Option.some.injEq]
        constructor
        · rintro rfl
          exact ⟨rfl, b, rfl, hupper⟩
        · exact fun h => h.1
      · simp only [hupper, if_false, reduceCtorEq, false_iff, not_and, not_exists]
        rintro rfl c hc
        exact Option.some.inj hc ▸ hupper
  · rw [if_neg hplain]
    simp only [IsIdentifier, hplain, Bool.false_eq_true, false_and, false_or]
    by_cases hnested : t.isA "nested_identifier" = true
    · rw [if_pos hnested]
      simp only [hnested, true_and, leadsTo_iff]
      rw [leftmost_of_nested hnested]
      cases hhead : t.namedChildren.head? with
      | none =>
        have hnil : t.namedChildren = [] := List.head?_eq_none_iff.mp hhead
        simp [hnil]
      -- with a child the leftmost part is one that the first child leads to
      | some first =>
        have hne : t.namedChildren.isEmpty = false := by
          cases hchildren : t.namedChildren with
          | nil => simp [hchildren] at hhead
          | cons c more => rfl
        rw [hne]
        simp [identifier?_eq_some_iff, IsIdentifier]
    · simp [hnested]

/-- The name that a node is found to use is the one that it uses. -/
theorem usedName?_eq_some_iff : t.usedName? source = some x ↔ t.Uses source x := by
  constructor
  · intro h
    unfold usedName? at h
    split at h
    · rename_i hcategory
      obtain ⟨object, hobject, hname⟩ := Option.bind_eq_some_iff.mp h
      rw [identifier?_eq_some_iff] at hname
      rcases memberObject?_eq_some_iff.mp hobject with hrole | ⟨hrole, hhead⟩
      · exact .member object hcategory hrole hname
      · exact .bareMember object hcategory hrole hhead hname
    split at h
    · rename_i hcategory
      split at h
      · rename_i name hcall
        obtain ⟨callee, hrole, hname⟩ := Option.bind_eq_some_iff.mp hcall
        split at h
        · cases h
        · rename_i hrequire
          obtain rfl := Option.some.inj h
          exact .call callee hcategory hrole (identifier?_eq_some_iff.mp hname) hrequire
      · cases h
    split at h
    · rename_i hcategory
      obtain ⟨constructed, hrole, hname⟩ := Option.bind_eq_some_iff.mp h
      exact .construct constructed hcategory hrole (identifier?_eq_some_iff.mp hname)
    split at h
    · rename_i hcategory
      rw [Bool.or_eq_true] at hcategory
      obtain ⟨element, hrole, hname⟩ := Option.bind_eq_some_iff.mp h
      rcases elementComponent?_eq_some_iff.mp hname with
        ⟨hidentifier, hcapital⟩ | ⟨hnested, first, part, hhead, hleads, hidentifier⟩
      · exact .component element hcategory hrole hidentifier hcapital
      · exact .dotted element first part hcategory hrole hnested hhead hleads hidentifier
    · cases h
  · -- the category decides which branch is taken, and it is one of four
    have helement : t.IsTag → t.usedName? source =
        (t.childInRole? "name").bind (elementComponent? source) := by
      intro htag
      have hother : ∀ b : Text, b ≠ "jsx_self_closing_element" → b ≠ "jsx_opening_element" →
          t.isA b = false := by
        intro b hself hopening
        rcases htag with h | h
        · exact isA_eq_false h (Ne.symm hself)
        · exact isA_eq_false h (Ne.symm hopening)
      have htag' : (t.isA "jsx_self_closing_element" || t.isA "jsx_opening_element") = true := by
        rwa [Bool.or_eq_true]
      rw [usedName?, hother "member_expression" (by decide) (by decide),
        hother "call_expression" (by decide) (by decide),
        hother "new_expression" (by decide) (by decide), htag']
      rfl
    intro h
    cases h with
    | member object category role name =>
      rw [usedName?, if_pos category, memberObject?_eq_some_iff.mpr (.inl role)]
      exact identifier?_eq_some_iff.mpr name
    | bareMember object category role head name =>
      rw [usedName?, if_pos category, memberObject?_eq_some_iff.mpr (.inr ⟨role, head⟩)]
      exact identifier?_eq_some_iff.mpr name
    | call callee category role name notRequire =>
      rw [usedName?, isA_eq_false category (by decide), if_neg Bool.false_ne_true,
        if_pos category, role, Option.bind_some, identifier?_eq_some_iff.mpr name]
      exact if_neg notRequire
    | construct constructed category role name =>
      rw [usedName?, isA_eq_false category (by decide), isA_eq_false category (by decide),
        if_neg Bool.false_ne_true, if_neg Bool.false_ne_true, if_pos category, role]
      exact identifier?_eq_some_iff.mpr name
    | component element category role name capital =>
      rw [helement category, role]
      exact elementComponent?_eq_some_iff.mpr (.inl ⟨name, capital⟩)
    | dotted element first part category role nested head leads name =>
      rw [helement category, role]
      exact elementComponent?_eq_some_iff.mpr (.inr ⟨nested, first, part, head, leads, name⟩)

end Node

end SyntaxTree

/-! ## What a walk collects -/

/-- A name is added unless it is empty. -/
theorem References.mem_names_add {refs : References} {name x : Text} :
    x ∈ (refs.add name).names ↔ x ∈ refs.names ∨ x ≠ [] ∧ x = name := by
  unfold add
  by_cases hempty : name.isEmpty = true
  · rw [if_pos hempty]
    rw [List.isEmpty_iff] at hempty
    subst hempty
    exact ⟨.inl, fun h => h.resolve_right fun h' => h'.1 h'.2⟩
  · rw [if_neg hempty, mem_insertNew]
    rw [List.isEmpty_iff] at hempty
    refine or_congr_right ⟨fun h => ⟨fun hnil => hempty (h ▸ hnil), h⟩, fun h => h.2⟩

/-- Names say nothing about markup. -/
theorem References.markup_add (refs : References) (name : Text) :
    (refs.add name).markup = refs.markup := by
  unfold add
  split <;> rfl

namespace SyntaxTree

variable {source x : Text}

/-- A single node contributes the identifier that it uses. -/
theorem mem_names_reference (t : SyntaxTree) (refs : References) :
    x ∈ (t.reference source refs).names ↔ x ∈ refs.names ∨ x ≠ [] ∧ t.Uses source x := by
  have hmarkup : (if t.isMarkup then refs.withMarkup else refs).names = refs.names := by
    split <;> rfl
  unfold reference
  rw [← usedName?_eq_some_iff]
  cases t.usedName? source with
  | none => simp [hmarkup]
  | some name =>
    rw [References.mem_names_add, hmarkup, Option.some.injEq, @eq_comm _ name x]

/-- A single node contributes that there is markup if it is an element or a fragment. -/
theorem markup_reference (t : SyntaxTree) (refs : References) :
    (t.reference source refs).markup = true ↔ refs.markup = true ∨
      (t.isA "jsx_element" = true ∨ t.isA "jsx_fragment" = true ∨
        t.isA "jsx_self_closing_element" = true) := by
  have hmarkup : (if t.isMarkup then refs.withMarkup else refs).markup =
      (refs.markup || t.isMarkup) := by
    split
    · rename_i h
      rw [h, Bool.or_true]
      rfl
    · rename_i h
      rw [Bool.not_eq_true] at h
      rw [h, Bool.or_false]
  have hreference : (t.reference source refs).markup = (refs.markup || t.isMarkup) := by
    unfold reference
    cases t.usedName? source with
    | none => exact hmarkup
    | some name => exact (References.markup_add _ name).trans hmarkup
  rw [hreference, Bool.or_eq_true, isMarkup, Bool.or_eq_true, Bool.or_eq_true, or_assoc]

section Walk

variable {P : References → Prop} {Q : SyntaxTree → Prop}

mutual

/-- Whatever a single node contributes on account of `Q`, a walk has collected exactly if `Q`
holds of some node that it visits. -/
theorem collect_iff (hstep : ∀ t refs, P (t.reference source refs) ↔ P refs ∨ Q t)
    (root : SyntaxTree) (refs : References) :
    P (root.collect source refs) ↔ P refs ∨ ∃ t, root.Visits t ∧ Q t := by
  match root with
  | node top children =>
    rw [collect, collectList_iff hstep, hstep, or_assoc]
    refine or_congr_right ⟨?_, ?_⟩
    · rintro (h | ⟨child, hchild, t, ht, h⟩)
      · exact ⟨_, visits_iff.mpr (.inl rfl), h⟩
      · exact ⟨t, visits_iff.mpr (.inr ⟨child, hchild, ht⟩), h⟩
    · rintro ⟨t, ht, h⟩
      rcases visits_iff.mp ht with rfl | ⟨child, hchild, ht⟩
      · exact .inl h
      · exact .inr ⟨child, hchild, t, ht, h⟩

/-- A property that each node adds to is one of some node that is visited. -/
theorem collectList_iff (hstep : ∀ t refs, P (t.reference source refs) ↔ P refs ∨ Q t)
    (ts : List SyntaxTree) (refs : References) :
    P (collectList source ts refs) ↔
      P refs ∨ ∃ child ∈ ts.filter (·.top.named), ∃ t, child.Visits t ∧ Q t := by
  match ts with
  | [] => simp [collectList]
  | child :: ts =>
    rw [collectList, collectList_iff hstep]
    by_cases hnamed : child.top.named = true
    · rw [if_pos hnamed, collect_iff hstep, or_assoc, List.filter_cons, if_pos hnamed]
      simp
    · rw [if_neg hnamed, List.filter_cons, if_neg hnamed]

end

end Walk

/-- A walk collects the identifiers in use. -/
theorem mem_names_ofTree {root : SyntaxTree} :
    x ∈ (References.ofTree source root).names ↔ root.UsedName source x := by
  have hwalk : x ∈ (root.collect source References.empty).names ↔ _ :=
    collect_iff (P := fun refs => x ∈ refs.names) mem_names_reference root References.empty
  rw [References.ofTree, hwalk]
  simp [References.empty, UsedName, and_left_comm]

/-- Markup is noticed wherever the tree has some. -/
theorem markup_ofTree {root : SyntaxTree} :
    (References.ofTree source root).markup = true ↔ root.HasMarkup := by
  have hwalk : (root.collect source References.empty).markup = true ↔ _ :=
    collect_iff (P := fun refs => refs.markup = true) markup_reference root References.empty
  rw [References.ofTree, hwalk]
  simp [References.empty, HasMarkup]

end SyntaxTree

/-! ## Verdicts -/

/-- The name is not empty, consists of ASCII letters, digits, underscores and dollar signs, and
does not begin with a digit. -/
def IsIdentifierText (name : Text) : Prop :=
  ∃ first more, name = first :: more ∧ startsIdentifier first = true ∧
    ∀ b ∈ more, startsIdentifier b = true ∨ Text.isDigit b = true

/-- The check of identifiers accepts the identifiers. -/
theorem isIdentifierName_iff {name : Text} :
    isIdentifierName name = true ↔ IsIdentifierText name := by
  cases name with
  | nil => simp [isIdentifierName, IsIdentifierText]
  | cons first more => simp [isIdentifierName, IsIdentifierText]

namespace UsageSettings

variable (s : UsageSettings) (source : Text) (root : SyntaxTree) (kind : FileKind) (b : Binding)

/-- A name of the binding is in use. -/
def BoundNameUsed : Prop :=
  ∃ x ∈ b.symbols, root.UsedName source x

/-- A name in use starts with the name of the package, and that counts. -/
def StartOfNameUsed : Prop :=
  s.prefixMatch = true ∧ IsIdentifierText b.dependency ∧
    ∃ x, root.UsedName source x ∧ b.dependency <+: x

/-- The file holds markup, which calls the package. -/
def CalledByMarkup : Prop :=
  kind = .markup ∧ root.HasMarkup ∧
    (s.markupRuntimeSymbol ≠ [] ∧ s.markupRuntimeSymbol ∈ b.symbols ∨
      s.markupRuntimePackage ≠ [] ∧ b.dependency = s.markupRuntimePackage)

/-- The verdict on a binding. What shows a use is a bound name before the start of a name, and
that before markup. -/
structure IsVerdict (g : Signal) : Prop where
  /-- The verdict is on the package of the binding. -/
  dependency : g.dependency = b.dependency
  /-- The verdict is on the file of the binding. -/
  path : g.path = b.path
  /-- A use is confirmed by evidence of any kind. -/
  confirmed : g.confirmed = true ↔ g.evidence ≠ .absent
  /-- A bound name shows the use first of all. -/
  symbol : g.evidence = .symbol ↔ BoundNameUsed source root b
  /-- The start of a name shows it if no bound name does. -/
  nameStart : g.evidence = .nameStart ↔
    ¬ BoundNameUsed source root b ∧ s.StartOfNameUsed source root b
  /-- Markup shows it if no name does. -/
  markup : g.evidence = .markup ↔ ¬ BoundNameUsed source root b ∧
    ¬ s.StartOfNameUsed source root b ∧ s.CalledByMarkup root kind b

variable {source root b}

/-- A bound name in use is the strongest evidence. -/
theorem evidence_of_bound (h : BoundNameUsed source root b) :
    s.evidence (References.ofTree source root) (kind = .markup) b = .symbol := by
  obtain ⟨x, hx, hused⟩ := h
  have hany : b.symbols.any (References.ofTree source root).names.contains = true := by
    refine List.any_eq_true.mpr ⟨x, hx, ?_⟩
    exact List.contains_iff_mem.mpr (SyntaxTree.mem_names_ofTree.mpr hused)
  rw [evidence, if_pos hany]

/-- Without a bound name in use, the weaker kinds of evidence are looked at in turn. -/
theorem evidence_of_not_bound (h : ¬ BoundNameUsed source root b) :
    (s.StartOfNameUsed source root b →
      s.evidence (References.ofTree source root) (kind = .markup) b = .nameStart) ∧
    (¬ s.StartOfNameUsed source root b → s.CalledByMarkup root kind b →
      s.evidence (References.ofTree source root) (kind = .markup) b = .markup) ∧
    (¬ s.StartOfNameUsed source root b → ¬ s.CalledByMarkup root kind b →
      s.evidence (References.ofTree source root) (kind = .markup) b = .absent) := by
  have hany : ¬ b.symbols.any (References.ofTree source root).names.contains = true := by
    simpa [BoundNameUsed, SyntaxTree.mem_names_ofTree] using h
  have hstart : (s.prefixMatch && isIdentifierName b.dependency &&
      (References.ofTree source root).names.any (·.startsWith b.dependency)) = true ↔
        s.StartOfNameUsed source root b := by
    simp [StartOfNameUsed, isIdentifierName_iff, SyntaxTree.mem_names_ofTree, Text.startsWith,
      and_assoc]
  have hmarkup : (decide (kind = .markup) && (References.ofTree source root).markup &&
      s.isMarkupRuntime b) = true ↔ s.CalledByMarkup root kind b := by
    simp [CalledByMarkup, SyntaxTree.markup_ofTree, isMarkupRuntime, Binding.hasSymbol, and_assoc]
  rw [evidence, if_neg hany, ← hstart, ← hmarkup]
  refine ⟨fun h₁ => if_pos h₁, fun h₁ h₂ => ?_, fun h₁ h₂ => ?_⟩
  · rw [if_neg h₁, if_pos h₂]
  · rw [if_neg h₁, if_neg h₂]

/-- Every binding of a file gets one verdict, in the order of the bindings: a use is confirmed
exactly if a bound name is in use, or a name in use starts with the name of the package, or markup
calls the package. -/
theorem signals_confirm_use_positions (s : UsageSettings) (source : Text) (root : SyntaxTree)
    (kind : FileKind) (bindings : List Binding) :
    List.Forall₂ (s.IsVerdict source root kind) bindings
      (s.signals (References.ofTree source root) (kind = .markup) bindings) := by
  rw [signals, List.forall₂_map_right_iff, List.forall₂_same]
  intro b _
  -- the four kinds of evidence exclude each other, the stronger ones the weaker ones
  by_cases hbound : BoundNameUsed source root b
  · constructor <;> simp [s.evidence_of_bound kind hbound, hbound]
  obtain ⟨hstart, hmarkup, habsent⟩ := s.evidence_of_not_bound kind hbound
  by_cases hname : s.StartOfNameUsed source root b
  · constructor <;> simp [hstart hname, hbound, hname]
  by_cases hcalled : s.CalledByMarkup root kind b
  · constructor <;> simp [hmarkup hname hcalled, hbound, hname, hcalled]
  · constructor <;> simp [habsent hname hcalled, hbound, hname, hcalled]

end UsageSettings

end DependencyAudit

import DependencyAudit.Text.Basic

/-!
# Bindings

A binding ties one package to the local names under which a file refers to it.
-/

namespace DependencyAudit

/-- The form in which a package was declared in a source file. -/
inductive DeclarationKind
  /-- An `import … from` statement. -/
  | staticImport
  /-- A `require` or `import` call. -/
  | dynamicRequire
  deriving DecidableEq, Repr

namespace DeclarationKind

/-- The word that stands for the form in reports. -/
def word : DeclarationKind → Text
  | staticImport => "import"
  | dynamicRequire => "require"

end DeclarationKind

/-- Adds an element at the end of a list unless it is there already. -/
def insertNew {α : Type} [DecidableEq α] (xs : List α) (x : α) : List α :=
  if x ∈ xs then xs else xs ++ [x]

@[simp]
theorem mem_insertNew {α : Type} [DecidableEq α] {xs : List α} {x y : α} :
    y ∈ insertNew xs x ↔ y ∈ xs ∨ y = x := by
  unfold insertNew
  split
  · rename_i h
    constructor
    · exact Or.inl
    · rintro (h' | rfl)
      · exact h'
      · exact h
  · simp

theorem nodup_insertNew {α : Type} [DecidableEq α] {xs : List α} {x : α} (h : xs.Nodup) :
    (insertNew xs x).Nodup := by
  unfold insertNew
  split
  · exact h
  · rename_i hx
    rw [List.nodup_append]
    refine ⟨h, by simp, ?_⟩
    intro a ha b hb
    simp only [List.mem_singleton] at hb
    subst hb
    intro hab
    exact hx (hab ▸ ha)

/-- One package as it is declared in one file. Repeated declarations are united. -/
structure Binding where
  /-- The package name. -/
  dependency : Text
  /-- The local names bound to the package, in the order of first sight. -/
  symbols : List Text
  /-- The file, relative to the project root. -/
  path : Text
  /-- The forms of declaration, in the order of first sight. -/
  kinds : List DeclarationKind
  deriving DecidableEq, Repr

namespace Binding

/-- Is the name one of the local names? -/
def hasSymbol (b : Binding) (name : Text) : Bool :=
  b.symbols.contains name

/-- Was the package declared in a form that goes by the given word? -/
def hasKindWord (b : Binding) (word : Text) : Bool :=
  b.kinds.any (·.word == word)

/-- Records a local name. The empty name is not one. -/
def addSymbol (b : Binding) (name : Text) : Binding :=
  if name.isEmpty then b else { b with symbols := insertNew b.symbols name }

/-- Records a form of declaration. -/
def addKind (b : Binding) (kind : DeclarationKind) : Binding :=
  { b with kinds := insertNew b.kinds kind }

end Binding

end DependencyAudit

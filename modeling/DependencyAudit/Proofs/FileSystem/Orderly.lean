import DependencyAudit.Proofs.FileSystem.Content
import DependencyAudit.Proofs.Path

/-!
# Orderly trees

What a file system keeps to: a directory lists its entries in byte order, each name once, and a
name is neither empty nor one of the two directories that every directory knows of, holds no
separator and no zero byte, and is not too long. In such a tree the entries of a directory are
found under their names, and every location consists of such names.

## Main definitions

* `Text.Before`: byte-wise lexicographic order;
* `Path.IsEntryName`: the names that a directory can list;
* `FileNode.IsOrderly` and `FileSystem.IsOrderly`: trees and file systems of that kind.

## Main results

* `FileNode.IsOrderly.of_at?`: what is found in an orderly tree;
* `FileNode.child?_eq_some_iff`: the entries of an orderly directory.
-/

namespace DependencyAudit

/-- The first text comes before the second in byte-wise lexicographic order. -/
abbrev Text.Before (a b : Text) : Prop :=
  List.Lex (· < ·) a b

theorem Text.Before.irrefl (a : Text) : ¬ a.Before a :=
  List.lex_irrefl UInt8.lt_irrefl a

/-- The names that a directory can list. -/
structure Path.IsEntryName (name : Text) : Prop extends Path.IsPlain name where
  /-- The system takes no zero bytes in names. -/
  no_zero : 0 ∉ name
  /-- The name is not too long for an entry. -/
  short : name.length ≤ FileSystem.maxNameLength

instance (name : Text) : Decidable (Path.IsEntryName name) :=
  decidable_of_iff (name.isEmpty = false ∧ name ≠ Text.ofString "." ∧ name ≠ Text.ofString ".." ∧
      Path.slash ∉ name ∧ 0 ∉ name ∧ name.length ≤ FileSystem.maxNameLength)
    ⟨fun ⟨nonempty, ne_dot, ne_dotdot, no_slash, no_zero, short⟩ =>
      { nonempty, ne_dot, ne_dotdot, no_slash, no_zero, short },
     fun h => ⟨h.nonempty, h.ne_dot, h.ne_dotdot, h.no_slash, h.no_zero, h.short⟩⟩

namespace FileNode

/-- Every directory of the tree lists its entries in byte order, under names that an entry can
have. -/
inductive IsOrderly : FileNode → Prop
  | file (content : Text) : IsOrderly (.file content)
  | link (target : Text) : IsOrderly (.link target)
  | directory {entries : List (Text × FileNode)}
      (names : ∀ e ∈ entries, Path.IsEntryName e.1)
      (order : entries.Pairwise fun a b => a.1.Before b.1)
      (below : ∀ e ∈ entries, IsOrderly e.2) : IsOrderly (.directory entries)

theorem isOrderly_directory_iff {entries : List (Text × FileNode)} :
    (directory entries).IsOrderly ↔ (∀ e ∈ entries, Path.IsEntryName e.1) ∧
      entries.Pairwise (fun a b => a.1.Before b.1) ∧ ∀ e ∈ entries, e.2.IsOrderly :=
  ⟨fun | .directory names order below => ⟨names, order, below⟩,
   fun ⟨names, order, below⟩ => .directory names order below⟩

mutual

/-- Decides whether a tree is orderly. -/
def decideOrderly : (n : FileNode) → Decidable n.IsOrderly
  | file content => isTrue (.file content)
  | link target => isTrue (.link target)
  | directory entries =>
    have := decideOrderlyBelow entries
    decidable_of_iff' _ isOrderly_directory_iff

/-- Decides whether the trees below the entries of a directory are orderly. -/
def decideOrderlyBelow :
    (entries : List (Text × FileNode)) → Decidable (∀ e ∈ entries, e.2.IsOrderly)
  | [] => isTrue (by simp)
  | (_, n) :: more =>
    have := decideOrderly n
    have := decideOrderlyBelow more
    decidable_of_iff' _ List.forall_mem_cons

end

instance : DecidablePred IsOrderly := decideOrderly

variable {n m : FileNode} {names : List Text}

theorem mem_entries_of_child? {name : Text} (h : n.child? name = some m) :
    (name, m) ∈ n.entries := by
  obtain ⟨front, back, hentries, -⟩ := List.lookup_eq_some_iff.mp h
  rw [hentries]
  exact List.mem_append_right _ List.mem_cons_self

theorem IsOrderly.of_child? (h : n.IsOrderly) {name : Text} (hchild : n.child? name = some m) :
    Path.IsEntryName name ∧ m.IsOrderly := by
  have hmem := mem_entries_of_child? hchild
  cases h with
  | file | link => exact absurd hmem (by simp [entries])
  | directory hnames _ hbelow => exact ⟨hnames _ hmem, hbelow _ hmem⟩

/-- What is found in an orderly tree is orderly, and lies at a location of proper names. -/
theorem IsOrderly.of_at? (h : n.IsOrderly) (hat : n.at? names = some m) :
    (∀ name ∈ names, Path.IsEntryName name) ∧ m.IsOrderly := by
  induction names generalizing n with
  | nil =>
    obtain rfl : n = m := Option.some.inj hat
    exact ⟨by simp, h⟩
  | cons name more ih =>
    obtain ⟨entries, child, rfl, hchild, hmore⟩ := at?_cons_eq_some hat
    obtain ⟨hname, horderly⟩ := h.of_child? hchild
    obtain ⟨hnames, hm⟩ := ih horderly hmore
    exact ⟨List.forall_mem_cons.mpr ⟨hname, hnames⟩, hm⟩

/-- An entry of an orderly directory is found under its name. -/
theorem child?_eq_some_iff {entries : List (Text × FileNode)}
    (h : entries.Pairwise fun a b => a.1.Before b.1) {name : Text} :
    (directory entries).child? name = some m ↔ (name, m) ∈ entries := by
  refine ⟨mem_entries_of_child?, fun hmem => ?_⟩
  obtain ⟨front, back, rfl⟩ := List.append_of_mem hmem
  refine List.lookup_eq_some_iff.mpr ⟨front, back, rfl, fun e he => ?_⟩
  -- an entry in front of it has a smaller name
  have hbefore := (List.pairwise_append.mp h).2.2 e he (name, m) List.mem_cons_self
  rw [bne_iff_ne]
  rintro rfl
  exact Text.Before.irrefl _ hbefore

end FileNode

/-- A file system with an orderly tree, in which the current directory has an absolute path. -/
structure FileSystem.IsOrderly (fs : FileSystem) : Prop where
  /-- Every directory lists plain names in order. -/
  root : fs.root.IsOrderly
  /-- The current directory is known by an absolute path. -/
  current : Path.isAbsolute fs.current = true

end DependencyAudit

import DependencyAudit.Syntax.Parsed
import Mathlib.Data.List.Induction

/-!
# Syntax errors are reported where they begin

A text whose tree has an error is refused, and the refusal names a place. The node that is named
is found by a search that skips every subtree without the error flag. The search finds the first
faulty node in pre-order as long as the flags are what they claim to be: a node is flagged if
and only if it is itself at fault or one of its children is flagged.

## Main definitions

* `SyntaxTree.IsConsistent`: the error flags of a tree say what is below them;
* `SyntaxTree.IsFirstFault`: the first faulty node of a tree in pre-order;
* `Position.Marks`: the row and the column of an offset, by the lines in front of it.

## Main results

* `SyntaxTree.IsConsistent.firstFault?_eq`: what the search finds, subtree by subtree;
* `Position.marks_iff`: the position that is computed is the one that is meant;
* `TreeSource.parse_reports_first_fault`: when a text is refused, and with which message.
-/

namespace DependencyAudit

/-- The node is erroneous, or it has been supplied. -/
def SyntaxNode.isFaulty (n : SyntaxNode) : Bool :=
  n.category = "ERROR" || n.missing

namespace SyntaxTree

/-! ## Error flags -/

/-- The error flags are right: a node has the flag if and only if it is at fault or one of its
children, named or not, has the flag. -/
inductive IsConsistent : SyntaxTree → Prop
  | node {top : SyntaxNode} {children : List SyntaxTree}
      (flag : top.hasError = true ↔
        top.isFaulty = true ∨ ∃ child ∈ children, child.top.hasError = true)
      (below : ∀ child ∈ children, IsConsistent child) : IsConsistent (node top children)

/-- The node `bad` is at fault, and no node in front of it is. -/
def IsFirstFault (t : SyntaxTree) (bad : SyntaxNode) : Prop :=
  bad.isFaulty = true ∧
    ∃ earlier later, t.preorder = earlier ++ bad :: later ∧ ∀ n ∈ earlier, n.isFaulty = false

theorem preorderList_eq (ts : List SyntaxTree) : preorderList ts = ts.flatMap preorder := by
  induction ts with
  | nil => rw [preorderList, List.flatMap_nil]
  | cons t more ih => rw [preorderList, ih, List.flatMap_cons]

theorem preorder_node (top : SyntaxNode) (children : List SyntaxTree) :
    (node top children).preorder = top :: children.flatMap preorder := by
  rw [preorder, preorderList_eq]

/-- The search through a row of trees, from the search through each of them. -/
theorem firstFaultList?_eq {ts : List SyntaxTree}
    (h : ∀ t ∈ ts, t.firstFault? = t.preorder.find? SyntaxNode.isFaulty) :
    firstFaultList? ts = (ts.flatMap preorder).find? SyntaxNode.isFaulty := by
  induction ts with
  | nil => rw [firstFaultList?, List.flatMap_nil, List.find?_nil]
  | cons t more ih =>
    have hmore := ih fun t' ht' => h t' (List.mem_cons_of_mem t ht')
    rw [firstFaultList?, h t List.mem_cons_self, hmore, List.flatMap_cons, List.find?_append]
    cases t.preorder.find? SyntaxNode.isFaulty with
    | none => rfl
    | some bad => rfl

namespace IsConsistent

/-- The flag of the topmost node speaks for the whole tree, so that nothing is lost by skipping a
tree without it. -/
theorem hasError_iff {t : SyntaxTree} (h : t.IsConsistent) :
    t.top.hasError = true ↔ ∃ n ∈ t.preorder, n.isFaulty = true := by
  induction h with
  | @node top children flag _ ih =>
    calc
      top.hasError = true
        ↔ top.isFaulty = true ∨ ∃ child ∈ children, child.top.hasError = true := flag
      _ ↔ top.isFaulty = true ∨ ∃ child ∈ children, ∃ n ∈ child.preorder, n.isFaulty = true :=
        or_congr_right (exists_congr fun child => and_congr_right (ih child))
      _ ↔ ∃ n ∈ (SyntaxTree.node top children).preorder, n.isFaulty = true := by
        simp only [preorder_node, List.mem_cons, List.mem_flatMap, exists_eq_or_imp]
        grind

/-- The search finds the first faulty node of every tree. -/
theorem firstFault?_eq {t : SyntaxTree} (h : t.IsConsistent) :
    t.firstFault? = t.preorder.find? SyntaxNode.isFaulty := by
  induction h with
  | @node top children flag below ih =>
    have hflag := (node flag below).hasError_iff
    rw [firstFault?, preorder_node]
    by_cases hbad : top.isFaulty = true
    · exact (if_pos hbad).trans (List.find?_cons_of_pos hbad).symm
    · refine (if_neg hbad).trans ?_
      rw [List.find?_cons_of_neg hbad]
      split
      · exact firstFaultList?_eq ih
      · -- a tree that is skipped has no faulty node
        rename_i hskipped
        refine (List.find?_eq_none.mpr fun n hn hfaulty => hskipped (hflag.mpr ?_)).symm
        exact ⟨n, preorder_node top children ▸ List.mem_cons_of_mem top hn, hfaulty⟩

/-- A tree with the flag has a first faulty node, and the search finds it. -/
theorem exists_firstFault {t : SyntaxTree} (h : t.IsConsistent) (hflag : t.top.hasError = true) :
    ∃ bad, t.firstFault? = some bad ∧ t.IsFirstFault bad := by
  obtain ⟨bad, hbad⟩ :=
    Option.isSome_iff_exists.mp (List.find?_isSome.mpr (h.hasError_iff.mp hflag))
  obtain ⟨hfaulty, earlier, later, heq, hearlier⟩ := List.find?_eq_some_iff_append.mp hbad
  refine ⟨bad, h.firstFault?_eq.trans hbad, hfaulty, earlier, later, heq, fun n hn => ?_⟩
  simpa using hearlier n hn

end IsConsistent

end SyntaxTree

/-! ## Positions -/

/-- The offset has the position `p`: in front of it stand whole lines, each with the newline that
ends it, and the beginning of one more line. The rows are counted from one, and so are the bytes
of the last line. -/
def Position.Marks (p : Position) (source : Text) (offset : Nat) : Prop :=
  ∃ (lines : List Text) (start : Text),
    source.take offset = lines.flatMap (· ++ [Ascii.newline]) ++ start ∧
      (∀ line ∈ lines, Ascii.newline ∉ line) ∧ Ascii.newline ∉ start ∧
      p = ⟨lines.length + 1, start.length + 1⟩

namespace Position

/-- The number of newlines is the number of whole lines. -/
theorem count_newline {lines : List Text} (hlines : ∀ line ∈ lines, Ascii.newline ∉ line)
    {start : Text} (hstart : Ascii.newline ∉ start) :
    (lines.flatMap (· ++ [Ascii.newline]) ++ start).count Ascii.newline = lines.length := by
  induction lines with
  | nil => simpa using List.count_eq_zero.mpr hstart
  | cons line more ih =>
    have hline := List.count_eq_zero.mpr (hlines line List.mem_cons_self)
    have hmore := ih fun line' h => hlines line' (List.mem_cons_of_mem line h)
    simp only [List.flatMap_cons, List.append_assoc, List.count_append, hline] at hmore ⊢
    simp only [List.count_singleton_self, List.length_cons]
    omega

/-- The last line begins behind the last newline. -/
theorem takeWhile_reverse (lines : List Text) {start : Text} (hstart : Ascii.newline ∉ start) :
    (lines.flatMap (· ++ [Ascii.newline]) ++ start).reverse.takeWhile (· != Ascii.newline) =
      start.reverse := by
  have hall : ∀ b ∈ start.reverse, (b != Ascii.newline) = true := fun b hb => by
    simpa using fun heq : b = Ascii.newline => hstart (heq ▸ List.mem_reverse.mp hb)
  rw [List.reverse_append, List.takeWhile_append_of_pos hall]
  rcases List.eq_nil_or_concat lines with rfl | ⟨init, line, rfl⟩
  · simp
  · simp

/-- Every text is a row of whole lines and the beginning of one more. -/
theorem exists_lines (text : Text) :
    ∃ (lines : List Text) (start : Text), text = lines.flatMap (· ++ [Ascii.newline]) ++ start ∧
      (∀ line ∈ lines, Ascii.newline ∉ line) ∧ Ascii.newline ∉ start := by
  induction text using List.reverseRecOn with
  | nil => exact ⟨[], [], rfl, by simp, by simp⟩
  | append_singleton text b ih =>
    obtain ⟨lines, start, rfl, hlines, hstart⟩ := ih
    by_cases hb : b = Ascii.newline
    · refine ⟨lines ++ [start], [], by simp [hb], fun line h => ?_, by simp⟩
      rcases List.mem_append.mp h with h | h
      · exact hlines line h
      · exact List.mem_singleton.mp h ▸ hstart
    · exact ⟨lines, start ++ [b], by simp, hlines, by simp [hstart, Ne.symm hb]⟩

theorem marks_iff {p : Position} {source : Text} {offset : Nat} :
    p.Marks source offset ↔ ofOffset source offset = p := by
  have hmarks : ∀ {lines : List Text} {start : Text},
      source.take offset = lines.flatMap (· ++ [Ascii.newline]) ++ start →
      (∀ line ∈ lines, Ascii.newline ∉ line) → Ascii.newline ∉ start →
      ofOffset source offset = ⟨lines.length + 1, start.length + 1⟩ := by
    intro lines start heq hlines hstart
    simp only [ofOffset, heq, count_newline hlines hstart, takeWhile_reverse lines hstart,
      List.length_reverse]
  constructor
  · rintro ⟨lines, start, heq, hlines, hstart, rfl⟩
    exact hmarks heq hlines hstart
  · rintro rfl
    obtain ⟨lines, start, heq, hlines, hstart⟩ := exists_lines (source.take offset)
    exact ⟨lines, start, heq, hlines, hstart, hmarks heq hlines hstart⟩

end Position

/-! ## Refusals -/

/-- A fault that names a position is not the one that names none. -/
theorem syntaxFault_some_ne_none (source : Text) (bad : SyntaxNode) :
    syntaxFault source (some bad) ≠ syntaxFault source none := by
  intro heq
  injection heq with _ htext
  have hlength := congrArg List.length htext
  simp only [Text.concat, List.flatten_cons, List.length_append] at hlength
  have hshort : (Text.ofString "syntax error").length <
      (Text.ofString "syntax error at ").length := by decide
  omega

namespace TreeSource

/-- A text is refused if and only if its tree has the error flag. The refusal names the row and
the column of the first faulty node in pre-order, and there is no refusal that names no place. A
text that is not refused comes with its tree and with the grammar that was asked for. -/
theorem parse_reports_first_fault {treeOf : (path source : Text) → Grammar → Option SyntaxTree}
    {path source : Text} {options : ParseOptions} {tree : SyntaxTree}
    (htree : treeOf path source options.grammar = some tree) (hflags : tree.IsConsistent) :
    ((∃ fault, (available treeOf).parse path source options = .error fault) ↔
      tree.top.hasError = true) ∧
    (∀ fault, (available treeOf).parse path source options = .error fault →
      ∃ (bad : SyntaxNode) (p : Position), tree.IsFirstFault bad ∧ p.Marks source bad.start ∧
        fault = .ofCode .parse
          (Text.concat ["syntax error at ", Text.ofNat p.row, ":", Text.ofNat p.column]) none) ∧
    (available treeOf).parse path source options ≠ .error (.ofCode .parse "syntax error" none) ∧
    ∀ parsed, (available treeOf).parse path source options = .ok parsed →
      parsed.source = source ∧ parsed.grammar = options.grammar ∧ parsed.tree = tree := by
  have hparse : (available treeOf).parse path source options =
      ParsedSource.ofTree source options tree := by rw [parse, htree]
  rw [hparse, ParsedSource.ofTree]
  split
  · rename_i hflag
    obtain ⟨bad, hbad, hfirst⟩ := hflags.exists_firstFault hflag
    rw [hbad]
    refine ⟨by simp [hflag], ?_, ?_, by simp⟩
    · rintro fault ⟨⟩
      exact ⟨bad, _, hfirst, Position.marks_iff.mpr rfl, rfl⟩
    · exact fun heq => syntaxFault_some_ne_none source bad (Except.error.inj heq)
  · rename_i hflag
    refine ⟨by simp [hflag], by simp, by simp, ?_⟩
    rintro parsed ⟨⟩
    exact ⟨rfl, rfl, rfl⟩

/-- The tree of a stray parenthesis behind a name, on the third line of a text. -/
def strayTree : SyntaxTree :=
  let name (start stop : Nat) : SyntaxTree :=
    .node ⟨"identifier", true, false, false, [], start, stop⟩ []
  .node ⟨"program", true, true, false, [], 4, 10⟩
    [.node ⟨"ERROR", true, true, false, [], 4, 8⟩ [name 4 6],
     .node ⟨"expression_statement", true, false, false, [], 9, 10⟩ [name 9 10]]

theorem parse_reports_first_fault_sample :
    (available fun _ _ _ => some strayTree).parse "a.js" "\n\n  é ) x" ⟨true, false⟩ =
      .error (.ofCode .parse "syntax error at 3:3" none) ∧
    ∃ (bad : SyntaxNode) (p : Position),
      strayTree.IsFirstFault bad ∧ p.Marks "\n\n  é ) x" bad.start ∧
        Text.concat ["syntax error at ", Text.ofNat p.row, ":", Text.ofNat p.column] =
          Text.ofString "syntax error at 3:3" := by
  have hparse : (available fun _ _ _ => some strayTree).parse "a.js" "\n\n  é ) x" ⟨true, false⟩ =
      .error (.ofCode .parse "syntax error at 3:3" none) := rfl
  have hflags : strayTree.IsConsistent := by
    refine .node (by decide) (List.forall_mem_cons.mpr
      ⟨.node (by decide) ?_, List.forall_mem_singleton.mpr (.node (by decide) ?_)⟩)
    · exact List.forall_mem_singleton.mpr (.node (by decide) (by simp))
    · exact List.forall_mem_singleton.mpr (.node (by decide) (by simp))
  obtain ⟨bad, p, hfirst, hmarks, hfault⟩ :=
    (@parse_reports_first_fault (fun _ _ _ => some strayTree) _ _ _ _ rfl hflags).2.1 _ hparse
  injection hfault with _ htext
  exact ⟨hparse, bad, p, hfirst, hmarks, htext.symm⟩

end TreeSource

end DependencyAudit

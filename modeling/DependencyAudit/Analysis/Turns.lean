import DependencyAudit.Analysis.Facts

/-!
# Turns of an audit

An audit reads several files at a time, so that they are done in some order, and each of them is
reported as soon as it is done. What a reader sees of these reports is a matter of chance: other
files may be done, and not reported yet, when a file is read. The facts are put in the order of
the files in the end.
-/

namespace DependencyAudit

/-- How the readers of an audit come to their turns. -/
structure Schedule where
  /-- The positions of some number of files, in the order in which the files are done. -/
  order : Nat → List Nat
  /-- Every file has one turn. -/
  order_perm : ∀ n, (order n).Perm (List.range n)
  /-- Of the files that are done before the one of a turn, how many are reported only after that
  one has been read. -/
  pending : Nat → Nat

namespace Schedule

/-- One file after the other. -/
def inTurn : Schedule := ⟨List.range, fun _ => .refl _, fun _ => 0⟩

/-- One more turn: the file at a position is read, when the first files that are done have been
reported. -/
def turn (schedule : Schedule) (factsOf : (reported : List FileFacts) → Text → FileFacts)
    (files : List Text) (done : List (Nat × FileFacts)) (position : Nat) :
    List (Nat × FileFacts) :=
  match files[position]? with
  | some path =>
    let reported := (done.map (·.2)).take (done.length - schedule.pending done.length)
    done ++ [(position, factsOf reported path)]
  | none => done

/-- The facts of all files with their positions, in the order in which the files are done. -/
def takeTurns (schedule : Schedule) (factsOf : (reported : List FileFacts) → Text → FileFacts)
    (files : List Text) : List (Nat × FileFacts) :=
  (schedule.order files.length).foldl (schedule.turn factsOf files) []

/-- The facts in the order of the files. -/
def inOrder (files : List Text) (done : List (Nat × FileFacts)) : List FileFacts :=
  files.zipIdx.filterMap fun (_, position) => done.lookup position

end Schedule

end DependencyAudit

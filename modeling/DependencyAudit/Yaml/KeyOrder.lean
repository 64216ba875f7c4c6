import DependencyAudit.Text.Letter

/-!
# The order of keys

The members of a mapping that has no order of its own are written in natural order: runs of
digits compare as numbers, so that `item2` comes before `item10`, and letters come behind
other characters, except right behind a digit.
-/

namespace DependencyAudit.Yaml

/-- The number that the digits at the front continue, in 64-bit arithmetic, and how many digits
there are. -/
def digitRun (start : Int64) (codes : List Nat) : Int64 × Nat :=
  let run := codes.takeWhile isDigitCode
  (run.foldl (fun n (c : Nat) => n * 10 + Int64.ofInt ((c : Int) - 48)) start, run.length)

/-- Does a significant digit stand before the place where two keys part? `shared` is what they
have in common, from its end. -/
def endsWithNumber (shared : List Nat) : Bool :=
  (shared.takeWhile isDigitCode).any (· != 48)

/-- Where two keys part, which of them comes first? Both rests are given from the place on where
they part, the first characters being `a` and `b`. -/
def numbersLt (shared : List Nat) (a : Nat) (as : List Nat) (b : Nat) (bs : List Nat) : Bool :=
  let start : Int64 := if (a = 48 || b = 48) && endsWithNumber shared then 1 else 0
  let (m, i) := digitRun start (a :: as)
  let (n, j) := digitRun start (b :: bs)
  if m != n then m < n else if i != j then i < j else a < b

/-- Does the first key come before the second? `shared` is what has been passed already, from
its end. -/
def keyLt (shared : List Nat) : List Nat → List Nat → Bool
  | a :: as, b :: bs =>
    if a = b then keyLt (a :: shared) as bs
    else if isLetterCode a && isLetterCode b then a < b
    else if isLetterCode a || isLetterCode b then
      if shared.head?.any isDigitCode then isLetterCode a else isLetterCode b
    else numbersLt shared a as b bs
  | [], _ :: _ => true
  | _, [] => false

end DependencyAudit.Yaml

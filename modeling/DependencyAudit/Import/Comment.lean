import DependencyAudit.Text.Basic

/-!
# Comments in import clauses

A line comment runs from `//` through the next newline, a block comment from `/*` through the
next `*/`. An opener without its end is ordinary text.
-/

namespace DependencyAudit.Import

/-- What follows the first newline. -/
def afterLine? : Text → Option Text
  | [] => none
  | b :: rest => if b = Ascii.newline then some rest else afterLine? rest

/-- What follows the first `*/`. -/
def afterBlock? : Text → Option Text
  | [] => none
  | b :: rest =>
    if b = Text.byte '*' && rest.head? = some (Text.byte '/') then some rest.tail
    else afterBlock? rest

/-- What follows the comment that starts here, if one does. -/
def afterComment? (text : Text) : Option Text :=
  match text with
  | a :: b :: rest =>
    if a = Text.byte '/' && b = Text.byte '/' then afterLine? rest
    else if a = Text.byte '/' && b = Text.byte '*' then afterBlock? rest
    else none
  | _ => none

theorem length_afterLine? {text rest : Text} (h : afterLine? text = some rest) :
    rest.length < text.length := by
  induction text with
  | nil => simp [afterLine?] at h
  | cons b text ih =>
    simp only [afterLine?] at h
    split at h
    · cases h; simp
    · have := ih h; simp; omega

theorem length_afterBlock? {text rest : Text} (h : afterBlock? text = some rest) :
    rest.length < text.length := by
  induction text with
  | nil => simp [afterBlock?] at h
  | cons b text ih =>
    simp only [afterBlock?] at h
    split at h
    · cases h; grind
    · have := ih h; simp; omega

/-- A comment is not empty. -/
theorem length_afterComment? {text rest : Text} (h : afterComment? text = some rest) :
    rest.length < text.length := by
  unfold afterComment? at h
  split at h
  · split at h
    · have := length_afterLine? h; simp; omega
    · split at h
      · have := length_afterBlock? h; simp; omega
      · simp at h
  · simp at h

/-- Replaces every comment by one space. -/
def stripComments (text : Text) : Text :=
  match _h : afterComment? text with
  | some rest => Text.byte ' ' :: stripComments rest
  | none =>
    match text with
    | [] => []
    | b :: rest => b :: stripComments rest
termination_by text.length
decreasing_by
  · exact length_afterComment? (by assumption)
  · simp

end DependencyAudit.Import

import DependencyAudit.Log.Handler

/-!
# Derived log handlers

A handler is derived from another one by adding attributes and opening groups, one after the
other. It writes the attributes as soon as they are added, and of a group it only keeps the name.
All the same its lines are those of the first handler: what has been added stands in front of the
attributes of the record, and what comes after the opening of a group is nested in that group.

## Main definitions

* `HandlerStep`: one step of a derivation;
* `LineHandler.derive`: the handler at the end of a chain of steps;
* `LogRecord.nest`: the record that holds the attributes of the chain itself.

## Main results

* `attributesText_filter`: groups without members leave no trace;
* `line_extend` and `line_derive`: a step, and a chain of steps, can be moved to the record;
* `derived_lines_compose`: the same for what is written, with and without empty groups.
-/

namespace DependencyAudit

open LogValue (attributeText attributesText)

/-- One step in deriving a handler. -/
inductive HandlerStep
  /-- Attributes for every line. -/
  | attributes (added : List LogAttribute)
  /-- A group for everything that comes later. -/
  | group (name : Text)

namespace LineHandler

/-- The handler after one step. -/
def extend (h : LineHandler) : HandlerStep → LineHandler
  | .attributes added => h.withAttributes added
  | .group name => h.withGroup name

/-- The handler after a chain of steps. -/
def derive (h : LineHandler) (chain : List HandlerStep) : LineHandler :=
  chain.foldl extend h

end LineHandler

/-- What comes after a step, together with what the step adds. `make` puts a group together. -/
def HandlerStep.wrap (make : List LogAttribute → LogValue) :
    HandlerStep → List LogAttribute → List LogAttribute
  | attributes added, later => added ++ later
  | group name, later => [(name, make later)]

/-- The record with the attributes of a chain and its own: in the order of the chain, and nested
in the groups that are opened on the way. -/
def LogRecord.nest (make : List LogAttribute → LogValue) (chain : List HandlerStep)
    (r : LogRecord) : LogRecord :=
  { r with attributes := chain.foldr (HandlerStep.wrap make) r.attributes }

/-! ## Attributes on a line -/

/-- Attributes are written one list after the other. -/
theorem attributesText_append (scope : Text) (first more : List LogAttribute) :
    attributesText scope (first ++ more) =
      attributesText scope first ++ attributesText scope more := by
  induction first with
  | nil => simp [attributesText]
  | cons a first ih => rw [List.cons_append, attributesText, attributesText, ih, List.append_assoc]

theorem attributesText_singleton (scope name : Text) (value : LogValue) :
    attributesText scope [(name, value)] = attributeText scope name value := by
  rw [attributesText, attributesText, List.append_nil]

/-- Nothing is written of a group without attributes. -/
theorem attributeText_of_isEmptyGroup {value : LogValue} (h : value.isEmptyGroup = true)
    (scope name : Text) : attributeText scope name value = [] := by
  unfold LogValue.isEmptyGroup at h
  split at h
  · rw [attributeText, attributesText]
  · exact absurd h (by simp)

/-- Groups without members leave no trace. -/
theorem attributesText_filter (scope : Text) (attributes : List LogAttribute) :
    attributesText scope (attributes.filter fun (_, v) => !v.isEmptyGroup) =
      attributesText scope attributes := by
  induction attributes with
  | nil => rfl
  | cons a more ih =>
    obtain ⟨name, value⟩ := a
    cases hempty : value.isEmptyGroup with
    | true =>
      rw [List.filter_cons_of_neg (by simp [hempty]), ih, attributesText,
        attributeText_of_isEmptyGroup hempty, List.nil_append]
    | false =>
      rw [List.filter_cons_of_pos (by simp [hempty]), attributesText, ih, attributesText]

/-- The function puts attributes together to a group, as far as lines show. -/
def MakesGroups (make : List LogAttribute → LogValue) : Prop :=
  ∀ scope name attributes,
    attributeText scope name (make attributes) = attributeText scope name (.group attributes)

theorem makesGroups_group : MakesGroups .group :=
  fun _ _ _ => rfl

theorem makesGroups_ofAttributes : MakesGroups .ofAttributes := by
  intro scope name attributes
  rw [LogValue.ofAttributes, attributeText, attributeText, attributesText_filter]

/-! ## One step -/

namespace LineHandler

/-- A line up to its attributes. -/
def opening (h : LineHandler) (r : LogRecord) : Text :=
  Text.concat
    [match h.timestamps, r.time with
      | true, some t => Text.concat [Instant.format ⟨t, 0⟩, " "]
      | _, _ => [],
     h.label r.level, " ", r.message]

/-- The attributes of a line: those of the handler, and those of a record behind them. -/
def attributesPart (h : LineHandler) (attributes : List LogAttribute) : Text :=
  h.fixed ++ attributesText h.scope attributes

/-- A line consists of its opening, the attributes and a newline. -/
theorem line_eq (h : LineHandler) (r : LogRecord) :
    h.line r = h.opening r ++ (h.attributesPart r.attributes ++ [Ascii.newline]) := by
  simp only [line, opening, attributesPart, Text.concat, List.flatten_cons, List.flatten_nil,
    List.append_nil, List.append_assoc]
  rfl

/-- A step changes nothing but the attributes and groups of a handler. -/
theorem exists_extend (h : LineHandler) (step : HandlerStep) :
    ∃ scope fixed, h.extend step = { h with scope := scope, fixed := fixed } := by
  cases step with
  | attributes added => exact ⟨_, _, rfl⟩
  | group name =>
    rw [extend, withGroup]
    split
    · exact ⟨h.scope, h.fixed, rfl⟩
    · exact ⟨_, _, rfl⟩

/-- A step leaves the opening of lines alone. -/
theorem opening_extend (h : LineHandler) (step : HandlerStep) (r : LogRecord) :
    (h.extend step).opening r = h.opening r := by
  obtain ⟨scope, fixed, heq⟩ := exists_extend h step
  rw [heq]
  rfl

/-- A step leaves the level alone. -/
theorem level_extend (h : LineHandler) (step : HandlerStep) :
    (h.extend step).level = h.level := by
  obtain ⟨scope, fixed, heq⟩ := exists_extend h step
  rw [heq]

/-- Attributes that are written ahead are those that would stand in front, and a name that is
kept is that of the group that would stand around. -/
theorem attributesPart_extend {make : List LogAttribute → LogValue} (hmake : MakesGroups make)
    (h : LineHandler) (step : HandlerStep) (attributes : List LogAttribute) :
    (h.extend step).attributesPart attributes =
      h.attributesPart (step.wrap make attributes) := by
  cases step with
  | attributes added =>
    simp only [attributesPart, extend, withAttributes, HandlerStep.wrap, attributesText_append,
      List.append_assoc]
  | group name =>
    rw [attributesPart, attributesPart, HandlerStep.wrap, attributesText_singleton, hmake,
      attributeText, extend, withGroup]
    -- an unnamed group puts nothing before the keys, whichever way it is opened
    cases name.isEmpty with
    | true => rfl
    | false => rfl

/-- A step can be left out if the record has what it adds. -/
theorem line_extend {make : List LogAttribute → LogValue} (hmake : MakesGroups make)
    (h : LineHandler) (step : HandlerStep) (r : LogRecord) :
    (h.extend step).line r = h.line (r.nest make [step]) := by
  have hopening : (h.extend step).opening r = h.opening (r.nest make [step]) :=
    opening_extend h step r
  rw [line_eq, line_eq, hopening, attributesPart_extend hmake]
  rfl

/-! ## A chain of steps -/

/-- A chain of steps can be left out if the record has what they add. -/
theorem line_derive {make : List LogAttribute → LogValue} (hmake : MakesGroups make)
    (h : LineHandler) (chain : List HandlerStep) (r : LogRecord) :
    (h.derive chain).line r = h.line (r.nest make chain) := by
  -- for every handler that the chain begins with: the later steps are in the record already when
  -- the first one gets around them
  induction chain generalizing h with
  | nil => rfl
  | cons step chain ih =>
    calc (h.derive (step :: chain)).line r
        = ((h.extend step).derive chain).line r := rfl
      _ = (h.extend step).line (r.nest make chain) := ih (h.extend step)
      _ = h.line ((r.nest make chain).nest make [step]) := line_extend hmake h step _
      _ = h.line (r.nest make (step :: chain)) := rfl

/-- A derived handler has the level of the first. -/
theorem level_derive (h : LineHandler) (chain : List HandlerStep) :
    (h.derive chain).level = h.level := by
  induction chain generalizing h with
  | nil => rfl
  | cons step chain ih => exact (ih (h.extend step)).trans (level_extend h step)

/-- Attributes and groups compose: whatever attributes are added to a handler and whatever groups
are opened, in any order, the handler that results writes for a record the line that the first
handler writes for the record with these attributes and its own, in that order, and with all that
comes after a group nested in it. It makes no difference whether groups without members are kept
in the record or left out of it, and the same records are written. -/
theorem derived_lines_compose (h : LineHandler) (chain : List HandlerStep) (r : LogRecord) :
    (h.derive chain).line r = h.line (r.nest .group chain) ∧
      (h.derive chain).line r = h.line (r.nest .ofAttributes chain) ∧
      (LogHandler.line (h.derive chain)).write r =
        (LogHandler.line h).write (r.nest .group chain) := by
  have hline := line_derive makesGroups_group h chain r
  refine ⟨hline, line_derive makesGroups_ofAttributes h chain r, ?_⟩
  -- only the level of the handler and that of the record decide whether a line is written
  simp only [LogHandler.write, LogHandler.isEnabled, LogHandler.render, level_derive, hline]
  rfl

example :
    ((LineHandler.new LogLevel.info false false).derive
        [.attributes [("run", .text "abc")], .group "file", .group "",
          .attributes [("path", .text "a.js")]]).line
      ⟨LogLevel.info, "Parsed", none,
        [("stats", .group [("bindings", .int 2)]), ("err", .text "bad token")]⟩ =
      "info: Parsed run=abc file.path=a.js file.stats.bindings=2 file.err=\"bad token\"\n" := by
  decide +kernel

end LineHandler

end DependencyAudit

import DependencyAudit.Proofs.CommandLine.Remove

/-!
# What a failed `remove` has done

A command that fails in the removal may have removed something, and its fault says so. One that
fails without having asked a package manager has changed nothing but the log file. There is a
third way to fail: the format of the response is looked at last, when the packages are gone.

## Main definitions

* `Command.FailedInRemoval`: the removal itself fails;
* `Command.FailedAfterRemoval`: the removal succeeds and nothing can be said about it.

## Main results

* `Command.remove_fault_cases`: the three ways to fail;
* `Command.remove_fault_harmless_iff`: a fault from outside the removal means that nothing was
  removed, except for a format that is not supported.
-/

namespace DependencyAudit

namespace Command

variable {given : Option PackageManager} {w : World} {s : Options} {session : Session}
  {report : Report} {pm : PackageManager} {f : Fault}

/-- The command gets as far as the removal, and the removal fails. -/
def FailedInRemoval (given : Option PackageManager) (w : World) (s : Options) (f : Fault) : Prop :=
  ∃ session report pm, Session.Opened w s session ∧ Reaches given w s session report pm ∧
    (removal given w session report pm).outcome = .error f

/-- The package manager is asked and the removal succeeds, but the format that it is to be
reported in is not supported. -/
def FailedAfterRemoval (given : Option PackageManager) (w : World) (s : Options) : Prop :=
  OutputFormat.ofName? s.format = none ∧
    ∃ session report pm removed, Session.Opened w s session ∧
      Reaches given w s session report pm ∧
      (removal given w session report pm).call.isSome = true ∧
      (removal given w session report pm).outcome = .ok removed

/-- The fault of a format that is not supported. -/
def unsupportedFormat (format : Text) : Fault :=
  .plain (Text.concat ["unsupported format: ", format])

/-- A response cannot be given only if its format is not supported. -/
theorem removalText_eq_error {candidates removed : List Text} {kept : List KeptPackage}
    (h : removalText w s pm candidates removed kept = .error f) :
    OutputFormat.ofName? s.format = none ∧ f = unsupportedFormat s.format := by
  unfold removalText Response.render at h
  dsimp only at h
  split at h
  · exact absurd h (by simp)
  · rename_i hformat
    exact ⟨hformat, (Except.error.inj h).symm⟩

/-- A command fails in the removal, or it has asked no package manager, or it fails after the
removal. -/
theorem remove_fault_cases (h : (inSession w s (remove given)).2.outcome = .error f) :
    FailedInRemoval given w s f ∨ (inSession w s (remove given)).2.call = none ∨
      (FailedAfterRemoval given w s ∧ f = unsupportedFormat s.format) := by
  rcases inSession_cases w s (remove given) with ⟨hcall, -⟩ | ⟨session, hsession, hrun⟩
  · exact Or.inr (Or.inl hcall)
  rw [hrun] at h ⊢
  by_cases hreaches : ∃ report pm, Reaches given w s session report pm
  · obtain ⟨report, pm, hreaches⟩ := hreaches
    obtain ⟨-, -, hcall, kept, houtcome⟩ := remove_of_reaches hreaches
    rw [houtcome] at h
    cases hremoval : (removal given w session report pm).outcome with
    | error f' =>
      rw [hremoval] at h
      obtain rfl : f' = f := Except.error.inj h
      exact Or.inl ⟨session, report, pm, hsession, hreaches, hremoval⟩
    | ok removed =>
      -- what is left to fail is the response
      rw [hremoval] at h
      obtain ⟨hformat, hf⟩ := removalText_eq_error h
      cases hasked : (removal given w session report pm).call with
      | none => exact Or.inr (Or.inl (hcall.trans hasked))
      | some call =>
        exact Or.inr (Or.inr ⟨⟨hformat, session, report, pm, removed, hsession, hreaches,
          by rw [hasked]; rfl, hremoval⟩, hf⟩)
  · exact Or.inr (Or.inl (remove_of_not_reaches hreaches).2)

/-- After a removal that has succeeded, the package manager has been asked. -/
theorem FailedAfterRemoval.isSome_call (h : FailedAfterRemoval given w s) :
    (inSession w s (remove given)).2.call.isSome = true := by
  obtain ⟨-, session, report, pm, removed, hsession, hreaches, hasked, -⟩ := h
  rcases inSession_cases w s (remove given) with
    ⟨-, -, -, hnone⟩ | ⟨session', hsession', hrun⟩
  · exact absurd ⟨session, hsession⟩ hnone
  · obtain rfl : session' = session := hsession.eq hsession'
    rw [hrun, (remove_of_reaches hreaches).2.2.1]
    exact hasked

/-- A command that has asked no package manager has not failed after the removal. -/
theorem FailedAfterRemoval.call_ne_none (h : FailedAfterRemoval given w s) :
    (inSession w s (remove given)).2.call ≠ none := by
  intro hcall
  have hasked := h.isSome_call
  rw [hcall] at hasked
  exact absurd hasked (by simp)

/-- A removal does not both fail and succeed. -/
theorem FailedAfterRemoval.not_failedInRemoval (h : FailedAfterRemoval given w s) :
    ¬ FailedInRemoval given w s f := by
  obtain ⟨-, session, report, pm, removed, hsession, hreaches, -, hremoval⟩ := h
  rintro ⟨session', report', pm', hsession', hreaches', hremoval'⟩
  obtain rfl : session' = session := hsession.eq hsession'
  obtain ⟨rfl, rfl⟩ := hreaches.eq hreaches'
  rw [hremoval] at hremoval'
  exact absurd hremoval' (by simp)

/-- A command that fails has failed in the removal, or it has asked no package manager and left
what is under a path as it was, precisely if it did not come to report a removal in a format that
is not supported, and, where it has not failed in the removal, the path does not lead to a log
file that is new or has been written to. In the first of these cases the packages are gone, and
the fault speaks of the format only. -/
theorem remove_fault_harmless_iff (given : Option PackageManager) (w : World) (s : Options)
    (f : Fault) (h : (inSession w s (remove given)).2.outcome = .error f) :
    (∀ path, (FailedInRemoval given w s f ∨
        ((inSession w s (remove given)).2.call = none ∧
          ((CommandLine.execute w s (remove given)).files.content path).toOption =
            (w.files.content path).toOption) ↔
      ¬ FailedAfterRemoval given w s ∧ (FailedInRemoval given w s f ∨
        ¬ (LogsTo w s (CommandLine.execute w s (remove given)).files path ∧
          ((∃ text, w.files.content path = .ok text) →
            LogFile.handler.writeAll (inSession w s (remove given)).2.log ≠ []))))) ∧
    (FailedAfterRemoval given w s → f = unsupportedFormat s.format ∧
      (inSession w s (remove given)).2.call.isSome = true) := by
  rw [files_execute]
  -- a fault is that of the removal, comes without one, or is about the format behind one
  have hcases := remove_fault_cases h
  refine ⟨fun path => ⟨?_, ?_⟩, ?_⟩
  · rintro (hremoval | ⟨hcall, hsame⟩)
    · exact ⟨fun hafter => hafter.not_failedInRemoval hremoval, Or.inl hremoval⟩
    · exact ⟨fun hafter => hafter.call_ne_none hcall,
        Or.inr ((onlyLogged_of_call_eq_none hcall).toOption_content_eq_iff.mp hsame)⟩
  · rintro ⟨hafter, hremoval | hquiet⟩
    · exact Or.inl hremoval
    · rcases hcases with hremoval | hcall | ⟨hbad, -⟩
      · exact Or.inl hremoval
      · exact Or.inr ⟨hcall,
          (onlyLogged_of_call_eq_none hcall).toOption_content_eq_iff.mpr hquiet⟩
      · exact absurd hbad hafter
  · intro hafter
    refine ⟨?_, hafter.isSome_call⟩
    rcases hcases with hremoval | hcall | ⟨-, hf⟩
    · exact absurd hremoval hafter.not_failedInRemoval
    · exact absurd hcall hafter.call_ne_none
    · exact hf

/-- The options that ask for a report in a format that there is not. -/
def oddFormat : Options := { Options.default with format := "xml" }

/-- Asked for an odd format, the command removes a package of the sample project and fails. -/
private theorem sample_failedAfterRemoval :
    FailedAfterRemoval (some idleManager) sampleWorld oddFormat := by
  have hsample : (Session.open? sampleWorld oddFormat).bind (fun session =>
      (audit sampleWorld session).outcome.toOption.bind fun report =>
        let removal := removal (some idleManager) sampleWorld session report idleManager
        removal.outcome.toOption.map fun removed =>
          (candidates session report, removal.call.isSome, removed)) =
      some ([("left" : Text)], true, [("left" : Text)]) := by
    decide +kernel
  simp only [Option.bind_eq_some_iff, Option.map_eq_some_iff, toOption_eq_some_iff,
    Prod.mk.injEq] at hsample
  obtain ⟨session, hopen, report, haudit, removed, hremoved, hcandidates, hasked, -⟩ := hsample
  refine ⟨by decide +kernel, session, report, idleManager, removed, Session.opened_iff.mpr hopen,
    ⟨haudit, rfl, rfl, ?_⟩, hasked, hremoved⟩
  rw [hcandidates]
  exact List.cons_ne_nil _ _

/-- Asked for an odd format, the command fails after the package manager was asked. -/
theorem remove_fault_harmless_iff_sample :
    ∃ f, (inSession sampleWorld oddFormat (remove (some idleManager))).2.outcome = .error f ∧
      f = unsupportedFormat "xml" ∧
      (inSession sampleWorld oddFormat (remove (some idleManager))).2.call.isSome = true ∧
      ¬ (FailedInRemoval (some idleManager) sampleWorld oddFormat f ∨
        ((inSession sampleWorld oddFormat (remove (some idleManager))).2.call = none ∧
          ((CommandLine.execute sampleWorld oddFormat
              (remove (some idleManager))).files.content "package.json").toOption =
            (sampleWorld.files.content "package.json").toOption)) := by
  have hfails : (inSession sampleWorld oddFormat
      (remove (some idleManager))).2.outcome.toOption.isNone = true := by
    decide +kernel
  cases houtcome : (inSession sampleWorld oddFormat (remove (some idleManager))).2.outcome with
  | ok text =>
    rw [houtcome] at hfails
    exact absurd hfails (by simp [Except.toOption])
  | error f =>
    obtain ⟨hiff, hafter⟩ :=
      remove_fault_harmless_iff (some idleManager) sampleWorld oddFormat f houtcome
    obtain ⟨hf, hasked⟩ := hafter sample_failedAfterRemoval
    exact ⟨f, rfl, hf, hasked,
      fun hgood => ((hiff "package.json").mp hgood).1 sample_failedAfterRemoval⟩

end Command

end DependencyAudit

import AmbientBundle.Proofs.Reports

/-!
# The blocks of an output

A line may continue the last message only while no blank line stands between them. What stands
after a blank line is therefore read as an output of its own.

* `Report.append`: one report after another; `Report.State.after`: a state, had there been a report
  before it.
* `Report.State.Anchored`: only a diagnostic that was read is continued.
* `Report.State.step_after`: a line does the same whatever was reported before, once the state is
  anchored.
* `Report.State.run_after`: so do any number of lines.
* `Report.read_blocks`: **an output is read block by block.**
-/

namespace AmbientBundle

open Text

namespace Report

/-- One report after another. -/
def append (first second : Report) : Report :=
  ⟨first.diagnostics ++ second.diagnostics, first.listed ++ second.listed⟩

theorem append_empty (report : Report) : report.append empty = report := by
  simp [append, empty]

/-- A line goes to the last of two lists of diagnostics, unless this one is empty. -/
theorem extendLast_append_right (line : List Char) (ds : List Diagnostic) {last : List Diagnostic}
    (h : last ≠ []) : extendLast line (ds ++ last) = ds ++ extendLast line last := by
  obtain ⟨front, d, rfl⟩ := last.eq_nil_or_concat.resolve_left h
  rw [List.concat_eq_append, ← List.append_assoc, extendLast_append, extendLast_append,
    List.append_assoc]

theorem extendLast_ne_nil (line : List Char) {ds : List Diagnostic} (h : ds ≠ []) :
    extendLast line ds ≠ [] := by
  obtain ⟨front, d, rfl⟩ := ds.eq_nil_or_concat.resolve_left h
  rw [List.concat_eq_append, extendLast_append]
  simp

namespace State

/-- A state as it would be if something had been reported before. -/
def after (first : Report) (s : State) : State := ⟨first.append s.report, s.continues⟩

/-- **Only a diagnostic that was read is continued.** -/
def Anchored (s : State) : Prop := s.continues = true → s.report.diagnostics ≠ []

theorem Anchored.step (cwd : Path) {s : State} (h : s.Anchored) (line : List Char) :
    (s.step cwd line).Anchored := by
  intro hcontinues
  unfold State.step at hcontinues ⊢
  split at hcontinues
  · cases hcontinues
  next hline =>
  rw [if_neg hline]
  cases hread : readDiagnostic? cwd line with
  | some d => simp
  | none =>
    rw [hread] at hcontinues
    dsimp only at hcontinues ⊢
    split at hcontinues
    · next hopen =>
      -- the line went to the last message, which is still there
      have hcontinued : s.continues = true := (Bool.and_eq_true_iff.1 hopen).1
      rw [if_pos hopen]
      exact extendLast_ne_nil line (h hcontinued)
    · split at hcontinues <;> cases hcontinues

/-- **A line does the same whatever was reported before.** The one line that reaches back is a
continuation, and the message that it continues is not from before. -/
theorem step_after (cwd : Path) (first : Report) {s : State} (h : s.Anchored) (line : List Char) :
    (s.after first).step cwd line = (s.step cwd line).after first := by
  unfold State.step after
  by_cases hline : line.isEmpty
  · rw [if_pos hline, if_pos hline]
  rw [if_neg hline, if_neg hline]
  cases hread : readDiagnostic? cwd line with
  | some d => simp [append]
  | none =>
    dsimp only
    by_cases hopen : (s.continues && line.head? == some ' ') = true
    · have hcontinued : s.continues = true := (Bool.and_eq_true_iff.1 hopen).1
      rw [if_pos hopen, if_pos hopen]
      simp [append, extendLast_append_right line _ (h hcontinued)]
    · rw [if_neg hopen, if_neg hopen]
      split
      · simp [append]
      · rfl

/-- **Any number of lines** do the same whatever was reported before. -/
theorem run_after (cwd : Path) (first : Report) (lines : List (List Char)) {s : State}
    (h : s.Anchored) :
    lines.foldl (State.step cwd) (s.after first) =
      (lines.foldl (State.step cwd) s).after first := by
  induction lines generalizing s with
  | nil => rfl
  | cons line lines ih =>
    rw [List.foldl_cons, List.foldl_cons, step_after cwd first h, ih (h.step cwd line)]

/-- A blank line leaves the state of a fresh output, after what was reported. -/
theorem step_blank (cwd : Path) (s : State) :
    s.step cwd [] = State.after s.report ⟨empty, false⟩ := by
  rw [after, append_empty]
  rfl

end State

/-- **An output is read block by block.** Two outputs with a blank line between them, whatever they
are and however the first one ends, are read as the diagnostics of the first and those of the second,
and as the files of the first and those of the second. -/
theorem read_blocks (cwd : Path) (first second : String) :
    (read cwd (first ++ "\n\n" ++ second)).diagnostics =
        (read cwd first).diagnostics ++ (read cwd second).diagnostics ∧
      (read cwd (first ++ "\n\n" ++ second)).listed =
        (read cwd first).listed ++ (read cwd second).listed := by
  have hlines : split '\n' (first ++ "\n\n" ++ second).toList =
      split '\n' first.toList ++ [] :: split '\n' second.toList := by
    have htext : (first ++ "\n\n" ++ second).toList =
        first.toList ++ '\n' :: ([] ++ '\n' :: second.toList) := by
      simp
    rw [htext, split_append_sep, split_append_sep]
    rfl
  have hread : read cwd (first ++ "\n\n" ++ second) = (read cwd first).append (read cwd second) := by
    have hfresh : State.Anchored ⟨empty, false⟩ := fun h => nomatch h
    have hblank : trimEnd [] = [] := rfl
    unfold read
    rw [hlines, List.map_append, List.foldl_append, List.map_cons, hblank, List.foldl_cons,
      State.step_blank, State.run_after cwd _ _ hfresh]
    rfl
  rw [hread]
  exact ⟨rfl, rfl⟩

end Report

end AmbientBundle

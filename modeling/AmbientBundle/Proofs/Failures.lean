import AmbientBundle.Proofs.Bundles
import AmbientBundle.Proofs.Rewriting

/-!
# Runs that fail

A run goes through the units that belong to the bundle one after the other, and ends at the first
one that is at fault: the compiler has something to say about it, or it was emitted and its text
makes no sense. Files that are taken over as they are need not make sense.

A byte-order mark gets in the way of this. Replacements in a text that starts with one are placed
before what they replace, and where such a replacement cuts through a character, the run breaks off.

* `Declaration.exists_replace?`: a file without a byte-order mark can always be rewritten.
* `CompilationUnit.HasFault`: what is wrong with a unit.
* `BundleContext.contribution_eq_error`: a unit ends the run by its own fault, or not at all.
* `generateWith_fails_at_first_fault`: **a run fails at the first unit that is at fault.**
* `generateWith_brokenOff_by_mark`: **a run that breaks off without any unit at fault.**
-/

namespace AmbientBundle

open Source Text

/-! ### Files that can be rewritten -/

theorem Source.Fits.isBoundary {text : List Char} {lo hi : Nat} {spans : List Span}
    (h : Fits text lo spans hi) {span : Span} (hspan : span ∈ spans) :
    IsBoundary text span.start ∧ IsBoundary text span.stop := by
  induction spans generalizing lo with
  | nil => cases hspan
  | cons first spans ih =>
    obtain ⟨-, -, hstart, hstop, hrest⟩ := h
    rcases List.mem_cons.1 hspan with rfl | hspan
    · exact ⟨hstart, hstop⟩
    · exact ih hrest hspan

theorem exists_slice? {text : List Char} {start stop : Nat} (hstart : IsBoundary text start)
    (hstop : IsBoundary text stop) (hle : start ≤ stop) :
    ∃ piece, slice? start stop text = some piece := by
  obtain ⟨before, after, htext, rfl⟩ := hstart
  obtain ⟨before', after', htext', rfl⟩ := hstop
  obtain ⟨piece, rfl, rfl⟩ := front_le (htext.symm.trans htext') hle
  exact ⟨piece, slice?_eq_some.2 ⟨before, after', htext', rfl, rfl⟩⟩

/-- **Edits that fall between characters can be applied**, in whatever order they come. -/
theorem exists_applyFrom? {source : List Char} {edits : List Edit} {offset : Nat}
    (hoffset : IsBoundary source offset)
    (h : ∀ e ∈ edits, IsBoundary source e.span.start ∧ IsBoundary source e.span.stop) :
    ∃ result, applyFrom? source offset edits = some result := by
  induction edits generalizing offset with
  | nil =>
    obtain ⟨before, after, hsource, hlength⟩ := hoffset
    exact ⟨after, dropBytes?_eq_some.2 ⟨before, hsource, hlength⟩⟩
  | cons e edits ih =>
    have hedits := fun e' he' => h e' (List.mem_cons_of_mem _ he')
    obtain ⟨hstart, hstop⟩ := h e List.mem_cons_self
    rw [applyFrom?]
    split
    · exact ih hoffset hedits
    · next hkept =>
      have hle : offset ≤ e.span.start := by
        simp only [Bool.or_eq_true, decide_eq_true_eq, not_or] at hkept
        omega
      obtain ⟨piece, hpiece⟩ := exists_slice? hoffset hstart hle
      obtain ⟨result, hresult⟩ := ih hstop hedits
      exact ⟨piece ++ e.text.toList ++ result, by rw [hpiece, hresult]; rfl⟩

/-- **A file without a byte-order mark can be rewritten** by a replacer that keeps blocks. -/
theorem Declaration.exists_replace? {source : String} {d : Declaration}
    (hparse : parse source = .ok d) (hmark : source.toList.head? ≠ some byteOrderMark)
    {r : Replacer} (hr : ∀ name, r (.moduleBlock name) = none) :
    ∃ output, d.replace? r = some output := by
  have hfits := fits_wanted hparse hmark r
  have hedits : ∀ e ∈ d.edits r,
      IsBoundary source.toList e.span.start ∧ IsBoundary source.toList e.span.stop :=
    fun e he => hfits.isBoundary (List.mem_map_of_mem (edits_subset_wanted hr he))
  obtain ⟨result, hresult⟩ := exists_applyFrom? (isBoundary_zero source.toList) hedits
  refine ⟨String.ofList result, ?_⟩
  rw [replace?, applyEdits?, source_of_parse hparse, hresult]
  rfl

/-! ### Units that are at fault -/

namespace CompilationUnit

/-- **What is wrong with a unit**: its diagnostics, or else the place at which its emitted text stops
making sense. -/
inductive HasFault (unit : CompilationUnit) : BundleError → Prop
  | diagnostics : unit.diagnostics ≠ [] →
      HasFault unit (.diagnostics unit.sourcePath unit.diagnostics)
  | declaration {place : LineColumn} : unit.diagnostics = [] → unit.kind = .emitted →
      Declaration.parse unit.text = .error place →
      HasFault unit (.declaration unit.declarationPath place)

/-- A unit with diagnostics, or one that was emitted with a text that makes no sense. -/
def IsFaulty (unit : CompilationUnit) : Prop :=
  unit.diagnostics ≠ [] ∨ unit.kind = .emitted ∧ ∃ place, Declaration.parse unit.text = .error place

theorem isFaulty_iff {unit : CompilationUnit} : unit.IsFaulty ↔ ∃ fault, unit.HasFault fault := by
  constructor
  · rintro (hdiagnostics | ⟨hkind, place, hparse⟩)
    · exact ⟨_, .diagnostics hdiagnostics⟩
    · by_cases hdiagnostics : unit.diagnostics = []
      · exact ⟨_, .declaration hdiagnostics hkind hparse⟩
      · exact ⟨_, .diagnostics hdiagnostics⟩
  · rintro ⟨fault, hfault⟩
    cases hfault with
    | diagnostics hdiagnostics => exact .inl hdiagnostics
    | declaration _ hkind hparse => exact .inr ⟨hkind, _, hparse⟩

instance (unit : CompilationUnit) : Decidable unit.IsFaulty :=
  decidable_of_iff (unit.diagnostics ≠ [] ∨
      unit.kind = .emitted ∧ (Declaration.parse unit.text).isOk = false) <| by
    unfold IsFaulty
    cases Declaration.parse unit.text <;> simp [Except.isOk, Except.toBool]

/-- A unit whose text was emitted after a byte-order mark. -/
def IsMarked (unit : CompilationUnit) : Prop :=
  unit.kind = .emitted ∧ unit.text.toList.head? = some Declaration.byteOrderMark

instance (unit : CompilationUnit) : Decidable unit.IsMarked := inferInstanceAs (Decidable (_ ∧ _))

end CompilationUnit

namespace BundleContext

variable {c : BundleContext} {unit : CompilationUnit} {fault : BundleError} {added : Contribution}

theorem exists_moduleContribution {d : Declaration} (path : Path)
    (hparse : Declaration.parse unit.text = .ok d)
    (hmark : unit.text.toList.head? ≠ some Declaration.byteOrderMark) :
    ∃ added, c.moduleContribution path d = .ok added := by
  obtain ⟨content, hcontent⟩ := Declaration.exists_replace? hparse hmark
    (r := c.resolver.rules (c.idRequest path).current) fun _ => rfl
  unfold moduleContribution
  dsimp only
  rw [hcontent]
  exact ⟨_, rfl⟩

theorem contribution_of_hasFault (h : unit.HasFault fault) : c.contribution unit = .error fault := by
  unfold contribution
  cases h with
  | diagnostics hdiagnostics =>
    have hsome : (!unit.diagnostics.isEmpty) = true := by simpa using hdiagnostics
    rw [if_pos hsome]
  | declaration hdiagnostics hkind hparse =>
    rw [hdiagnostics, hkind]
    dsimp only
    rw [hparse]
    rfl

theorem exists_contribution (hmark : ¬ unit.IsMarked) (h : ¬ unit.IsFaulty) :
    ∃ added, c.contribution unit = .ok added := by
  unfold CompilationUnit.IsFaulty at h
  rw [not_or, not_not] at h
  obtain ⟨hdiagnostics, hsense⟩ := h
  unfold contribution
  rw [hdiagnostics, if_neg (by simp)]
  cases hkind : unit.kind with
  | notEmitted => exact ⟨_, rfl⟩
  | declaration => exact ⟨_, rfl⟩
  | emitted =>
    dsimp only
    cases hparse : Declaration.parse unit.text with
    | error place => exact absurd ⟨hkind, place, hparse⟩ hsense
    | ok d =>
      dsimp only
      split
      · exact exists_moduleContribution _ hparse fun hfront => hmark ⟨hkind, hfront⟩
      · exact ⟨_, rfl⟩

/-- **A unit ends the run by its own fault, or not at all.** -/
theorem contribution_eq_error (hmark : ¬ unit.IsMarked) :
    c.contribution unit = .error fault ↔ unit.HasFault fault := by
  refine ⟨fun h => ?_, contribution_of_hasFault⟩
  by_cases hfaulty : unit.IsFaulty
  · obtain ⟨fault', hfault⟩ := CompilationUnit.isFaulty_iff.1 hfaulty
    have hsame : fault = fault' :=
      Except.error.inj (h.symm.trans (contribution_of_hasFault hfault))
    exact hsame ▸ hfault
  · obtain ⟨added, hadded⟩ := exists_contribution (c := c) hmark hfaulty
    rw [hadded] at h
    cases h

theorem exists_contribution_iff (hmark : ¬ unit.IsMarked) :
    (∃ added, c.contribution unit = .ok added) ↔ ¬ unit.IsFaulty := by
  simp only [CompilationUnit.isFaulty_iff, ← contribution_eq_error (c := c) hmark]
  cases c.contribution unit <;> simp

/-! ### Calls of hooks -/

/-- The calls of the hook on identifiers that a unit leads to: one for a module. -/
def idCalls (c : BundleContext) (unit : CompilationUnit) : List IdRequest :=
  match unit.module?, c.options.idHook with
  | some _, some _ => [c.idRequest unit.declarationPath]
  | _, _ => []

/-- The calls of the hook on references that a unit leads to: those of a visit of a module. -/
def importCalls (c : BundleContext) (unit : CompilationUnit) : List ImportRequest :=
  match unit.module? with
  | some d => c.resolver.visitCalls d (c.idRequest unit.declarationPath).current
  | none => []

theorem calls_of_contribution (h : c.contribution unit = .ok added) :
    added.idCalls = c.idCalls unit ∧ added.importCalls = c.importCalls unit := by
  unfold idCalls importCalls
  rcases contribution_cases h with ⟨d, hunit, hadded⟩ | ⟨hunit, hadded⟩
  · rw [hunit]
    obtain ⟨content, -, rfl⟩ := moduleContribution_inv hadded
    cases c.options.idHook <;> exact ⟨rfl, rfl⟩
  · rw [hunit]
    rcases hadded with rfl | ⟨text, rfl⟩ <;> exact ⟨rfl, rfl⟩

end BundleContext

/-! ### Units one after the other -/

section Units

variable {c : BundleContext} {before after : List CompilationUnit} {unit : CompilationUnit}
  {fault : BundleError}

/-- What units add after others that are in order. -/
theorem contributions_append {rest : List CompilationUnit}
    (h : (contributions c before).fault = none) :
    contributions c (before ++ rest) =
      ⟨before.map CompilationUnit.sourcePath ++ (contributions c rest).seen,
        (contributions c before).added ++ (contributions c rest).added,
        (contributions c rest).fault⟩ := by
  induction before with
  | nil => rfl
  | cons first before ih =>
    rw [List.cons_append, contributions]
    rw [contributions] at h ⊢
    cases hfirst : c.contribution first with
    | error fault => rw [hfirst] at h; cases h
    | ok added =>
      rw [hfirst] at h
      dsimp only
      rw [ih h]
      rfl

theorem contributions_of_error (h : c.contribution unit = .error fault) :
    contributions c (unit :: after) = ⟨[unit.sourcePath], [], some fault⟩ := by
  rw [contributions, h]

/-- The calls of hooks, unit by unit. -/
theorem calls_of_contributions (h : (contributions c before).fault = none) :
    (contributions c before).added.flatMap Contribution.idCalls = before.flatMap c.idCalls ∧
      (contributions c before).added.flatMap Contribution.importCalls =
        before.flatMap c.importCalls := by
  have hadded := forall₂_of_contributions h
  generalize (contributions c before).added = added at hadded
  clear h
  induction hadded with
  | nil => exact ⟨rfl, rfl⟩
  | cons hunit _ ih =>
    obtain ⟨hid, himport⟩ := BundleContext.calls_of_contribution hunit
    simp only [List.flatMap_cons, hid, himport, ih.1, ih.2, and_self]

/-- **Units up to the first one that is at fault.** -/
theorem contributions_of_first_fault (hbefore : (contributions c before).fault = none)
    (hunit : c.contribution unit = .error fault) :
    contributions c (before ++ unit :: after) =
      ⟨(before ++ [unit]).map CompilationUnit.sourcePath, (contributions c before).added,
        some fault⟩ := by
  rw [contributions_append hbefore, contributions_of_error hunit, List.append_nil, List.map_append]
  rfl

end Units

/-! ### Runs -/

section Runs

variable {emit : Emitter} {w opened : Workspace} {plan : Plan} {o : Options} {c : Compilation}
  {fault : BundleError}

/-- The message about a unit. -/
def processing (unit : CompilationUnit) : String := "Processing " ++ unit.sourcePath.text

theorem finish_of_fault (messages : List String) (requests : List Request)
    (hfault : (progressOf plan o c).fault = some fault) :
    finish w plan o messages requests c =
      { workspace := w
        messages := messages ++ (progressOf plan o c).seen.map fun path => "Processing " ++ path.text
        requests
        idCalls := (progressOf plan o c).added.flatMap Contribution.idCalls
        importCalls := (progressOf plan o c).added.flatMap Contribution.importCalls
        result := .error fault } := by
  unfold finish
  dsimp only
  rw [hfault]

/-- A run has a fault exactly if an accepted unit is at fault. -/
theorem fault_eq_none_iff (hdiagnostics : c.diagnostics = [])
    (hmark : ∀ unit ∈ c.units, plan.accepts unit = true → ¬ unit.IsMarked) :
    (progressOf plan o c).fault = none ↔
      ∀ unit ∈ c.units, plan.accepts unit = true → ¬ unit.IsFaulty := by
  rw [progressOf_eq hdiagnostics, contributions_fault_eq_none]
  constructor
  · intro h unit hunit haccept
    have hadded := h unit (List.mem_filter.2 ⟨hunit, haccept⟩)
    exact (BundleContext.exists_contribution_iff (hmark unit hunit haccept)).1 hadded
  · intro h unit hunit
    obtain ⟨hmem, haccept⟩ := List.mem_filter.1 hunit
    exact (BundleContext.exists_contribution_iff (hmark unit hmem haccept)).2 (h unit hmem haccept)

/-- **A run fails at the first unit that is at fault.** Diagnostics about the program as a whole come
before anything else, and nothing is processed. Otherwise the run fails exactly if a unit of the
bundle has diagnostics, or was emitted with a text that makes no sense; it fails with what is wrong
with the first such unit, has told of the units up to that one, and has called hooks for the units
before it alone. Emitted texts must not start with a byte-order mark. -/
theorem generateWith_fails_at_first_fault (hplan : Plan.resolve w o = .ok plan)
    (hopen : w.create plan.out (.ofText "") = .ok opened)
    (hwrite : ∀ file, ∃ written, opened.create plan.out file = .ok written)
    (hemit : emit.Gives w o c)
    (hmark : ∀ unit ∈ c.units, plan.accepts unit = true → ¬ unit.IsMarked) :
    (c.diagnostics ≠ [] →
      (generateWith emit w o).result = .error (.diagnostics none c.diagnostics) ∧
        (generateWith emit w o).messages = openingMessages plan o ∧
        (generateWith emit w o).idCalls = [] ∧ (generateWith emit w o).importCalls = []) ∧
    (c.diagnostics = [] →
      ((∃ fault, (generateWith emit w o).result = .error fault) ↔
        ∃ unit ∈ c.units, plan.accepts unit = true ∧ unit.IsFaulty) ∧
      ∀ before unit after fault, c.units.filter plan.accepts = before ++ unit :: after →
        (∀ earlier ∈ before, ¬ earlier.IsFaulty) → unit.HasFault fault →
          (generateWith emit w o).result = .error fault ∧
            (generateWith emit w o).messages =
              openingMessages plan o ++ (before ++ [unit]).map processing ∧
            (generateWith emit w o).idCalls = before.flatMap
              (BundleContext.declaring plan o (declaredNames c.units)).idCalls ∧
            (generateWith emit w o).importCalls = before.flatMap
              (BundleContext.declaring plan o (declaredNames c.units)).importCalls) := by
  rw [generateWith_eq_finish hplan hopen hemit]
  refine ⟨fun hdiagnostics => ?_, fun hdiagnostics => ⟨?_, ?_⟩⟩
  · have hprogress : progressOf plan o c = ⟨[], [], some (.diagnostics none c.diagnostics)⟩ :=
      progressOf_of_diagnostics hdiagnostics
    rw [finish_of_fault _ _ (congrArg Progress.fault hprogress), hprogress]
    exact ⟨rfl, List.append_nil _, rfl, rfl⟩
  · have hnone := fault_eq_none_iff (o := o) hdiagnostics hmark
    cases hfault : (progressOf plan o c).fault with
    | none =>
      obtain ⟨written, hwritten⟩ := hwrite (.ofText (bundleText plan o (progressOf plan o c).added))
      have hok := (finish_of_fault_eq_none (openingMessages plan o) [plan.request o] hfault hwritten).1
      refine ⟨fun ⟨fault, herror⟩ => ?_, fun ⟨unit, hunit, haccept, hfaulty⟩ => ?_⟩
      · rw [hok] at herror
        cases herror
      · exact absurd hfaulty (hnone.1 hfault unit hunit haccept)
    | some fault =>
      refine iff_of_true ⟨fault, by rw [finish_of_fault _ _ hfault]⟩ ?_
      by_contra hnot
      push Not at hnot
      rw [hnone.2 hnot] at hfault
      cases hfault
  · intro before unit after fault hunits hbefore hunit
    have hmem : ∀ earlier ∈ before, earlier ∈ c.units.filter plan.accepts := fun earlier h =>
      hunits ▸ List.mem_append_left _ h
    -- the units before the first fault have all added something
    have hin : (contributions (.declaring plan o (declaredNames c.units)) before).fault = none := by
      refine contributions_fault_eq_none.2 fun earlier hearlier => ?_
      obtain ⟨h, haccept⟩ := List.mem_filter.1 (hmem earlier hearlier)
      exact (BundleContext.exists_contribution_iff (hmark earlier h haccept)).2
        (hbefore earlier hearlier)
    have hprogress : progressOf plan o c =
        ⟨(before ++ [unit]).map CompilationUnit.sourcePath,
          (contributions (.declaring plan o (declaredNames c.units)) before).added, some fault⟩ := by
      rw [progressOf_eq hdiagnostics, hunits]
      exact contributions_of_first_fault hin (BundleContext.contribution_of_hasFault hunit)
    obtain ⟨hid, himport⟩ := calls_of_contributions hin
    rw [finish_of_fault _ _ (congrArg Progress.fault hprogress), hprogress]
    dsimp only
    rw [hid, himport, List.map_map]
    exact ⟨rfl, rfl, rfl, rfl⟩

end Runs

/-! ### Small programs -/

namespace Sample

/-- Options with two hooks that have no answers. -/
def hookedOptions : Options :=
  { options with idHook := some fun _ => none, importHook := some fun _ => none }

/-- A declaration file that makes no sense. -/
def senselessUnit : CompilationUnit := .declaration ⟨"/work/src/b.d.ts"⟩ "declare module" []

/-- What the compiler says about a unit. -/
def diagnostic : Diagnostic := ⟨some ⟨"/work/src/c.ts"⟩, 1, 2, "TS1005", "';' expected.", .error⟩

/-- A unit with a diagnostic and a text that makes no sense. -/
def reportedUnit : CompilationUnit :=
  .emitted ⟨"/work/src/c.ts"⟩ ⟨"/work/src/c.d.ts"⟩ "export \x7b" [diagnostic]

/-- A unit with a text that makes no sense. -/
def brokenUnit : CompilationUnit := .emitted ⟨"/work/src/d.ts"⟩ ⟨"/work/src/d.d.ts"⟩ "\x7d" []

/-- A unit after a byte-order mark, with a character of two bytes shortly before its reference. -/
def markedUnit : CompilationUnit :=
  .emitted ⟨"/work/src/a.ts"⟩ ⟨"/work/src/a.d.ts"⟩ "\uFEFFexport * from /*é*/'./b';\n" []

/-- The units up to one with two faults, and another one with a fault after it. -/
def faultyUnits : List CompilationUnit :=
  [mainUnit, senselessUnit, reportedUnit, ambientUnit, brokenUnit]

end Sample

theorem generateWith_fails_at_first_fault_reported : ∃ plan,
    Plan.resolve Sample.workspace Sample.hookedOptions = .ok plan ∧
    (Declaration.parse Sample.senselessUnit.text).isOk = false ∧
    (generateWith (Sample.emitting Sample.faultyUnits) Sample.workspace Sample.hookedOptions).result =
      .error (.diagnostics (some ⟨"/work/src/c.ts"⟩) [Sample.diagnostic]) ∧
    (generateWith (Sample.emitting Sample.faultyUnits) Sample.workspace Sample.hookedOptions).messages =
      openingMessages plan Sample.hookedOptions ++
        [Sample.mainUnit, Sample.senselessUnit, Sample.reportedUnit].map processing ∧
    (generateWith (Sample.emitting Sample.faultyUnits) Sample.workspace Sample.hookedOptions).idCalls =
      [⟨⟨"/work/src/a.d.ts"⟩, "a", "p/a"⟩] ∧
    (generateWith (Sample.emitting Sample.faultyUnits) Sample.workspace
      Sample.hookedOptions).importCalls = [⟨"./b", "p/a", true⟩] := by
  obtain ⟨plan, hplan⟩ := Sample.exists_plan
  have hresolve : Plan.resolve Sample.workspace Sample.hookedOptions = .ok plan := hplan
  have hcheck : ((Plan.resolve Sample.workspace Sample.options).map fun plan : Plan =>
      decide (((Sample.workspace.create plan.out (.ofText "")).bind fun opened =>
          opened.create plan.out (.ofText "")).isOk = true ∧
        Sample.faultyUnits.filter plan.accepts =
          [Sample.mainUnit, Sample.senselessUnit] ++ Sample.reportedUnit :: [Sample.brokenUnit] ∧
        [Sample.mainUnit, Sample.senselessUnit].flatMap (BundleContext.declaring plan
            Sample.hookedOptions (declaredNames Sample.faultyUnits)).idCalls =
          [⟨⟨"/work/src/a.d.ts"⟩, "a", "p/a"⟩] ∧
        [Sample.mainUnit, Sample.senselessUnit].flatMap (BundleContext.declaring plan
            Sample.hookedOptions (declaredNames Sample.faultyUnits)).importCalls =
          [⟨"./b", "p/a", true⟩])) = .ok true := by decide +kernel
  rw [hplan] at hcheck
  obtain ⟨hcreate, hunits, hid, himport⟩ := of_decide_eq_true (Except.ok.inj hcheck)
  cases hopen : Sample.workspace.create plan.out (.ofText "") with
  | error cause => rw [hopen] at hcreate; cases hcreate
  | ok opened =>
    have hwrite : ∀ file, ∃ written, opened.create plan.out file = .ok written := by
      intro file
      rw [hopen] at hcreate
      cases hagain : opened.create plan.out (.ofText "") with
      | error cause => simp [Except.bind, hagain, Except.isOk, Except.toBool] at hcreate
      | ok written => exact Workspace.create_ok_of_ok file hagain
    have hmark : ∀ unit ∈ Sample.faultyUnits, plan.accepts unit = true → ¬ unit.IsMarked := by
      have hnone : ∀ unit ∈ Sample.faultyUnits, ¬ unit.IsMarked := by decide +kernel
      exact fun unit hunit _ => hnone unit hunit
    have hbefore : ∀ earlier ∈ [Sample.mainUnit, Sample.senselessUnit], ¬ earlier.IsFaulty := by
      decide +kernel
    have hreported : Sample.reportedUnit.diagnostics ≠ [] := by decide
    have hemit := Sample.emitting_gives Sample.workspace Sample.hookedOptions Sample.faultyUnits
    obtain ⟨hresult, hmessages, hids, himports⟩ :=
      ((generateWith_fails_at_first_fault hresolve hopen hwrite hemit hmark).2 rfl).2 _ _ _ _ hunits
        hbefore (.diagnostics hreported)
    exact ⟨plan, hresolve, by decide +kernel, hresult, hmessages, hids.trans hid,
      himports.trans himport⟩

/-- **A run that breaks off without any unit at fault.** The only unit has no diagnostics and a text
that makes sense. -/
theorem generateWith_brokenOff_by_mark :
    ((Plan.resolve Sample.workspace Sample.options).map fun plan =>
      plan.accepts Sample.markedUnit) = .ok true ∧
    Sample.markedUnit.diagnostics = [] ∧ (Declaration.parse Sample.markedUnit.text).isOk = true ∧
    (generateWith (Sample.emitting [Sample.markedUnit]) Sample.workspace Sample.options).result =
      .error (.brokenOff ⟨"/work/src/a.d.ts"⟩) := by
  decide +kernel

end AmbientBundle

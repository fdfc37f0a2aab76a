import AmbientBundle.Proofs.Failures
import AmbientBundle.Proofs.Lists
import AmbientBundle.Proofs.NormalForms

/-!
# What becomes of diagnostics

A report tells of diagnostics and of the files of the program. Each diagnostic goes to the unit of
its file, the first one if the file is listed twice, and to the compilation as a whole if it names
no file or one that is not listed. Files are compared by the components of their paths. None is lost
on the way, and none is told twice.

* `unitsFrom_diagnostics`: the diagnostics of each unit, by the units before it.
* `unitsFrom_perm`: those of all units are the diagnostics of their files.
* `Compilation.Accounts`: every diagnostic has its place.
* `Report.read_listed_isNormal`, `Report.read_file_absolutized`: the paths in a report that has been
  read. They are in normal form, so that the same components are the same path, as
  `file_eq_of_fileComponents` says.
* `leftOut_of_ok`: the units of a run that succeeds.
* `no_diagnostic_lost`: **a compilation accounts for every diagnostic of its report**, and a run
  succeeds only if all of them are about files that are left out of the bundle.
-/

namespace AmbientBundle

/-! ### Units and their diagnostics -/

section Units

variable {w written : Workspace} {outDir root path : Path} {all diagnostics : List Diagnostic}
  {unit : CompilationUnit} {units : List CompilationUnit} {before paths : List Path}

/-- A unit keeps its path and its diagnostics, wherever its declarations come from. -/
theorem unitOf_eq_ok (h : unitOf w written outDir root path diagnostics = .ok unit) :
    unit.sourcePath = path ∧ unit.diagnostics = diagnostics := by
  unfold unitOf emittedUnit at h
  dsimp only at h
  split at h
  · obtain ⟨text, -, rfl⟩ := map_eq_ok.1 h
    exact ⟨rfl, rfl⟩
  · split at h
    · split at h
      · obtain ⟨text, -, rfl⟩ := map_eq_ok.1 h
        exact ⟨rfl, rfl⟩
      · cases h
        exact ⟨rfl, rfl⟩
    · cases h
      exact ⟨rfl, rfl⟩

theorem unitsFrom_cons_eq_ok
    (h : unitsFrom w written outDir root all before (path :: paths) = .ok units) :
    ∃ unit rest, units = unit :: rest ∧ unit.sourcePath = path ∧
      unit.diagnostics = diagnosticsFor all before path ∧
      unitsFrom w written outDir root all (before ++ [path]) paths = .ok rest := by
  rw [unitsFrom] at h
  obtain ⟨unit, hunit, h⟩ := bind_eq_ok.1 h
  obtain ⟨rest, hrest, h⟩ := bind_eq_ok.1 h
  obtain ⟨hpath, hdiagnostics⟩ := unitOf_eq_ok hunit
  exact ⟨unit, rest, (Except.ok.inj h).symm, hpath, hdiagnostics, hrest⟩

/-- Units stand in the order of their files. -/
theorem unitsFrom_sourcePath (h : unitsFrom w written outDir root all before paths = .ok units) :
    units.map CompilationUnit.sourcePath = paths := by
  induction paths generalizing before units with
  | nil => cases h; rfl
  | cons path paths ih =>
    obtain ⟨unit, rest, rfl, hpath, -, hrest⟩ := unitsFrom_cons_eq_ok h
    rw [List.map_cons, hpath, ih hrest]

/-- **The diagnostics of each unit**, by the files of the units before it. -/
theorem unitsFrom_diagnostics (h : unitsFrom w written outDir root all before paths = .ok units)
    {front back : List CompilationUnit} (hunits : units = front ++ unit :: back) :
    unit.diagnostics =
      diagnosticsFor all (before ++ front.map CompilationUnit.sourcePath) unit.sourcePath := by
  induction paths generalizing before units front with
  | nil => cases h; simp at hunits
  | cons path paths ih =>
    obtain ⟨first, rest, rfl, hpath, hdiagnostics, hrest⟩ := unitsFrom_cons_eq_ok h
    cases front with
    | nil =>
      obtain ⟨rfl, -⟩ := List.cons.inj hunits
      rw [hdiagnostics, hpath, List.map_nil, List.append_nil]
    | cons second front =>
      obtain ⟨rfl, hback⟩ := List.cons.inj hunits
      rw [ih hrest hback, List.map_cons, hpath, List.append_assoc]
      rfl

/-- **The diagnostics of all units** are those of their files, as far as these are not listed
before. -/
theorem unitsFrom_perm (h : unitsFrom w written outDir root all before paths = .ok units) :
    (units.flatMap CompilationUnit.diagnostics).Perm
      (all.filter fun d => d.fileComponents.any fun file =>
        (paths.map Path.components).contains file &&
          !(before.map Path.components).contains file) := by
  induction paths generalizing before units with
  | nil =>
    cases h
    rw [List.filter_eq_nil_iff.2 fun d _ => by cases d.fileComponents <;> simp]
    exact .nil
  | cons path paths ih =>
    obtain ⟨unit, rest, rfl, -, hdiagnostics, hrest⟩ := unitsFrom_cons_eq_ok h
    have hrest := ih hrest
    rw [List.map_append, List.map_singleton] at hrest
    rw [List.flatMap_cons, hdiagnostics, diagnosticsFor, List.map_cons]
    -- how a path is spelled does not matter from here on
    generalize before.map Path.components = known, path.components = first at *
    split
    · next hlisted =>
      refine hrest.trans (List.Perm.of_eq (List.filter_congr fun d _ => ?_))
      have hlisted : first ∈ known := by simpa using hlisted
      cases d.fileComponents with
      | none => rfl
      | some file => by_cases hfile : file = first <;> simp [hfile, hlisted]
    · next hlisted =>
      have hlisted : first ∉ known := by simpa using hlisted
      refine (hrest.append_left _).trans ((filter_append_filter_perm ?_).trans ?_)
      · intro d hd
        rw [eq_of_beq hd]
        simp
      · refine List.Perm.of_eq (List.filter_congr fun d _ => ?_)
        cases d.fileComponents with
        | none => rfl
        | some file => by_cases hfile : file = first <;> simp [hfile, hlisted]

end Units

/-! ### Reports and their compilations -/

/-- **Every diagnostic has its place** in a compilation. Files are told apart by the components of
their paths. -/
structure Compilation.Accounts (c : Compilation) (all : List Diagnostic) : Prop where
  /-- None is lost, and none stands in two places. -/
  perm : (c.units.flatMap CompilationUnit.diagnostics ++ c.diagnostics).Perm all
  /-- The first unit of a file has all that is said about the file. -/
  first : ∀ before unit after, c.units = before ++ unit :: after →
    unit.sourcePath.components ∉ before.map (·.sourcePath.components) →
      unit.diagnostics = all.filter fun d => d.fileComponents == some unit.sourcePath.components
  /-- Later units of the file have nothing. -/
  later : ∀ before unit after, c.units = before ++ unit :: after →
    unit.sourcePath.components ∈ before.map (·.sourcePath.components) → unit.diagnostics = []
  /-- The others are about the program, and then about files without a unit, file by file in the
  order in which these are first named. -/
  others : ∃ files : List (List Component),
    files.Pairwise (fun file file' => (all.filterMap Diagnostic.fileComponents).idxOf file <
      (all.filterMap Diagnostic.fileComponents).idxOf file') ∧
    (∀ file, file ∈ files ↔ (∃ d ∈ all, d.fileComponents = some file) ∧
      file ∉ c.units.map (·.sourcePath.components)) ∧
    c.diagnostics = (all.filter fun d => d.file.isNone) ++
      files.flatMap fun file => all.filter fun d => d.fileComponents == some file

/-- The files that diagnostics name and that are not listed, in the order in which they are first
named. -/
def unlisted (all : List Diagnostic) (listed : List Path) : List (List Component) :=
  (all.filterMap Diagnostic.fileComponents).eraseDups.filter fun file =>
    !(listed.map Path.components).contains file

theorem mem_unlisted {all : List Diagnostic} {listed : List Path} {file : List Component} :
    file ∈ unlisted all listed ↔
      (∃ d ∈ all, d.fileComponents = some file) ∧ file ∉ listed.map Path.components := by
  simp [unlisted, List.mem_filter, List.mem_eraseDups, List.mem_filterMap]

/-- What is left over is what is not about a listed file. -/
theorem remainingDiagnostics_perm (all : List Diagnostic) (listed : List Path) :
    (remainingDiagnostics all listed).Perm
      (all.filter fun d => !d.fileComponents.any (listed.map Path.components).contains) := by
  have hnodup : (unlisted all listed).Nodup := (eraseDups_nodup _).filter _
  have hgrouped := flatMap_filter_perm Diagnostic.fileComponents hnodup all
  refine (hgrouped.append_left _).trans ((filter_append_filter_perm ?_).trans ?_)
  · intro d hd
    rw [Diagnostic.fileComponents, Option.isNone_iff_eq_none.1 hd]
    rfl
  · refine List.Perm.of_eq (List.filter_congr fun d hd => ?_)
    have hnone : d.file.isNone = d.fileComponents.isNone := by simp [Diagnostic.fileComponents]
    rw [hnone]
    cases hfile : d.fileComponents with
    | none => rfl
    | some file =>
      have hmem : file ∈ unlisted all listed ↔ file ∉ listed.map Path.components :=
        mem_unlisted.trans (and_iff_right ⟨d, hd, hfile⟩)
      generalize listed.map Path.components = known at hmem ⊢
      by_cases hlisted : file ∈ known <;> simp [hmem, hlisted]

section Reports

variable {w : Workspace} {emitted : FileTree} {outDir rootDir : Path} {report : Report}
  {c : Compilation}

/-- The files of a report, as a compilation has them. -/
def Report.files (report : Report) (rootDir : Path) : List Path :=
  report.listed.map fun path => path.absolutize rootDir.normalize

theorem collectUnits_eq_ok (h : collectUnits w emitted outDir rootDir report = .ok c) :
    unitsFrom w ⟨emitted, ⟨"/"⟩⟩ outDir rootDir.normalize report.diagnostics []
        (report.files rootDir) = .ok c.units ∧
      c.diagnostics = remainingDiagnostics report.diagnostics (report.files rootDir) := by
  obtain ⟨units, hunits, h⟩ := bind_eq_ok.1 h
  cases h
  exact ⟨hunits, rfl⟩

theorem sourcePath_of_collectUnits (h : collectUnits w emitted outDir rootDir report = .ok c) :
    c.units.map CompilationUnit.sourcePath = report.files rootDir :=
  unitsFrom_sourcePath (collectUnits_eq_ok h).1

theorem accounts_of_collectUnits (h : collectUnits w emitted outDir rootDir report = .ok c) :
    c.Accounts report.diagnostics := by
  obtain ⟨hunits, hremaining⟩ := collectUnits_eq_ok h
  have hdiagnostics : ∀ before unit after, c.units = before ++ unit :: after →
      unit.diagnostics = diagnosticsFor report.diagnostics
        (before.map CompilationUnit.sourcePath) unit.sourcePath :=
    fun before unit after hc => unitsFrom_diagnostics hunits hc
  refine ⟨?_, ?_, ?_, ?_⟩
  · have hperm := (unitsFrom_perm hunits).append
      (remainingDiagnostics_perm report.diagnostics (report.files rootDir))
    rw [hremaining]
    simp only [List.map_nil, List.contains_nil, Bool.not_false, Bool.and_true] at hperm
    exact hperm.trans (List.filter_append_perm _ _)
  · intro before unit after hc hnew
    rw [hdiagnostics before unit after hc, diagnosticsFor, if_neg (by simpa using hnew)]
  · intro before unit after hc hold
    rw [hdiagnostics before unit after hc, diagnosticsFor, if_pos (by simpa using hold)]
  · refine ⟨unlisted report.diagnostics (report.files rootDir), ?_, fun file => ?_, hremaining⟩
    · exact (eraseDups_pairwise _).filter _
    · rw [mem_unlisted, ← sourcePath_of_collectUnits h, List.map_map]
      rfl

/-! ### Listed files -/

theorem Report.State.step_listed_isNormal {cwd : Path} {s : State}
    (h : ∀ path ∈ s.report.listed, path.IsNormal) (line : List Char) :
    ∀ path ∈ (s.step cwd line).report.listed, path.IsNormal := by
  unfold step
  split
  · exact h
  · split
    · exact h
    · split
      · exact h
      · dsimp only
        split
        · next habs =>
          intro path hpath
          rcases List.mem_append.1 hpath with hpath | hpath
          · exact h path hpath
          · rw [List.mem_singleton.1 hpath, Path.absolutize, if_pos habs]
            exact Path.isNormal_normalize habs
        · exact h

/-- **What every line keeps holds of the whole report.** -/
theorem Report.read_invariant {P : Report → Prop} {cwd : Path} (hempty : P .empty)
    (hstep : ∀ (s : State) (line : List Char), P s.report → P (s.step cwd line).report)
    (output : String) : P (Report.read cwd output) := by
  have hrun : ∀ (lines : List (List Char)) (s : State), P s.report →
      P (lines.foldl (State.step cwd) s).report := by
    intro lines
    induction lines with
    | nil => exact fun s h => h
    | cons line lines ih => exact fun s h => ih _ (hstep s line h)
  exact hrun _ _ hempty

/-- Listed files are in normal form. -/
theorem Report.read_listed_isNormal (cwd : Path) (output : String) :
    ∀ path ∈ (Report.read cwd output).listed, path.IsNormal := by
  refine Report.read_invariant (P := fun r => ∀ path ∈ r.listed, path.IsNormal) ?_ ?_ output
  · intro path hpath
    cases hpath
  · intro s line h
    exact State.step_listed_isNormal h line

/-! ### The files of diagnostics -/

section Shown

variable {cwd : Path} {d : Diagnostic}

/-- The file of a diagnostic is shown as a path from the directory of the compiler. -/
theorem exists_absolutize_of_readDiagnostic? {line : List Char}
    (h : readDiagnostic? cwd line = some d) :
    ∀ file ∈ d.file, ∃ shown : Path, file = shown.absolutize cwd := by
  have hlead : ∀ lead : Lead, lead.diagnostic? cwd = some d →
      ∀ file ∈ d.file, ∃ shown : Path, file = shown.absolutize cwd := by
    intro lead hlead file hfile
    obtain ⟨_, -, hd⟩ := Option.bind_eq_some_iff.1 hlead
    obtain rfl := Option.some.inj hd
    exact ⟨_, (Option.some.inj hfile).symm⟩
  unfold readDiagnostic? at h
  split at h
  · -- a diagnostic about the whole program names no file
    intro file hfile
    obtain ⟨_, -, hd⟩ := Option.bind_eq_some_iff.1 h
    obtain rfl := Option.some.inj hd
    cases hfile
  · dsimp only at h
    split at h
    · next diagnostic hfound =>
      obtain rfl := Option.some.inj h
      obtain ⟨lead, -, hdiagnostic⟩ := Option.bind_eq_some_iff.1 hfound
      exact hlead lead hdiagnostic
    · obtain ⟨lead, -, hdiagnostic⟩ := Option.bind_eq_some_iff.1 h
      exact hlead lead hdiagnostic

/-- A further line belongs to a diagnostic about the same file. -/
theorem Report.exists_of_mem_extendLast {line : List Char} {ds : List Diagnostic}
    (h : d ∈ extendLast line ds) : ∃ before ∈ ds, d.file = before.file := by
  induction ds with
  | nil => cases h
  | cons first ds ih =>
    cases ds with
    | nil =>
      rw [extendLast, List.mem_singleton] at h
      exact ⟨first, List.mem_cons_self, by rw [h]⟩
    | cons second ds =>
      have hmem : d ∈ first :: extendLast line (second :: ds) := h
      rcases List.mem_cons.1 hmem with rfl | h
      · exact ⟨d, List.mem_cons_self, rfl⟩
      · obtain ⟨before, hbefore, hfile⟩ := ih h
        exact ⟨before, List.mem_cons_of_mem _ hbefore, hfile⟩

/-- A line keeps the diagnostics, and may add one or go on with the last. -/
theorem Report.State.exists_of_mem_step {s : State} {line : List Char}
    (h : d ∈ (s.step cwd line).report.diagnostics) :
    readDiagnostic? cwd line = some d ∨ ∃ before ∈ s.report.diagnostics, d.file = before.file := by
  unfold step at h
  split at h
  · exact Or.inr ⟨d, h, rfl⟩
  · split at h
    · next found hfound =>
      rcases List.mem_append.1 h with h | h
      · exact Or.inr ⟨d, h, rfl⟩
      · rw [List.mem_singleton.1 h]
        exact Or.inl hfound
    · split at h
      · exact Or.inr (Report.exists_of_mem_extendLast h)
      · dsimp only at h
        split at h
        · exact Or.inr ⟨d, h, rfl⟩
        · exact Or.inr ⟨d, h, rfl⟩

/-- **The files of diagnostics** are paths read from the directory of the compiler. -/
theorem Report.read_file_absolutized (cwd : Path) (output : String) :
    ∀ d ∈ (Report.read cwd output).diagnostics, ∀ file ∈ d.file,
      ∃ shown : Path, file = shown.absolutize cwd := by
  refine Report.read_invariant (P := fun r => ∀ d ∈ r.diagnostics, ∀ file ∈ d.file,
    ∃ shown : Path, file = shown.absolutize cwd) ?_ ?_ output
  · intro d hd
    cases hd
  · intro s line hs d hd
    rcases State.exists_of_mem_step hd with hread | ⟨before, hbefore, hfile⟩
    · exact exists_absolutize_of_readDiagnostic? hread
    · rw [hfile]
      exact hs before hbefore

end Shown

/-! ### Runs -/

theorem runCompiler_eq_ok {compiler : Path} {r : Request}
    (h : runCompiler w compiler r = .ok (report, emitted)) :
    ∃ output, report = Report.read r.rootDir output := by
  unfold runCompiler at h
  split at h
  · cases h
  · split at h
    · cases h
    · next program _ =>
      obtain ⟨_, hreport, hpair⟩ := map_eq_ok.1 h
      cases hpair
      unfold Program.report at hreport
      dsimp only at hreport
      split at hreport
      · cases hreport
      · exact ⟨_, (Except.ok.inj hreport).symm⟩

/-- The files of a report are the listed ones. -/
theorem files_of_runCompiler {compiler : Path} {r : Request}
    (h : runCompiler w compiler r = .ok (report, emitted)) (rootDir : Path) :
    report.files rootDir = report.listed := by
  obtain ⟨output, rfl⟩ := runCompiler_eq_ok h
  exact (List.map_congr_left fun path hpath =>
    Path.absolutize_of_isNormal (Report.read_listed_isNormal _ _ path hpath)).trans (List.map_id _)

/-- A diagnostic is about a listed file already if it is about one with the same components. -/
theorem file_eq_of_fileComponents {compiler : Path} {r : Request}
    (h : runCompiler w compiler r = .ok (report, emitted)) {d : Diagnostic}
    (hd : d ∈ report.diagnostics) {path : Path} (hpath : path ∈ report.listed)
    (hcomponents : d.fileComponents = some path.components) : d.file = some path := by
  obtain ⟨output, rfl⟩ := runCompiler_eq_ok h
  obtain ⟨file, hfile, heq⟩ := Option.map_eq_some_iff.1 hcomponents
  obtain ⟨shown, rfl⟩ := Report.read_file_absolutized _ output d hd file hfile
  -- both paths are in normal form, the first one even if it is not absolute
  have hlisted := Report.read_listed_isNormal _ output path hpath
  rw [hfile, Path.eq_of_components (Path.normalize_absolutize _ _) hlisted.normalized heq]

variable {opened : Workspace} {plan : Plan} {o : Options} {emit : Emitter}

/-- **A run succeeds only if all diagnostics are about files that are left out.** -/
theorem leftOut_of_ok (hplan : Plan.resolve w o = .ok plan)
    (hopen : w.create plan.out (.ofText "") = .ok opened)
    (hemit : emit opened (plan.request o) = .ok c)
    (hok : (generateWith emit w o).result = .ok ()) :
    c.diagnostics = [] ∧
      ∀ unit ∈ c.units, unit.diagnostics ≠ [] → plan.accepts unit = false := by
  have hgives : emit.Gives w o c := by
    intro plan' opened' hplan' hopen'
    cases hplan.symm.trans hplan'
    cases hopen.symm.trans hopen'
    exact hemit
  rw [generateWith_eq_finish hplan hopen hgives] at hok
  have hfault := (of_finish_ok hok).1
  have hnone := diagnostics_eq_nil_of_fault hfault
  rw [progressOf_eq hnone, contributions_fault_eq_none] at hfault
  refine ⟨hnone, fun unit hunit hdiagnostics => ?_⟩
  by_contra haccept
  obtain ⟨added, hadded⟩ := hfault unit
    (List.mem_filter.2 ⟨hunit, Bool.eq_true_of_not_eq_false haccept⟩)
  rw [BundleContext.contribution_of_hasFault (.diagnostics hdiagnostics)] at hadded
  cases hadded

end Reports

/-- **No diagnostic is lost.** A compilation accounts for every diagnostic of its report, whatever the
report tells of. So a run succeeds only if every diagnostic is about a file of the program that lies
outside of the base directory or is excluded. -/
theorem no_diagnostic_lost :
    (∀ {w : Workspace} {emitted : FileTree} {outDir rootDir : Path} {report : Report}
      {c : Compilation}, collectUnits w emitted outDir rootDir report = .ok c →
        c.units.map CompilationUnit.sourcePath =
            report.listed.map (fun path => path.absolutize rootDir.normalize) ∧
          c.Accounts report.diagnostics) ∧
    ∀ {w : Workspace} {o : Options} {plan : Plan} {compiler outDir : Path},
      Plan.resolve w o = .ok plan →
      (generateWith (fun w r => compile w compiler outDir r) w o).result = .ok () →
      ∃ opened report emitted, w.create plan.out (.ofText "") = .ok opened ∧
        runCompiler opened compiler (plan.request o) = .ok (report, emitted) ∧
        ∀ d ∈ report.diagnostics, ∃ file ∈ report.listed, d.file = some file ∧
          (file.startsWith plan.baseDir = false ∨ plan.excludes.excludes file = true) := by
  refine ⟨fun h => ⟨sourcePath_of_collectUnits h, accounts_of_collectUnits h⟩, ?_⟩
  intro w o plan compiler outDir hplan hok
  obtain ⟨opened, hopen⟩ := exists_opened hplan hok
  obtain ⟨c, hc⟩ := exists_compilation hplan hopen hok
  obtain ⟨hnone, hleftOut⟩ := leftOut_of_ok hplan hopen hc hok
  obtain ⟨⟨report, emitted⟩, hrun, hcollect⟩ := bind_eq_ok.1 hc
  refine ⟨opened, report, emitted, hopen, hrun, fun d hd => ?_⟩
  have haccounts := accounts_of_collectUnits hcollect
  -- nothing is about the program as a whole, so that the diagnostic stands at a unit
  have hmem := haccounts.perm.mem_iff.2 hd
  rw [hnone, List.append_nil, List.mem_flatMap] at hmem
  obtain ⟨unit, hunit, hdunit⟩ := hmem
  obtain ⟨before, after, hsplit⟩ := List.append_of_mem hunit
  have hcomponents : d.fileComponents = some unit.sourcePath.components := by
    by_cases hnew : unit.sourcePath.components ∈ before.map (·.sourcePath.components)
    · rw [haccounts.later before unit after hsplit hnew] at hdunit
      cases hdunit
    · rw [haccounts.first before unit after hsplit hnew] at hdunit
      exact eq_of_beq (List.mem_filter.1 hdunit).2
  have hlisted : unit.sourcePath ∈ report.listed := by
    rw [← files_of_runCompiler hrun (plan.request o).rootDir, ← sourcePath_of_collectUnits hcollect]
    exact List.mem_map_of_mem hunit
  refine ⟨unit.sourcePath, hlisted, file_eq_of_fileComponents hrun hd hlisted hcomponents, ?_⟩
  have haccept := hleftOut unit hunit (List.ne_nil_of_mem hdunit)
  simpa [Plan.accepts, imp_iff_not_or] using haccept

/-! ### Small reports -/

namespace Sample

/-- A diagnostic about a file. -/
def about (file : String) (line : Nat) : Diagnostic :=
  ⟨some ⟨file⟩, line, 1, "TS1005", "';' expected.", .error⟩

/-- A diagnostic about the program. -/
def aboutProgram : Diagnostic := ⟨none, 0, 0, "TS18003", "No inputs were found.", .error⟩

/-- A report that lists a file twice, once from the base directory on, and tells of two files that are
not listed, in turns. Files are spelled in two ways. -/
def report : Report where
  diagnostics := [about "/x.ts" 1, about "/work/src/a.ts" 2, about "/y.ts" 3, aboutProgram,
    about "//./x.ts" 4, about "/work/./src//a.ts" 5]
  listed := [⟨"/work/src/a.ts"⟩, ⟨"/work/src/b.ts"⟩, ⟨"../src/a.ts"⟩]

/-- A workspace with a compiler that fails, with a diagnostic about a file outside of the base
directory. -/
def failing : Workspace :=
  let output := "/work/lib/b.ts\n/work/lib/b.ts(2,1): error TS1005: ';' expected.\n"
  let program : Program := ⟨output.toList.map fun c => c.toNat.toUInt8, [], [], some 2⟩
  ⟨.directory [("work", .directory [("src", .directory []),
    ("tsc", .file ⟨.text "", true, some program⟩)])], ⟨"/work"⟩⟩

end Sample

theorem no_diagnostic_lost_sample :
    (∃ c, collectUnits Sample.workspace .empty ⟨"/out"⟩ ⟨"/work/src"⟩ Sample.report = .ok c ∧
      c.units.map CompilationUnit.diagnostics =
        [[Sample.about "/work/src/a.ts" 2, Sample.about "/work/./src//a.ts" 5], [], []] ∧
      c.diagnostics = [Sample.aboutProgram, Sample.about "/x.ts" 1, Sample.about "//./x.ts" 4,
        Sample.about "/y.ts" 3] ∧
      c.Accounts Sample.report.diagnostics) ∧
    ∃ plan opened report emitted,
      Plan.resolve Sample.failing Sample.options = .ok plan ∧
      Sample.failing.create plan.out (.ofText "") = .ok opened ∧
      runCompiler opened ⟨"/work/tsc"⟩ (plan.request Sample.options) = .ok (report, emitted) ∧
      report.diagnostics = [Sample.about "/work/lib/b.ts" 2] ∧
      ∀ d ∈ report.diagnostics, ∃ file ∈ report.listed, d.file = some file ∧
        (file.startsWith plan.baseDir = false ∨ plan.excludes.excludes file = true) := by
  constructor
  · have hcheck : (collectUnits Sample.workspace .empty ⟨"/out"⟩ ⟨"/work/src"⟩ Sample.report).map
        (fun c => (c.units.map CompilationUnit.diagnostics, c.diagnostics)) =
          .ok ([[Sample.about "/work/src/a.ts" 2, Sample.about "/work/./src//a.ts" 5], [], []],
            [Sample.aboutProgram, Sample.about "/x.ts" 1, Sample.about "//./x.ts" 4,
              Sample.about "/y.ts" 3]) := by decide +kernel
    obtain ⟨c, hc, hparts⟩ := map_eq_ok.1 hcheck
    exact ⟨c, hc, congrArg Prod.fst hparts, congrArg Prod.snd hparts, (no_diagnostic_lost.1 hc).2⟩
  · have hplanned : (Plan.resolve Sample.failing Sample.options).map (fun _ => ()) = .ok () := by
      decide +kernel
    obtain ⟨plan, hplan, -⟩ := map_eq_ok.1 hplanned
    have hok : (generateWith (fun w r => compile w ⟨"/work/tsc"⟩ ⟨"/out"⟩ r) Sample.failing
        Sample.options).result = .ok () := by decide +kernel
    obtain ⟨opened, report, emitted, hopen, hrun, hleftOut⟩ := no_diagnostic_lost.2 hplan hok
    have hreport : ((Plan.resolve Sample.failing Sample.options).toOption.bind fun plan =>
        (Sample.failing.create plan.out (.ofText "")).toOption.bind fun opened =>
          (runCompiler opened ⟨"/work/tsc"⟩ (plan.request Sample.options)).toOption.map fun run =>
            run.1.diagnostics) = some [Sample.about "/work/lib/b.ts" 2] := by decide +kernel
    rw [hplan, Except.toOption, Option.bind_some, hopen, Except.toOption, Option.bind_some,
      hrun] at hreport
    exact ⟨plan, opened, report, emitted, hplan, hopen, hrun, Option.some.inj hreport, hleftOut⟩

end AmbientBundle

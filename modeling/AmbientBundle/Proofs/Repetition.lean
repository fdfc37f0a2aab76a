import AmbientBundle.Proofs.Projects

/-!
# Running twice

A run leaves its output behind, and a second run finds it. The second run does the same as the first
if it comes to the same plan, and the plan depends on the files through the project alone: on the
configuration files that are read, on the paths that were tried in vain for one, and on the files
that the patterns of the project take in.

* `loadSettings_of_same`: settings are loaded again from the same files.
* `inputFiles_create`: the input files after a file was created.
* `LeavesAlone`: what a project must not have to do with the output.
* `Plan.resolve_create`: the plan after a file was created.
* `generateWith_repeated`: **a second run does what the first did**, if the output is no part of the
  project.
-/

open AmbientBundle.Path

namespace AmbientBundle

open FileTree

namespace Project

variable {w w' : Workspace} {path dir out : Path} {settings : Settings}

/-! ### Configuration files -/

/-- **The configuration files that are read** with a file: itself, and all that it starts from. -/
inductive Uses (w : Workspace) : Path → Path → Prop
  | self (path : Path) : Uses w path path
  | parent {path up used : Path} {file : ConfigFile} {name : String} :
      readConfig w path = .ok file → name ∈ file.parents →
        parentPath? w (directoryOf path) name = some up → Uses w up used → Uses w path used

/-- **The paths that are tried in vain** while a file is read, with all that it starts from. -/
def Misses (w : Workspace) (path missed : Path) : Prop :=
  ∃ used file name, Uses w path used ∧ readConfig w used = .ok file ∧ name ∈ file.parents ∧
    missed ∈ (tried (directoryOf used) name).takeWhile fun p => !w.isFile p

/-- **Settings are loaded again from the same files**, as long as each file that is read says the
same and starts from the same files. -/
theorem loadSettings_of_same
    (hread : ∀ used file, Uses w path used → readConfig w used = .ok file →
      readConfig w' used = .ok file)
    (hfind : ∀ used file name up, Uses w path used → readConfig w used = .ok file →
      name ∈ file.parents → parentPath? w (directoryOf used) name = some up →
      parentPath? w' (directoryOf used) name = some up)
    {n m : Nat} (hnm : n ≤ m) {chain : List Path} (h : loadSettings w n chain path = .ok settings) :
    loadSettings w' m chain path = .ok settings := by
  induction n generalizing path chain settings m with
  | zero => cases h
  | succ n ih =>
    obtain ⟨m, rfl⟩ : ∃ k, m = k + 1 := ⟨m - 1, by omega⟩
    obtain ⟨hchain, file, inherited, hfile, hinherited, rfl⟩ := loadSettings_eq_ok.1 h
    refine loadSettings_eq_ok.2
      ⟨hchain, file, inherited, hread path file (.self path) hfile, ?_, rfl⟩
    refine foldlM_of_steps (fun name hname under result hstep => ?_) hinherited
    obtain ⟨up, above, hup, habove, rfl⟩ := inheritFrom_eq_ok.1 hstep
    refine inheritFrom_eq_ok.2
      ⟨up, above, hfind path file name up (.self path) hfile hname hup, ?_, rfl⟩
    exact ih (fun used file huses => hread used file (.parent hfile hname hup huses))
      (fun used file name up' huses => hfind used file name up' (.parent hfile hname hup huses))
      (by omega) habove

/-! ### Paths of a project -/

theorem Uses.isNormal {used : Path} (h : Uses w path used) (hpath : path.IsNormal) :
    used.IsNormal := by
  induction h with
  | self path => exact hpath
  | parent hfile _ hup _ ih =>
    exact ih (isNormal_of_parentPath? (isNormal_directoryOf hpath hfile) hup)

/-! ### Input files -/

/-- **A file that the patterns of a project take in**, from its configuration in a directory. -/
def TakesIn (w : Workspace) (settings : Settings) (dir path : Path) : Prop :=
  ∃ includes taken left, includesOf settings dir = some includes ∧
    readPatterns .takeIn includes.patterns = .ok taken ∧
    readPatterns .leaveOut (excludesOf settings dir).patterns = .ok left ∧
    path ∈ w.filesBelow (fun p => !isLeftOut settings.outDir (excludesOf settings dir).dir left p)
      includes.dir ∧
    isTakenIn includes.dir taken path = true

section Created

variable {names : List String} {file : File}

/-- **The input files after a file was created** are the same, unless the patterns take it in as a
new one. -/
theorem inputFiles_create (hroot : w.tree.isDirectory = true) (hordered : w.tree.isOrdered = true)
    (hne : names ≠ []) (hnames : ∀ n ∈ names, IsName n)
    (hcreate : w.create (ofNames names) file = .ok w')
    (hincludes : ∀ includes, includesOf settings dir = some includes → includes.dir.IsNormal)
    (hkeeps : w.isFile (ofNames names) = true ∨ ofNames names ∈ settings.files.getD [] ∨
      ¬ TakesIn w' settings dir (ofNames names))
    {files : List Path} (h : inputFiles w settings dir = .ok files) :
    inputFiles w' settings dir = .ok files := by
  rw [inputFiles_eq_ok] at h ⊢
  rcases h with hnone | ⟨includes, taken, left, hsome, htaken, hleft, rfl⟩
  · exact Or.inl hnone
  · refine Or.inr ⟨includes, taken, left, hsome, htaken, hleft, ?_⟩
    generalize hkeep :
      (fun p => !isLeftOut settings.outDir (excludesOf settings dir).dir left p) = keep
    rcases Workspace.filesBelow_create hroot hordered hne hnames hcreate (hincludes includes hsome)
      keep with hsame | ⟨hnew, l, r, hbefore, hafter⟩
    · rw [hsame]
    · rw [hbefore, hafter, List.filter_append, List.filter_append, List.map_append, List.map_append]
      by_cases hpasses : isTakenIn includes.dir taken (ofNames names) = true
      · -- the file is taken in, so it was named already
        have htakes : TakesIn w' settings dir (ofNames names) := by
          refine ⟨includes, taken, left, hsome, htaken, hleft, ?_, hpasses⟩
          rw [hkeep, hafter]
          exact List.mem_append_right _ List.mem_cons_self
        have hnamed : ofNames names ∈ settings.files.getD [] := by
          rcases hkeeps with hfile | hnamed | hnot
          · rw [hnew] at hfile
            cases hfile
          · exact hnamed
          · exact absurd htakes hnot
        rw [List.filter_cons_of_pos hpasses, List.map_cons, normalize_ofNames hnames]
        exact (eraseDups_gains hnamed ⟨_, _, rfl, rfl⟩).symm
      · rw [List.filter_cons_of_neg hpasses]

/-- There are not fewer files afterwards. -/
theorem fuel_create (hroot : w.tree.isDirectory = true) (hordered : w.tree.isOrdered = true)
    (hne : names ≠ []) (hnames : ∀ n ∈ names, IsName n)
    (hcreate : w.create (ofNames names) file = .ok w') : Config.fuel w ≤ Config.fuel w' := by
  have hcwd := (Workspace.keeps_create hne hnames hcreate).cwd
  have hroot_normal : (Path.mk "/").IsNormal := by decide
  have hlength : (w.filesBelow (fun _ => true) ⟨"/"⟩).length ≤
      (w'.filesBelow (fun _ => true) ⟨"/"⟩).length := by
    rcases Workspace.filesBelow_create hroot hordered hne hnames hcreate hroot_normal
      fun _ => true with hsame | ⟨-, l, r, hbefore, hafter⟩
    · rw [hsame]
    · rw [hbefore, hafter, List.length_append, List.length_append, List.length_cons]
      omega
  unfold Config.fuel
  rw [hcwd]
  exact Nat.mul_le_mul_right _ (by omega)

/-- **What a project must not have to do with a file that is created**: it is not one of its
configuration files, it is found nowhere where one was looked for in vain, and the patterns do not
take it in as a new file. -/
structure LeavesAlone (w w' : Workspace) (path out : Path) : Prop where
  not_used : ¬ Uses w path out
  not_missed : ∀ missed, Misses w path missed → w'.isFile missed = false
  not_taken : ∀ settings, loadSettings w (Config.fuel w) [] path = .ok settings →
    w.isFile out = true ∨ out ∈ settings.files.getD [] ∨
      ¬ TakesIn w' settings (directoryOf path) out

/-- **The settings after a file was created.** -/
theorem loadSettings_create (hroot : w.tree.isDirectory = true) (hordered : w.tree.isOrdered = true)
    (hne : names ≠ []) (hnames : ∀ n ∈ names, IsName n)
    (hcreate : w.create (ofNames names) file = .ok w') (hpath : path.IsNormal)
    (halone : LeavesAlone w w' path (ofNames names))
    (h : loadSettings w (Config.fuel w) [] path = .ok settings) :
    loadSettings w' (Config.fuel w') [] path = .ok settings := by
  have hkept := Workspace.keeps_create hne hnames hcreate
  refine loadSettings_of_same ?_ ?_ (fuel_create hroot hordered hne hnames hcreate) h
  · intro used config huses hconfig
    have hother : used ≠ ofNames names := fun heq => halone.not_used (heq ▸ huses)
    unfold readConfig at hconfig ⊢
    cases htext : w.readText used with
    | error cause => rw [htext] at hconfig; cases hconfig
    | ok text =>
      rw [htext] at hconfig
      rw [Workspace.readText_create_of_ne hroot hne hnames hcreate (huses.isNormal hpath)
        hother htext]
      exact hconfig
  · intro used config name up huses hconfig hname hup
    rw [parentPath?_eq] at hup ⊢
    obtain ⟨found, hfound, rfl⟩ := Option.map_eq_some_iff.1 hup
    obtain ⟨hfile, before, after, htried, hbefore⟩ := List.find?_eq_some_iff_append.1 hfound
    -- the paths before the one that was found have no file now either
    have hmissed : ∀ p ∈ before, (!w'.isFile p) = true := by
      intro p hp
      have hmisses : Misses w path p := by
        refine ⟨used, config, name, huses, hconfig, hname, ?_⟩
        rw [htried, List.takeWhile_append_of_pos hbefore]
        exact List.mem_append_left _ hp
      rw [halone.not_missed p hmisses]
      rfl
    rw [List.find?_eq_some_iff_append.2 ⟨hkept.isFile hfile, before, after, htried, hmissed⟩]
    rfl

/-- The configuration file of a project is found again. -/
theorem find?_create (hkept : w.Keeps w') {project : Path}
    (h : Config.find? w project = some path) : Config.find? w' project = some path := by
  unfold Config.find? at h ⊢
  dsimp only at h ⊢
  by_cases hdir : w.isDirectory project = true
  · rw [if_pos hdir] at h
    rw [if_pos (hkept.isDirectory hdir)]
    split at h
    · next hfile => rw [if_pos (hkept.isFile hfile)]; exact h
    · cases h
  · rw [if_neg hdir] at h
    split at h
    · next hfile =>
      have hfile' := hkept.isFile hfile
      -- a file is no directory
      have hdir' : ¬ w'.isDirectory project = true := by
        rw [Workspace.isDirectory_iff]
        rintro ⟨entries, hentries⟩
        obtain ⟨f, hf⟩ := Workspace.isFile_iff.1 hfile'
        rw [hentries] at hf
        cases hf
      rw [if_neg hdir', if_pos hfile']
      exact h
    · cases h

/-- **A project is loaded again** after a file was created that it has nothing to do with. -/
theorem load_create (hroot : w.tree.isDirectory = true) (hordered : w.tree.isOrdered = true)
    (hne : names ≠ []) (hnames : ∀ n ∈ names, IsName n)
    (hcreate : w.create (ofNames names) file = .ok w') (hpath : path.IsNormal)
    (halone : LeavesAlone w w' path (ofNames names)) {config : Config}
    (h : Config.load w path = .ok config) : Config.load w' path = .ok config := by
  rw [load_eq_ok, hpath.normalized] at h ⊢
  obtain ⟨settings, hsettings, target, htarget, resolution, hresolution, files, hfiles, rfl⟩ := h
  exact ⟨settings, loadSettings_create hroot hordered hne hnames hcreate hpath halone hsettings,
    target, htarget, resolution, hresolution, files,
    inputFiles_create hroot hordered hne hnames hcreate (isNormal_includesOf hpath hsettings)
      (halone.not_taken settings hsettings) hfiles, rfl⟩

end Created

/-! ### Checking -/

/-- The files that are read are among those of a list that has, with a file, all that it starts
from. -/
theorem Uses.mem_known {known : List Path} {used : Path} (h : Uses w path used)
    (hclosed : ∀ p ∈ known, ∀ file, readConfig w p = .ok file → ∀ name ∈ file.parents,
      ∀ up, parentPath? w (directoryOf p) name = some up → up ∈ known)
    (hpath : path ∈ known) : used ∈ known := by
  induction h with
  | self path => exact hpath
  | parent hfile hname hup _ ih => exact ih (hclosed _ hpath _ hfile _ hname _ hup)

/-- Whether a known configuration file starts from known ones only, and is looked for nowhere where
there is a file later. -/
def startsFromKnown (w w' : Workspace) (known : List Path) (used : Path) : Bool :=
  match readConfig w used with
  | .error _ => true
  | .ok config => config.parents.all fun name =>
    ((parentPath? w (directoryOf used) name).all fun up => decide (up ∈ known)) &&
      ((tried (directoryOf used) name).takeWhile fun p => !w.isFile p).all fun p => !w'.isFile p

theorem startsFromKnown_iff {known : List Path} {used : Path} :
    startsFromKnown w w' known used = true ↔
      ∀ config, readConfig w used = .ok config → ∀ name ∈ config.parents,
        (∀ up, parentPath? w (directoryOf used) name = some up → up ∈ known) ∧
        ∀ p ∈ (tried (directoryOf used) name).takeWhile (fun p => !w.isFile p),
          w'.isFile p = false := by
  unfold startsFromKnown
  cases readConfig w used with
  | error fault => simp
  | ok config => simp [Option.all_eq_true]

/-- Whether patterns take a path in, wherever they are looked for. -/
def passes (settings : Settings) (dir path : Path) : Bool :=
  match includesOf settings dir with
  | none => false
  | some includes =>
    match readPatterns .takeIn includes.patterns with
    | .error _ => false
    | .ok taken => isTakenIn includes.dir taken path

theorem TakesIn.passes (h : TakesIn w settings dir path) : passes settings dir path = true := by
  obtain ⟨includes, taken, left, hincludes, htaken, -, -, hpasses⟩ := h
  unfold Project.passes
  rw [hincludes]
  dsimp only
  rw [htaken]
  exact hpasses

/-- **A project has nothing to do with a file** if all its configuration files are known, and no
pattern takes the file in. -/
theorem leavesAlone_of_known {known : List Path} (hpath : path ∈ known) (hout : out ∉ known)
    (hstarts : ∀ used ∈ known, startsFromKnown w w' known used = true)
    (hpasses : ∀ settings, loadSettings w (Config.fuel w) [] path = .ok settings →
      passes settings (directoryOf path) out = false) : LeavesAlone w w' path out := by
  have hused : ∀ used, Uses w path used → used ∈ known := fun used h =>
    h.mem_known (fun p hp file hfile name hname =>
      (startsFromKnown_iff.1 (hstarts p hp) file hfile name hname).1) hpath
  refine ⟨fun h => hout (hused out h), ?_, ?_⟩
  · rintro missed ⟨used, file, name, huses, hfile, hname, hmissed⟩
    have hstart := startsFromKnown_iff.1 (hstarts used (hused used huses)) file hfile name hname
    exact hstart.2 missed hmissed
  · intro settings hsettings
    refine Or.inr (Or.inr fun htakes => ?_)
    have hfails := hpasses settings hsettings
    rw [htakes.passes] at hfails
    cases hfails

end Project

/-! ### Runs -/

section Runs

variable {emit : Emitter} {w w' : Workspace} {plan : Plan} {o : Options} {names : List String}
  {file : File}

/-- A plan depends on the files through the project alone. -/
theorem Plan.resolve_congr (hcwd : w'.cwd = w.cwd) (hproject : loadProject w' o = loadProject w o) :
    resolve w' o = resolve w o := by
  unfold resolve baseOf
  rw [hproject, hcwd]

/-- **The project of a run after a file was created** that it has nothing to do with. -/
theorem Plan.loadProject_create (hw : w.IsRooted) (hordered : w.tree.isOrdered = true)
    (hne : names ≠ []) (hnames : ∀ n ∈ names, IsName n)
    (hcreate : w.create (ofNames names) file = .ok w') {config : Option Project.Config}
    (halone : ∀ path, config.map Project.Config.path = some path →
      Project.LeavesAlone w w' path (ofNames names))
    (h : loadProject w o = .ok config) : loadProject w' o = .ok config := by
  by_cases hproject : (o.project.isSome || o.files.isEmpty) = true
  · have hkept := Workspace.keeps_create hne hnames hcreate
    rw [Plan.loadProject_eq_ok hproject] at h ⊢
    obtain ⟨location, path, loaded, hlocation, hfind, hload, rfl⟩ := h
    have hpath := Project.isNormal_find? hw.cwd_absolute hlocation hfind
    have hsame : loaded.path = path := by
      obtain ⟨-, -, -, -, -, -, -, -, rfl⟩ := Project.load_eq_ok.1 hload
      exact hpath.normalized
    refine ⟨location, path, loaded, ?_, Project.find?_create hkept hfind, ?_, rfl⟩
    · rw [hkept.cwd]
      exact hlocation
    · exact Project.load_create hw.root_directory hordered hne hnames hcreate hpath
        (halone path (congrArg some hsame)) hload
  · unfold loadProject at h ⊢
    rw [if_neg hproject] at h ⊢
    exact h

/-- **The plan after a file was created** that the project has nothing to do with. -/
theorem Plan.resolve_create (hw : w.IsRooted) (hordered : w.tree.isOrdered = true)
    (hne : names ≠ []) (hnames : ∀ n ∈ names, IsName n)
    (hcreate : w.create (ofNames names) file = .ok w')
    (halone : ∀ path, plan.project = some path → Project.LeavesAlone w w' path (ofNames names))
    (h : resolve w o = .ok plan) : resolve w' o = .ok plan := by
  obtain ⟨config, hconfig, hproject, -⟩ := Plan.of_resolve h
  rw [hproject] at halone
  have hagain := Plan.loadProject_create hw hordered hne hnames hcreate halone hconfig
  have hcwd := (Workspace.keeps_create hne hnames hcreate).cwd
  rw [Plan.resolve_congr hcwd (hagain.trans hconfig.symm), h]

/-- **What a run that succeeds does with its output**: it opens it, and writes its text over it. -/
theorem exists_written (hplan : Plan.resolve w o = .ok plan)
    (hok : (generateWith emit w o).result = .ok ()) :
    ∃ opened text, w.create plan.out (.ofText "") = .ok opened ∧
      opened.create plan.out (.ofText text) = .ok (generateWith emit w o).workspace := by
  obtain ⟨opened, hopen⟩ := exists_opened hplan hok
  obtain ⟨c, hc⟩ := exists_compilation hplan hopen hok
  have hemit : emit.Gives w o c := by
    intro plan' opened' hplan' hopen'
    obtain rfl := Except.ok.inj (hplan.symm.trans hplan')
    obtain rfl := Except.ok.inj (hopen.symm.trans hopen')
    exact hc
  have hfinish := hok
  rw [generateWith_eq_finish hplan hopen hemit] at hfinish
  obtain ⟨hfault, _, _, hwrite⟩ := of_finish_ok hfinish
  obtain ⟨written, hwritten⟩ := Workspace.create_ok_of_ok
    (.ofText (bundleText plan o (progressOf plan o c).added)) hwrite
  have hend :=
    finish_of_fault_eq_none (openingMessages plan o) [plan.request o] hfault hwritten
  rw [generateWith_eq_finish hplan hopen hemit, hend.2]
  exact ⟨opened, _, hopen, hwritten⟩

/-- Two runs of one plan that open their output alike are the same. -/
theorem generateWith_congr {opened : Workspace} (hplan : Plan.resolve w o = .ok plan)
    (hplan' : Plan.resolve w' o = .ok plan) (hopen : w.create plan.out (.ofText "") = .ok opened)
    (hopen' : w'.create plan.out (.ofText "") = .ok opened) :
    generateWith emit w' o = generateWith emit w o := by
  unfold generateWith execute
  rw [hplan, hplan']
  dsimp only
  rw [hopen, hopen']

/-- **A second run does what the first did**, whatever compiles: it comes to the same result with
the same messages, asks for the same compilation, calls the hooks in the same way and leaves the
same files, which are in order again. If files are asked for, the output may lie anywhere. If a
project is, the output must not be one of its configuration files, nor be found where one was looked
for, nor be a new file for its patterns. -/
theorem generateWith_repeated (hw : w.IsRooted) (hordered : w.tree.isOrdered = true)
    (hplan : Plan.resolve w o = .ok plan) (hok : (generateWith emit w o).result = .ok ())
    (halone : ∀ path, plan.project = some path →
      Project.LeavesAlone w (generateWith emit w o).workspace path plan.out) :
    (generateWith emit w o).workspace.tree.isOrdered = true ∧
      generateWith emit (generateWith emit w o).workspace o = generateWith emit w o := by
  obtain ⟨opened, text, hopen, hwrite⟩ := exists_written hplan hok
  generalize (generateWith emit w o).workspace = w' at halone hwrite ⊢
  have hout : plan.out.IsNormal := by
    rw [Plan.out_of_resolve hplan]
    exact absolutize_isNormal hw.cwd_absolute
  obtain ⟨names, hnames, hname⟩ := isNormal_iff.1 hout
  rw [hname] at halone
  have hopen' := hopen
  rw [hname] at hopen' hwrite
  have hne : names ≠ [] := by
    have hsome := Workspace.namesOf_ne_nil hw.root_directory hopen'
    rwa [Workspace.namesOf_ofNames hnames] at hsome
  have hcreate := Workspace.create_over hne hnames hopen' hwrite
  refine ⟨Workspace.isOrdered_create hne hnames hordered hcreate,
    generateWith_congr hplan ?_ hopen ?_⟩
  · exact Plan.resolve_create hw hordered hne hnames hcreate halone hplan
  · rw [hname]
    exact Workspace.create_restored hne hnames hopen' hwrite

end Runs

/-! ### A small project -/

namespace Sample

/-- A project that starts from another file. -/
def project : Workspace where
  tree := .directory [("p", .directory [
    ("a.ts", .file (.ofText "")),
    ("b.json", .file (.ofText "\x7b\x7d")),
    ("tsconfig.json", .file (.ofText "\x7b\"extends\":\"./b\"\x7d"))])]
  cwd := ⟨"/p"⟩

/-- The configuration files of the project. -/
def projectFiles : List Path := [⟨"/p/tsconfig.json"⟩, ⟨"/p/b.json"⟩]

/-- The module of the project. -/
def projectUnit : CompilationUnit := .emitted ⟨"/p/a.ts"⟩ ⟨"/p/a.d.ts"⟩ "" []

/-- The bundle of the project, at some place. -/
def projectOptions (out : String) : Options :=
  { options with
    baseDir := none
    project := some ⟨"/p"⟩
    files := []
    externs := []
    main := none
    out := ⟨out⟩ }

/-- The run that bundles the project. -/
def projectRun (w : Workspace) (out : String) : Outcome :=
  generateWith (emitting [projectUnit]) w (projectOptions out)

end Sample

theorem generateWith_repeated_beside : ∃ plan,
    Plan.resolve Sample.project (Sample.projectOptions "/o.d.ts") = .ok plan ∧
    plan.project = some ⟨"/p/tsconfig.json"⟩ ∧
    (Sample.projectRun Sample.project "/o.d.ts").result = .ok () ∧
    Sample.projectRun (Sample.projectRun Sample.project "/o.d.ts").workspace "/o.d.ts" =
      Sample.projectRun Sample.project "/o.d.ts" := by
  have hcheck : ((Plan.resolve Sample.project (Sample.projectOptions "/o.d.ts")).map
      fun plan : Plan => (plan.project, plan.out)) =
        .ok (some ⟨"/p/tsconfig.json"⟩, ⟨"/o.d.ts"⟩) := by decide +kernel
  have hok : (Sample.projectRun Sample.project "/o.d.ts").result = .ok () := by decide +kernel
  have hstarts : ∀ used ∈ Sample.projectFiles, Project.startsFromKnown Sample.project
      (Sample.projectRun Sample.project "/o.d.ts").workspace Sample.projectFiles used = true := by
    decide +kernel
  have hpasses : ((Project.loadSettings Sample.project (Project.Config.fuel Sample.project) []
      ⟨"/p/tsconfig.json"⟩).map fun settings =>
        Project.passes settings ⟨"/p"⟩ ⟨"/o.d.ts"⟩) = .ok false := by decide +kernel
  obtain ⟨plan, hplan, hfields⟩ := map_eq_ok.1 hcheck
  obtain ⟨hproject, hout⟩ := Prod.mk.inj hfields
  refine ⟨plan, hplan, hproject, hok, (generateWith_repeated (by decide +kernel) (by decide +kernel)
    hplan hok fun path hpath => ?_).2⟩
  obtain rfl := Option.some.inj (hproject.symm.trans hpath)
  rw [hout]
  refine Project.leavesAlone_of_known (by decide) (by decide) hstarts ?_
  intro settings hsettings
  rw [hsettings] at hpasses
  exact Except.ok.inj hpasses

/-- **Outputs that a second run comes upon**: as a new source, as the configuration file itself, and
as the file that it starts from, which had been found under another name. -/
theorem second_run_differs :
    (Sample.projectRun Sample.project "o.d.ts").result = .ok () ∧
    (Sample.projectRun Sample.project "o.d.ts").requests.map Request.files = [[⟨"/p/a.ts"⟩]] ∧
    (Sample.projectRun (Sample.projectRun Sample.project "o.d.ts").workspace
      "o.d.ts").requests.map Request.files = [[⟨"/p/a.ts"⟩, ⟨"/p/o.d.ts"⟩]] ∧
    (∀ out ∈ ["tsconfig.json", "b"],
      (Sample.projectRun Sample.project out).result = .ok () ∧
      (Sample.projectRun (Sample.projectRun Sample.project out).workspace out).result ≠
        .ok ()) := by
  decide +kernel

end AmbientBundle

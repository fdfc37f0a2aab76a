import AmbientBundle.Proofs.ReadingOrder

/-!
# What a project takes from which file

Of all files that are read for a project, in their order, each setting comes from the last one that
has it, whatever the other settings do. What it says is seen from the directory of that file.

* `lastOf`: the last file that has a setting, by its directory.
* `get_combined`, `combined_eq`: what files give together is from there.
* `Config.Inherits`: a project with each setting from the last file that has it.
* `HasUnknown`: an unknown value in the last file that has one.
* `Config.load_from_last`: **the last file that has a setting wins**, and an unknown value is an
  error exactly if it wins.
-/

namespace AmbientBundle.Project

variable {w : Workspace} {path dir : Path} {visits : List Visit}

/-! ### The last file that has a setting -/

section Last

variable {α β : Type}

/-- **The last file that has a setting**, by its directory, and what it says. -/
def lastOf (setting : ConfigFile → Option α) (visits : List Visit) : Option (Path × α) :=
  visits.reverse.findSome? fun v => (setting v.file).map fun value => (v.dir, value)

theorem lastOf_append_singleton (setting : ConfigFile → Option α) (visits : List Visit)
    (v : Visit) : lastOf setting (visits ++ [v]) =
      ((setting v.file).map fun value => (v.dir, value)).or (lastOf setting visits) := by
  unfold lastOf
  rw [List.reverse_append, List.reverse_singleton, List.singleton_append, List.findSome?_cons]
  cases setting v.file <;> rfl

/-- **A setting of files together comes from the last one that has it**, whatever its kind: it is
enough that no settings are without it, and that of two settings the upper one counts. -/
theorem get_combined (get : Settings → Option β) (setting : ConfigFile → Option α)
    (seen : Path → α → β) (hempty : get .empty = none)
    (hover : ∀ lower upper, get (lower.override upper) = (get upper).or (get lower))
    (hfile : ∀ dir file, get (.ofFile dir file) = (setting file).map (seen dir))
    (visits : List Visit) :
    get (combined visits) = (lastOf setting visits).map fun found => seen found.1 found.2 := by
  induction visits using List.reverseRecOn with
  | nil => exact hempty
  | append_singleton visits v ih =>
    rw [combined_append, combined_singleton, hover, Visit.gives, hfile, ih, lastOf_append_singleton]
    cases setting v.file <;> rfl

end Last

/-! ### What files give together -/

/-- A text of the last file that has one. -/
def textIn (setting : ConfigFile → Option String) (visits : List Visit) : Option String :=
  (lastOf setting visits).map Prod.snd

/-- A path of the last file that has one, seen from the directory of that file. -/
def pathIn (setting : ConfigFile → Option String) (visits : List Visit) : Option Path :=
  (lastOf setting visits).map fun (dir, text) => Path.absolutize ⟨text⟩ dir

/-- The input files that the last file with some names, seen from its directory. -/
def namedIn (visits : List Visit) : Option (List Path) :=
  (lastOf ConfigFile.files visits).map fun (dir, files) =>
    files.map fun file => Path.absolutize ⟨file⟩ dir

/-- The patterns of the last file that has some, to be seen from its directory. -/
def patternsIn (setting : ConfigFile → Option (List String)) (visits : List Visit) :
    Option PatternList :=
  (lastOf setting visits).map fun (dir, patterns) => ⟨dir, patterns⟩

/-- **What files give together is from the last one that has it**, for each setting by itself. -/
theorem combined_eq (visits : List Visit) : combined visits =
    { files := namedIn visits
      includes := patternsIn ConfigFile.includes visits
      excludes := patternsIn ConfigFile.excludes visits
      target := textIn (fun file => file.options.target) visits
      outDir := pathIn (fun file => file.options.outDir) visits
      rootDir := pathIn (fun file => file.options.rootDir) visits
      moduleResolution := textIn (fun file => file.options.moduleResolution) visits
      jsx := textIn (fun file => file.options.jsx) visits } := by
  have hfiles : (combined visits).files = namedIn visits :=
    get_combined Settings.files ConfigFile.files
      (fun dir files => files.map fun file => Path.absolutize ⟨file⟩ dir)
      rfl (fun _ _ => rfl) (fun _ _ => rfl) visits
  have hincludes : (combined visits).includes = patternsIn ConfigFile.includes visits :=
    get_combined Settings.includes _ PatternList.mk rfl (fun _ _ => rfl) (fun _ _ => rfl) visits
  have hexcludes : (combined visits).excludes = patternsIn ConfigFile.excludes visits :=
    get_combined Settings.excludes _ PatternList.mk rfl (fun _ _ => rfl) (fun _ _ => rfl) visits
  have hout : (combined visits).outDir = pathIn (fun file => file.options.outDir) visits :=
    get_combined Settings.outDir _ (fun dir text => Path.absolutize ⟨text⟩ dir)
      rfl (fun _ _ => rfl) (fun _ _ => rfl) visits
  have hroot : (combined visits).rootDir = pathIn (fun file => file.options.rootDir) visits :=
    get_combined Settings.rootDir _ (fun dir text => Path.absolutize ⟨text⟩ dir)
      rfl (fun _ _ => rfl) (fun _ _ => rfl) visits
  -- a text says the same wherever it is seen from
  have htarget := get_combined Settings.target (fun file => file.options.target)
    (fun _ text => text) rfl (fun _ _ => rfl) (fun _ _ => Option.map_id'.symm) visits
  have hmodule := get_combined Settings.moduleResolution (fun file => file.options.moduleResolution)
    (fun _ text => text) rfl (fun _ _ => rfl) (fun _ _ => Option.map_id'.symm) visits
  have hjsx := get_combined Settings.jsx (fun file => file.options.jsx)
    (fun _ text => text) rfl (fun _ _ => rfl) (fun _ _ => Option.map_id'.symm) visits
  rw [← hfiles, ← hincludes, ← hexcludes, ← hout, ← hroot]
  unfold textIn
  rw [← htarget, ← hmodule, ← hjsx]

/-! ### Input files -/

/-- The patterns of input files: those of the last file that has some, or the usual ones of the
project if no file has any and none names input files. -/
def includesIn (visits : List Visit) (dir : Path) : Option PatternList :=
  match patternsIn ConfigFile.includes visits, namedIn visits with
  | some includes, _ => some includes
  | none, none => some ⟨dir, defaultIncludes⟩
  | none, some _ => none

/-- The patterns of what is left out: those of the last file that has some, or the usual ones of the
project. -/
def excludesIn (visits : List Visit) (dir : Path) : PatternList :=
  (patternsIn ConfigFile.excludes visits).getD ⟨dir, defaultExcludes⟩

/-- **The input files of a project** in a directory: those that are named, and then those below the
directory of the patterns, as far as these match them from there and no pattern of what is left out
does from its own directory. Nothing in the output directory counts. -/
def HasInputs (w : Workspace) (visits : List Visit) (dir : Path) (files : List Path) : Prop :=
  match includesIn visits dir with
  | none => files = ((namedIn visits).getD []).eraseDups
  | some includes => ∃ taken left,
    readPatterns .takeIn includes.patterns = .ok taken ∧
    readPatterns .leaveOut (excludesIn visits dir).patterns = .ok left ∧
    files = ((namedIn visits).getD [] ++
      ((w.filesBelow (fun p =>
          !((pathIn (fun file => file.options.outDir) visits).any p.startsWith ||
            (p.relativeTo? (excludesIn visits dir).dir).any (Glob.anyMatch left)))
        includes.dir).filter fun p =>
          isSource p && (p.relativeTo? includes.dir).any (Glob.anyMatch taken)).map
            Path.normalize).eraseDups

theorem hasInputs_of_inputFiles {files : List Path}
    (h : inputFiles w (combined visits) dir = .ok files) : HasInputs w visits dir files := by
  have hincludes : includesOf (combined visits) dir = includesIn visits dir := by
    rw [combined_eq]
    rfl
  have hexcludes : excludesOf (combined visits) dir = excludesIn visits dir := by
    rw [combined_eq]
    rfl
  have hfiles : (combined visits).files = namedIn visits := by rw [combined_eq]
  have hout : (combined visits).outDir = pathIn (fun file => file.options.outDir) visits := by
    rw [combined_eq]
  rw [inputFiles_eq_ok, hincludes, hexcludes, hfiles, hout] at h
  unfold HasInputs
  rcases h with ⟨hnone, rfl⟩ | ⟨includes, taken, left, hsome, htaken, hleft, rfl⟩
  · rw [hnone]
  · rw [hsome]
    exact ⟨taken, left, htaken, hleft, rfl⟩

/-! ### Unknown values -/

/-- **An unknown value that counts**: that of the last file with a target, and otherwise that of the
last file with a way to look up modules. -/
def HasUnknown (visits : List Visit) (value : UnknownValue) : Prop :=
  (∃ text, textIn (fun file => file.options.target) visits = some text ∧
    Target.parse text = .error value) ∨
  (∀ text, textIn (fun file => file.options.target) visits = some text →
    ∃ target, Target.parse text = .ok target) ∧
  ∃ text, textIn (fun file => file.options.moduleResolution) visits = some text ∧
    ModuleResolution.parse text = .error value

/-- No file is refused for a value that is unknown. -/
theorem cause_ne_unknown {n : Nat} {chain : List Path} {fault : Fault} {value : UnknownValue}
    (h : loadSettings w n chain path = .error fault) : fault.cause ≠ .unknownValue value := by
  induction n generalizing chain path with
  | zero =>
    obtain rfl := Except.error.inj h
    exact Cause.noConfusion
  | succ n ih =>
    rcases loadSettings_eq_error.1 h with ⟨-, rfl⟩ | ⟨-, hread | ⟨file, -, hfold⟩⟩
    · exact Cause.noConfusion
    · obtain ⟨cause, rfl⟩ | ⟨place, cause, rfl⟩ := fault_of_readConfig hread
      · exact Cause.noConfusion
      · exact Cause.noConfusion
    · obtain ⟨before, name, after, mid, -, -, hstep⟩ := foldlM_eq_error.1 hfold
      rcases inheritFrom_eq_error.1 hstep with ⟨-, rfl⟩ | ⟨up, -, hup⟩
      · exact Cause.noConfusion
      · exact ih hup

/-- **When loading a project fails for an unknown value.** -/
theorem load_eq_error_unknown {p : Path} {value : UnknownValue} :
    Config.load w path = .error ⟨p, .unknownValue value⟩ ↔ p = path.normalize ∧
      ∃ settings, loadSettings w (Config.fuel w) [] path.normalize = .ok settings ∧
        (settings.target.mapM Target.parse = .error value ∨
          (∃ target, settings.target.mapM Target.parse = .ok target) ∧
          settings.moduleResolution.mapM ModuleResolution.parse = .error value) := by
  unfold Config.load
  simp only [bind_eq_error, mapError_eq_error, mapError_eq_ok, pure, Except.pure, Fault.mk.injEq,
    Cause.unknownValue.injEq]
  constructor
  · rintro (hload | ⟨settings, hload, ⟨v, hv, rfl, rfl⟩ | ⟨target, htarget, hrest⟩⟩)
    · exact absurd rfl (cause_ne_unknown hload)
    · exact ⟨rfl, settings, hload, .inl hv⟩
    · rcases hrest with ⟨v, hv, rfl, rfl⟩ | ⟨_, _, ⟨_, _, _, hpattern⟩ | ⟨_, _, hdone⟩⟩
      · exact ⟨rfl, settings, hload, .inr ⟨⟨target, htarget⟩, hv⟩⟩
      · cases hpattern
      · cases hdone
  · rintro ⟨rfl, settings, hload, hv | ⟨⟨target, htarget⟩, hv⟩⟩
    · exact .inr ⟨settings, hload, .inl ⟨value, hv, rfl, rfl⟩⟩
    · exact .inr ⟨settings, hload, .inr ⟨target, htarget, .inl ⟨value, hv, rfl, rfl⟩⟩⟩

/-! ### Projects -/

/-- **A project with each setting from the last file that has it**: texts as they are read, paths
and patterns seen from the directory of that file. -/
structure Config.Inherits (w : Workspace) (visits : List Visit) (config : Config) : Prop where
  target : (textIn (fun file => file.options.target) visits).mapM Target.parse = .ok config.target
  moduleResolution : (textIn (fun file => file.options.moduleResolution) visits).mapM
    ModuleResolution.parse = .ok config.moduleResolution
  jsx : config.jsx = textIn (fun file => file.options.jsx) visits
  outDir : config.outDir = pathIn (fun file => file.options.outDir) visits
  rootDir : config.rootDir = pathIn (fun file => file.options.rootDir) visits
  files : HasInputs w visits config.dir config.files

/-- **The last file that has a setting wins.** A project that is loaded has each setting from the
last of the files that has it, in the one order in which they are read. Loading fails for a value
that is unknown exactly if that value is in the last file with such a setting. From an absolute path
on, all files that can be read in an order are loaded, and all paths of the project are in normal
form. -/
theorem Config.load_from_last (w : Workspace) (path : Path) :
    (∀ config, Config.load w path = .ok config → config.path = path.normalize ∧
      ∃ visits, (∀ others, Reads w [path.normalize] others ↔ others = visits) ∧
        config.Inherits w visits) ∧
    (∀ p value, Config.load w path = .error ⟨p, .unknownValue value⟩ ↔ p = path.normalize ∧
      ∃ visits, Reads w [path.normalize] visits ∧ HasUnknown visits value ∧
        loadSettings w (Config.fuel w) [] path.normalize = .ok (combined visits)) ∧
    (path.isAbsolute = true →
      (∀ visits, Reads w [path.normalize] visits →
        loadSettings w (Config.fuel w) [] path.normalize = .ok (combined visits)) ∧
      ∀ config, Config.load w path = .ok config → config.IsCanonical) := by
  refine ⟨fun config hload => ?_, fun p value => ?_, fun habs => ⟨fun visits hreads => ?_, ?_⟩⟩
  · obtain ⟨settings, hsettings, target, htarget, moduleResolution, hmodule, files, hfiles, rfl⟩ :=
      load_eq_ok.1 hload
    obtain ⟨visits, hreads, rfl⟩ := exists_reads hsettings
    have hinputs := hasInputs_of_inputFiles hfiles
    rw [combined_eq] at htarget hmodule
    have hone : ∀ others, Reads w [path.normalize] others ↔ others = visits := by
      intro others
      constructor
      · exact hreads.unique
      · rintro rfl
        exact hreads
    refine ⟨rfl, visits, hone, htarget, hmodule, ?_, ?_, ?_, hinputs⟩
    all_goals rw [combined_eq]
  · rw [load_eq_error_unknown]
    apply and_congr_right'
    constructor
    · rintro ⟨settings, hsettings, hunknown⟩
      obtain ⟨visits, hreads, rfl⟩ := exists_reads hsettings
      rw [combined_eq, mapM_eq_error, mapM_eq_error, exists_mapM_eq_ok] at hunknown
      exact ⟨visits, hreads, hunknown, hsettings⟩
    · rintro ⟨visits, -, hunknown, hsettings⟩
      refine ⟨combined visits, hsettings, ?_⟩
      rw [combined_eq, mapM_eq_error, mapM_eq_error, exists_mapM_eq_ok]
      exact hunknown
  · have hnormal := Path.isNormal_normalize habs
    exact (loadSettings_eq_ok_iff_reads hnormal).2 ⟨visits, hreads, rfl⟩
  · intro config hload
    have hnormal := Path.isNormal_normalize habs
    have hagain : Config.load w path.normalize = .ok config := by
      rw [← hload]
      unfold Config.load
      rw [hnormal.normalized]
    exact Config.isCanonical_of_load hnormal hagain

namespace Sample

/-- A project that starts from two files, which start from a common one. -/
def diamond : Workspace where
  tree := .directory [("p", .directory [
    ("base.json", .file (.ofText "\x7b\"compilerOptions\":\x7b\"rootDir\":\"b\"\x7d\x7d")),
    ("tsconfig.json", .file (.ofText "\x7b\"extends\":[\"./x/left\",\"./y/right\"]\x7d")),
    ("x", .directory [
      ("left.json", .file (.ofText ("\x7b\"extends\":\"../base\",\"files\":[\"l.ts\"]," ++
        "\"compilerOptions\":\x7b\"rootDir\":\"l\",\"target\":\"es\"\x7d\x7d")))]),
    ("y", .directory [
      ("right.json", .file (.ofText ("\x7b\"extends\":\"../base\",\"include\":[\"src\"]," ++
        "\"compilerOptions\":\x7b\"target\":\"es5\"\x7d\x7d"))),
      ("src", .directory [("r.ts", .file (.ofText ""))])])])]
  cwd := ⟨"/p"⟩

/-- The common file. -/
def base : Visit where
  path := ⟨"/p/base.json"⟩
  file := { ConfigFile.empty with options := { CompilerOptions.empty with rootDir := some "b" } }

/-- The first file that the project starts from. -/
def left : Visit where
  path := ⟨"/p/x/left.json"⟩
  file := { ConfigFile.empty with
    parents := ["../base"], files := some ["l.ts"]
    options := { CompilerOptions.empty with target := some "es", rootDir := some "l" } }

/-- The second one. -/
def right : Visit where
  path := ⟨"/p/y/right.json"⟩
  file := { ConfigFile.empty with
    parents := ["../base"], includes := some ["src"]
    options := { CompilerOptions.empty with target := some "es5" } }

/-- The file of the project. -/
def top : Visit where
  path := ⟨"/p/tsconfig.json"⟩
  file := { ConfigFile.empty with parents := ["./x/left", "./y/right"] }

theorem reads_base : Reads diamond [base.path] ([] ++ [base]) :=
  .cons (by decide +kernel) (by decide +kernel) .nil .nil

theorem reads_left : Reads diamond [left.path] ([base] ++ [left]) :=
  .cons (by decide +kernel) (by decide +kernel) reads_base .nil

theorem reads_right : Reads diamond [right.path] ([base] ++ [right]) :=
  .cons (by decide +kernel) (by decide +kernel) reads_base .nil

theorem reads_top : Reads diamond [top.path] ([base, left, base, right] ++ [top]) :=
  .cons (by decide +kernel) (by decide +kernel) (reads_left.append reads_right) .nil

/-- What the project has in the end: the common file comes again after the first one. -/
def diamondConfig : Config where
  path := ⟨"/p/tsconfig.json"⟩
  files := [⟨"/p/x/l.ts"⟩, ⟨"/p/y/src/r.ts"⟩]
  target := some .es5
  outDir := none
  rootDir := some ⟨"/p/b"⟩
  moduleResolution := none
  jsx := none

end Sample

theorem Config.load_from_last_diamond :
    Config.load Sample.diamond Sample.top.path = .ok Sample.diamondConfig ∧
    Sample.diamondConfig.Inherits Sample.diamond
      [Sample.base, Sample.left, Sample.base, Sample.right, Sample.top] ∧
    Config.load Sample.diamond Sample.left.path =
      .error ⟨Sample.left.path, .unknownValue (.target "es")⟩ := by
  have htop : Sample.top.path.normalize = Sample.top.path := by decide
  have hleft : Sample.left.path.normalize = Sample.left.path := by decide
  obtain ⟨hinherits, -, hordered⟩ := Config.load_from_last Sample.diamond Sample.top.path
  rw [htop] at hinherits hordered
  have hsettings := (hordered (by decide)).1 _ Sample.reads_top
  have hload : Config.load Sample.diamond Sample.top.path = .ok Sample.diamondConfig := by
    exact load_eq_ok.2 ⟨_, htop.symm ▸ hsettings, some .es5, by decide, none, by decide,
      Sample.diamondConfig.files, by decide +kernel, by decide +kernel⟩
  refine ⟨hload, ?_, ?_⟩
  · obtain ⟨-, visits, hone, hfrom⟩ := hinherits _ hload
    obtain rfl := (hone _).1 Sample.reads_top
    exact hfrom
  · obtain ⟨-, hunknown, hordered'⟩ := Config.load_from_last Sample.diamond Sample.left.path
    rw [hleft] at hunknown hordered'
    have hloaded := (hordered' (by decide)).1 _ Sample.reads_left
    refine (hunknown _ _).2 ⟨rfl, _, Sample.reads_left, .inl ⟨"es", rfl, ?_⟩, hloaded⟩
    decide

end AmbientBundle.Project

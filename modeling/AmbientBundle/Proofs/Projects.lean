import AmbientBundle.Proofs.Bundles
import AmbientBundle.Proofs.Placing
import AmbientBundle.Proofs.Ways

/-!
# Projects and their paths

A project is a configuration file with all that it starts from, and the input files that they name
or take in. Wherever these come from, their paths are absolute and in normal form: a path in a
configuration file is read from the directory of that file, which is in normal form itself, and a
file that is found lies below such a directory.

* `parentPath?_eq`: the paths that are tried for a configuration file.
* `loadSettings_eq_ok`, `inputFiles_eq_ok`, `load_eq_ok`: what loading comes to.
* `loadSettings_invariant`: what holds of settings along every chain of files.
* `Settings.isCanonical_of_loadSettings`, `isNormal_of_inputFiles`: paths in normal form.
* `Config.isCanonical_of_load`: **all paths of a project are in normal form.**
-/

open AmbientBundle.Path

namespace AmbientBundle

open FileTree

namespace Project

variable {w : Workspace} {path dir : Path} {settings : Settings}

/-! ### Configuration files -/

/-- The paths at which a configuration file may stand. -/
def placesAt (path : Path) : List Path :=
  [path, ⟨path.text ++ ".json"⟩, path.join ⟨"tsconfig.json"⟩]

/-- **The paths that are tried for the file that a file in a directory starts from**, in order. -/
def tried (dir : Path) (name : String) : List Path :=
  let path : Path := ⟨name⟩
  if name.toList.head? == some '.' || path.isAbsolute then placesAt (path.absolutize dir)
  else dir.ancestors.flatMap fun up => placesAt ((up.join ⟨"node_modules"⟩).join path)

/-- The file that is meant by a name is the first path with a file. -/
theorem parentPath?_eq (w : Workspace) (dir : Path) (name : String) :
    parentPath? w dir name = ((tried dir name).find? w.isFile).map Path.normalize := by
  unfold parentPath? tried
  dsimp only
  split
  · rfl
  · rw [List.find?_flatMap, List.map_findSome?]
    rfl

/-- The settings of one more file that a file starts from, over those so far. -/
def inheritFrom (w : Workspace) (n : Nat) (chain : List Path) (path : Path) (under : Settings)
    (name : String) : Except Fault Settings := do
  match parentPath? w (directoryOf path) name with
  | none => throw ⟨path, .parentMissing name⟩
  | some up => return under.override (← loadSettings w n (chain ++ [path]) up)

theorem inheritFrom_eq_ok {n : Nat} {chain : List Path} {under result : Settings} {name : String} :
    inheritFrom w n chain path under name = .ok result ↔
      ∃ up above, parentPath? w (directoryOf path) name = some up ∧
        loadSettings w n (chain ++ [path]) up = .ok above ∧ result = under.override above := by
  unfold inheritFrom
  cases parentPath? w (directoryOf path) name with
  | none =>
    constructor
    · intro h; cases h
    · rintro ⟨up, above, hup, -⟩; cases hup
  | some up =>
    dsimp only
    rw [bind_eq_ok]
    simp [pure, Except.pure, eq_comm]

/-- **What loading comes to**: what a file says, over what it starts from. -/
theorem loadSettings_eq_ok {n : Nat} {chain : List Path} :
    loadSettings w (n + 1) chain path = .ok settings ↔
      chain.contains path = false ∧ ∃ file inherited, readConfig w path = .ok file ∧
        file.parents.foldlM (inheritFrom w n chain path) Settings.empty = .ok inherited ∧
        settings = inherited.override (.ofFile (directoryOf path) file) := by
  have hload : loadSettings w (n + 1) chain path = (do
      if chain.contains path then throw ⟨path, .circular path⟩
      let file ← readConfig w path
      let inherited ← file.parents.foldlM (inheritFrom w n chain path) Settings.empty
      return inherited.override (.ofFile (directoryOf path) file)) := rfl
  rw [hload]
  simp only [bind, Except.bind, pure, Except.pure, throw, throwThe, MonadExceptOf.throw]
  cases hchain : chain.contains path with
  | true => simp
  | false =>
    cases hfile : readConfig w path with
    | error fault => simp
    | ok file =>
      cases hinherited : file.parents.foldlM (inheritFrom w n chain path) Settings.empty with
      | error fault => simp [hinherited]
      | ok inherited => simp [hinherited, eq_comm]

/-! ### Paths of a project -/

theorem isNormal_of_mem_chain {k : Nat} {ns : List String} (hns : ∀ n ∈ ns, IsName n) :
    ∀ up ∈ chain k (ofNames ns), up.IsNormal := by
  induction k generalizing ns with
  | zero =>
    intro up hup
    rw [List.mem_singleton.1 hup]
    exact isNormal_iff.2 ⟨ns, hns, rfl⟩
  | succ k ih =>
    intro up hup
    rcases List.eq_nil_or_concat ns with rfl | ⟨front, n, rfl⟩
    · have hroot : (ofNames []).parent? = none := by decide
      rw [chain, hroot] at hup
      rw [List.mem_singleton.1 hup]
      exact isNormal_iff.2 ⟨[], hns, rfl⟩
    · rw [List.concat_eq_append] at hns hup
      rw [chain, parent?_ofNames hns] at hup
      rcases List.mem_cons.1 hup with rfl | hup
      · exact isNormal_iff.2 ⟨_, hns, rfl⟩
      · exact ih (fun m hm => hns m (List.mem_append_left _ hm)) up hup

/-- The paths above an absolute one in normal form are such, too. -/
theorem isNormal_of_mem_ancestors (hdir : dir.IsNormal) : ∀ up ∈ dir.ancestors, up.IsNormal := by
  obtain ⟨ns, hns, rfl⟩ := isNormal_iff.1 hdir
  exact isNormal_of_mem_chain hns

theorem isNormal_join (hdir : dir.IsNormal) {n : String} (hn : IsName n) :
    (dir.join ⟨n⟩).IsNormal := by
  obtain ⟨ns, hns, rfl⟩ := isNormal_iff.1 hdir
  rw [join_ofNames hns hn]
  exact isNormal_iff.2
    ⟨ns ++ [n], List.forall_mem_append.2 ⟨hns, List.forall_mem_singleton.2 hn⟩, rfl⟩

theorem isAbsolute_of_mem_placesAt (hpath : path.isAbsolute = true) :
    ∀ p ∈ placesAt path, p.isAbsolute = true := by
  intro p hp
  simp only [placesAt, List.mem_cons, List.not_mem_nil, or_false] at hp
  rcases hp with rfl | rfl | rfl
  · exact hpath
  · have hhead : path.text.toList.head? = some '/' := by simpa [isAbsolute] using hpath
    obtain ⟨cs, hcs⟩ := List.head?_eq_some_iff.1 hhead
    simp [isAbsolute, hcs]
  · exact isAbsolute_join hpath

/-- All paths that are tried are absolute. -/
theorem isAbsolute_of_mem_tried (hdir : dir.IsNormal) {name : String} :
    ∀ p ∈ tried dir name, p.isAbsolute = true := by
  intro p hp
  unfold tried at hp
  dsimp only at hp
  split at hp
  · exact isAbsolute_of_mem_placesAt (absolutize_isNormal hdir.absolute).absolute p hp
  · obtain ⟨up, hup, hp⟩ := List.mem_flatMap.1 hp
    have hnormal := isNormal_of_mem_ancestors hdir up hup
    exact isAbsolute_of_mem_placesAt (isAbsolute_join (isAbsolute_join hnormal.absolute)) p hp

theorem isNormal_of_parentPath? (hdir : dir.IsNormal) {name : String} {up : Path}
    (h : parentPath? w dir name = some up) : up.IsNormal := by
  rw [parentPath?_eq] at h
  obtain ⟨p, hp, rfl⟩ := Option.map_eq_some_iff.1 h
  have habs := isAbsolute_of_mem_tried hdir p (List.mem_of_find?_eq_some hp)
  exact isNormal_normalize habs

/-- A configuration file that can be read is no root, so that it has a directory. -/
theorem isNormal_directoryOf (hpath : path.IsNormal) {file : ConfigFile}
    (h : readConfig w path = .ok file) : (directoryOf path).IsNormal := by
  obtain ⟨ns, hns, rfl⟩ := isNormal_iff.1 hpath
  rcases List.eq_nil_or_concat ns with rfl | ⟨front, n, rfl⟩
  · unfold readConfig at h
    split at h
    · cases h
    · next text htext => exact absurd htext (Workspace.readText_root_ne_ok text)
  · rw [List.concat_eq_append] at hns ⊢
    rw [directoryOf, parent?_ofNames hns]
    exact isNormal_iff.2 ⟨front, fun m hm => hns m (List.mem_append_left _ hm), rfl⟩

/-- **What holds of the settings of every file, and of settings over others, holds of all that are
loaded**, however long the chain of files is. -/
theorem loadSettings_invariant {P : Settings → Prop} (hempty : P .empty)
    (hover : ∀ lower upper, P lower → P upper → P (lower.override upper))
    (hfile : ∀ dir file, dir.IsNormal → P (.ofFile dir file)) {n : Nat} {chain : List Path}
    (hpath : path.IsNormal) (h : loadSettings w n chain path = .ok settings) : P settings := by
  induction n generalizing path chain settings with
  | zero => cases h
  | succ n ih =>
    obtain ⟨-, file, inherited, hread, hinherited, rfl⟩ := loadSettings_eq_ok.1 h
    have hdir := isNormal_directoryOf hpath hread
    refine hover _ _ (foldlM_invariant ?_ hempty hinherited) (hfile _ file hdir)
    intro name _ under result hunder hstep
    obtain ⟨up, above, hup, habove, rfl⟩ := inheritFrom_eq_ok.1 hstep
    exact hover _ _ hunder (ih (isNormal_of_parentPath? hdir hup) habove)

/-- The directory of a file whose settings were loaded. -/
theorem isNormal_directoryOf_of_loadSettings {n : Nat} {chain : List Path} (hpath : path.IsNormal)
    (h : loadSettings w n chain path = .ok settings) : (directoryOf path).IsNormal := by
  cases n with
  | zero => cases h
  | succ n =>
    obtain ⟨-, file, inherited, hfile, -, -⟩ := loadSettings_eq_ok.1 h
    exact isNormal_directoryOf hpath hfile

/-- **Settings whose paths are all absolute and in normal form**, and whose patterns are seen from
such paths. -/
structure Settings.IsCanonical (s : Settings) : Prop where
  files : ∀ files ∈ s.files, ∀ file ∈ files, file.IsNormal
  includes : ∀ includes ∈ s.includes, includes.dir.IsNormal
  excludes : ∀ excludes ∈ s.excludes, excludes.dir.IsNormal
  outDir : ∀ dir ∈ s.outDir, dir.IsNormal
  rootDir : ∀ dir ∈ s.rootDir, dir.IsNormal

theorem forall_mem_or {α : Type} {P : α → Prop} {a b : Option α} (ha : ∀ x ∈ a, P x)
    (hb : ∀ x ∈ b, P x) : ∀ x ∈ a.or b, P x := by
  intro x hx
  rcases Option.or_eq_some_iff.1 hx with hx | ⟨-, hx⟩
  · exact ha x hx
  · exact hb x hx

theorem Settings.isCanonical_empty : Settings.empty.IsCanonical := by
  constructor <;> rintro _ ⟨⟩

theorem Settings.IsCanonical.override {lower upper : Settings} (hlower : lower.IsCanonical)
    (hupper : upper.IsCanonical) : (lower.override upper).IsCanonical where
  files := forall_mem_or hupper.files hlower.files
  includes := forall_mem_or hupper.includes hlower.includes
  excludes := forall_mem_or hupper.excludes hlower.excludes
  outDir := forall_mem_or hupper.outDir hlower.outDir
  rootDir := forall_mem_or hupper.rootDir hlower.rootDir

/-- The paths of a file are read from its directory. -/
theorem Settings.isCanonical_ofFile (hdir : dir.IsNormal) (file : ConfigFile) :
    (Settings.ofFile dir file).IsCanonical := by
  have hread : ∀ text : Option String, ∀ path ∈ text.map fun d => Path.absolutize ⟨d⟩ dir,
      path.IsNormal := by
    intro text path hpath
    obtain ⟨d, -, rfl⟩ := Option.map_eq_some_iff.1 hpath
    exact absolutize_isNormal hdir.absolute
  have hseen : ∀ texts : Option (List String), ∀ list ∈ texts.map fun patterns =>
      PatternList.mk dir patterns, list.dir.IsNormal := by
    intro texts list hlist
    obtain ⟨patterns, -, rfl⟩ := Option.map_eq_some_iff.1 hlist
    exact hdir
  refine ⟨?_, hseen _, hseen _, hread _, hread _⟩
  intro files hfiles path hpath
  obtain ⟨texts, -, rfl⟩ := Option.map_eq_some_iff.1 hfiles
  obtain ⟨text, -, rfl⟩ := List.mem_map.1 hpath
  exact absolutize_isNormal hdir.absolute

theorem Settings.isCanonical_of_loadSettings {n : Nat} {chain : List Path} (hpath : path.IsNormal)
    (h : loadSettings w n chain path = .ok settings) : settings.IsCanonical :=
  loadSettings_invariant isCanonical_empty (fun _ _ => IsCanonical.override)
    (fun _ file hdir => isCanonical_ofFile hdir file) hpath h

theorem isNormal_includesOf {n : Nat} {chain : List Path} (hpath : path.IsNormal) (h : loadSettings w n chain path = .ok settings) :
    ∀ includes, includesOf settings (directoryOf path) = some includes → includes.dir.IsNormal := by
  intro includes hincludes
  unfold includesOf at hincludes
  split at hincludes
  · next hsome =>
    obtain rfl := Option.some.inj hincludes
    exact (Settings.isCanonical_of_loadSettings hpath h).includes _ hsome
  · obtain rfl := Option.some.inj hincludes
    exact isNormal_directoryOf_of_loadSettings hpath h
  · cases hincludes

/-! ### Input files -/

/-- The input files of a project: those that are named, and those that are found. -/
theorem inputFiles_eq_ok {files : List Path} :
    inputFiles w settings dir = .ok files ↔
      includesOf settings dir = none ∧ files = (settings.files.getD []).eraseDups ∨
      ∃ includes taken left, includesOf settings dir = some includes ∧
        readPatterns .takeIn includes.patterns = .ok taken ∧
        readPatterns .leaveOut (excludesOf settings dir).patterns = .ok left ∧
        files = (settings.files.getD [] ++ ((w.filesBelow (fun p => !isLeftOut settings.outDir
          (excludesOf settings dir).dir left p) includes.dir).filter
            (isTakenIn includes.dir taken)).map Path.normalize).eraseDups := by
  unfold inputFiles
  simp only [bind, Except.bind, pure, Except.pure]
  cases hincludes : includesOf settings dir with
  | none => simp [eq_comm]
  | some includes =>
    cases htaken : readPatterns .takeIn includes.patterns with
    | error fault => simp [htaken]
    | ok taken =>
      cases hleft : readPatterns .leaveOut (excludesOf settings dir).patterns with
      | error fault => simp [htaken]
      | ok left => simp [htaken, eq_comm]

mutual

/-- The files below an absolute path have absolute paths. -/
theorem isAbsolute_of_mem_walk {keep : Path → Bool} {path : Path}
    (hpath : path.isAbsolute = true) :
    ∀ tree : FileTree, ∀ p ∈ tree.walk keep path, p.isAbsolute = true
  | .file _, p, hp => by
    rw [walk, List.mem_singleton] at hp
    rw [hp]
    exact hpath
  | .directory entries, p, hp => by
    rw [walk] at hp
    exact isAbsolute_of_mem_walkEntries hpath entries p hp

theorem isAbsolute_of_mem_walkEntries {keep : Path → Bool} {path : Path}
    (hpath : path.isAbsolute = true) :
    ∀ entries : List (String × FileTree), ∀ p ∈ walkEntries keep path entries,
      p.isAbsolute = true
  | [], p, hp => by
    rw [walkEntries] at hp
    cases hp
  | (name, tree) :: rest, p, hp => by
    rw [walkEntries, walkEntry, List.mem_append] at hp
    rcases hp with hp | hp
    · split at hp
      · exact isAbsolute_of_mem_walk (isAbsolute_join hpath) tree p hp
      · cases hp
    · exact isAbsolute_of_mem_walkEntries hpath rest p hp

end

theorem isAbsolute_of_mem_filesBelow {keep : Path → Bool} (hdir : dir.isAbsolute = true) :
    ∀ p ∈ w.filesBelow keep dir, p.isAbsolute = true := by
  intro p hp
  unfold Workspace.filesBelow at hp
  split at hp
  · next tree _ => exact isAbsolute_of_mem_walk hdir tree p hp
  · cases hp

/-- **The input files of a project**, named or found, have paths in normal form. -/
theorem isNormal_of_inputFiles (hsettings : settings.IsCanonical)
    (hincludes : ∀ includes, includesOf settings dir = some includes → includes.dir.IsNormal)
    {files : List Path} (h : inputFiles w settings dir = .ok files) :
    ∀ file ∈ files, file.IsNormal := by
  have hnamed : ∀ file ∈ settings.files.getD [], file.IsNormal := by
    intro file hfile
    cases hfiles : settings.files with
    | none => rw [hfiles] at hfile; cases hfile
    | some named =>
      rw [hfiles] at hfile
      exact hsettings.files named hfiles file hfile
  intro file hfile
  rcases inputFiles_eq_ok.1 h with ⟨-, rfl⟩ | ⟨includes, taken, left, hsome, -, -, rfl⟩
  · exact hnamed file (List.mem_eraseDups.1 hfile)
  · rcases List.mem_append.1 (List.mem_eraseDups.1 hfile) with hfile | hfile
    · exact hnamed file hfile
    · obtain ⟨found, hfound, rfl⟩ := List.mem_map.1 hfile
      have hbelow := (List.mem_filter.1 hfound).1
      exact isNormal_normalize
        (isAbsolute_of_mem_filesBelow (hincludes includes hsome).absolute found hbelow)

/-! ### Whole projects -/

/-- **What loading a project comes to.** -/
theorem load_eq_ok {config : Config} :
    Config.load w path = .ok config ↔
      ∃ settings, loadSettings w (Config.fuel w) [] path.normalize = .ok settings ∧
        ∃ target, settings.target.mapM Target.parse = .ok target ∧
        ∃ moduleResolution,
          settings.moduleResolution.mapM ModuleResolution.parse = .ok moduleResolution ∧
        ∃ files, inputFiles w settings (directoryOf path.normalize) = .ok files ∧
          { path := path.normalize, files, target, moduleResolution, outDir := settings.outDir,
            rootDir := settings.rootDir, jsx := settings.jsx } = config := by
  unfold Config.load
  simp only [bind_eq_ok, mapError_eq_ok, pure, Except.pure, Except.ok.injEq]

/-- **A project whose paths are all absolute and in normal form.** -/
structure Config.IsCanonical (c : Config) : Prop where
  path : c.path.IsNormal
  dir : c.dir.IsNormal
  files : ∀ file ∈ c.files, file.IsNormal
  outDir : ∀ dir ∈ c.outDir, dir.IsNormal
  rootDir : ∀ dir ∈ c.rootDir, dir.IsNormal

/-- **All paths of a project that was loaded are in normal form.** -/
theorem Config.isCanonical_of_load (hpath : path.IsNormal)
    {config : Config} (h : Config.load w path = .ok config) : config.IsCanonical := by
  obtain ⟨settings, hload, _, _, _, _, files, hfiles, rfl⟩ := load_eq_ok.1 h
  rw [hpath.normalized] at hload hfiles
  have hsettings := Settings.isCanonical_of_loadSettings hpath hload
  refine ⟨?_, ?_, ?_, hsettings.outDir, hsettings.rootDir⟩
  · rw [hpath.normalized]
    exact hpath
  · unfold Config.dir
    rw [hpath.normalized]
    exact isNormal_directoryOf_of_loadSettings hpath hload
  · exact isNormal_of_inputFiles hsettings (isNormal_includesOf hpath hload) hfiles

end Project

section Plans

variable {w : Workspace} {o : Options}

/-- The configuration file that is found for a project is an absolute path in normal form. -/
theorem Project.isNormal_find? (hcwd : w.cwd.isAbsolute = true) {location path : Path}
    (hlocation : Plan.projectLocation o w.cwd = .ok location)
    (h : Project.Config.find? w location = some path) : path.IsNormal := by
  have hconfig : ∀ p : Path, p.IsNormal → (p.join ⟨"tsconfig.json"⟩).IsNormal :=
    fun p hp => isNormal_join hp (by decide)
  have hnormal : location.IsNormal := by
    unfold Plan.projectLocation at hlocation
    split at hlocation
    · obtain rfl := Except.ok.inj hlocation
      exact absolutize_isNormal hcwd
    · obtain rfl := Except.ok.inj hlocation
      exact hconfig _ (absolutize_isNormal hcwd)
    · cases hlocation
  unfold Project.Config.find? at h
  dsimp only at h
  split at h
  · split at h
    · obtain rfl := Option.some.inj h
      exact hconfig _ hnormal
    · cases h
  · split at h
    · obtain rfl := Option.some.inj h
      exact hnormal
    · cases h

/-- What comes of the project of a run, if one is asked for. -/
theorem Plan.loadProject_eq_ok {config : Option Project.Config}
    (hproject : (o.project.isSome || o.files.isEmpty) = true) :
    loadProject w o = .ok config ↔
      ∃ location path loaded, projectLocation o w.cwd = .ok location ∧
        Project.Config.find? w location = some path ∧ Project.Config.load w path = .ok loaded ∧
        config = some loaded := by
  unfold loadProject
  rw [if_pos hproject, bind_eq_ok]
  simp only [mapError_eq_ok]
  constructor
  · rintro ⟨location, hlocation, h⟩
    cases hfind : Project.Config.find? w location with
    | none => rw [hfind] at h; cases h
    | some path =>
      rw [hfind] at h
      obtain ⟨loaded, hloaded, hconfig⟩ := map_eq_ok.1 h
      exact ⟨location, path, loaded, hlocation, hfind, mapError_eq_ok.1 hloaded, hconfig.symm⟩
  · rintro ⟨location, path, loaded, hlocation, hfind, hload, rfl⟩
    refine ⟨location, hlocation, ?_⟩
    rw [hfind]
    exact map_eq_ok.2 ⟨loaded, mapError_eq_ok.2 hload, rfl⟩

end Plans

end AmbientBundle

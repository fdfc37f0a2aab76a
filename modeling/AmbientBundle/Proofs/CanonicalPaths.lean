import AmbientBundle.Proofs.Diagnostics
import AmbientBundle.Proofs.Projects

/-!
# The paths of a run

Whether a file belongs to a bundle is told by comparing paths piece by piece. This is the same as
asking where the file lies, since all paths that are compared are absolute and in normal form: those
of the plan, from wherever they come, and those that the compiler prints, in whatever spelling.

* `Path.IsWithin`: a path that is reached from another through names; `startsWith_iff_isWithin`.
* `Plan.isCanonical_of_resolve`: the paths of a plan.
* `Report.isNormal_of_read`, `CompilationUnit.isCanonical_of_collectUnits`: the paths that come back
  from the compiler.
* `Plan.compares_canonical_paths`: **a file passes the base directory just if it lies there.**
-/

open AmbientBundle.Path

namespace AmbientBundle

open FileTree Text

/-! ### Paths at or below a path -/

namespace Path

/-- **A path at or below another**: from that one on, name by name. -/
def IsWithin (p base : Path) : Prop :=
  ∃ names : List String, (∀ n ∈ names, IsName n) ∧ p = names.foldl (fun q n => q.join ⟨n⟩) base

/-- Where paths are in normal form, comparing their components tells where they lie. -/
theorem startsWith_iff_isWithin {p base : Path} (hp : p.IsNormal) (hbase : base.IsNormal) :
    p.startsWith base = true ↔ p.IsWithin base := by
  obtain ⟨ns, hns, rfl⟩ := isNormal_iff.1 hp
  obtain ⟨rs, hrs, rfl⟩ := isNormal_iff.1 hbase
  rw [startsWith_ofNames hrs hns]
  constructor
  · rintro ⟨ms, rfl⟩
    exact ⟨ms, fun n hn => hns n (List.mem_append_right _ hn),
      (Workspace.foldl_join_names hns).symm⟩
  · rintro ⟨ms, hms, heq⟩
    have hall : ∀ n ∈ rs ++ ms, IsName n := List.forall_mem_append.2 ⟨hrs, hms⟩
    rw [Workspace.foldl_join_names hall] at heq
    have hnames : ns = rs ++ ms := by rw [← names_ofNames hns, heq, names_ofNames hall]
    exact ⟨ms, hnames.symm⟩

/-! ### Names of declaration files -/

theorem components_ofPieces {ns : List String} (hne : ns ≠ []) (h : ∀ n ∈ ns, IsName n) :
    (ofPieces ns).components = ns.map .name := by
  have hpieces : (ofPieces ns).pieces = ns :=
    pieces_intercalate hne fun n hn => (h n hn).no_slash
  unfold components
  rw [hpieces]
  split
  · exact absurd rfl (h "" List.mem_cons_self).ne_empty
  · exact absurd rfl (h "." List.mem_cons_self).ne_here
  · exact steps_names h

theorem fileName?_ofPieces {ns : List String} {n : String} (h : ∀ m ∈ ns ++ [n], IsName m) :
    (ofPieces (ns ++ [n])).fileName? = some n := by
  unfold fileName?
  rw [components_ofPieces (by simp) h]
  simp

theorem no_slash_splitName {name : String} (h : '/' ∉ name.toList) :
    '/' ∉ (splitName name).1.toList := by
  unfold splitName
  split
  · next stem ext hsplit =>
    split
    · exact h
    · have hname := (splitLast?_eq_some.1 hsplit).1
      rw [hname] at h
      rw [String.toList_ofList]
      exact fun hmem => h (List.mem_append_left _ hmem)
  · exact h

/-- Another extension makes another name of the last one. -/
theorem withExtension_ofPieces {ns : List String} {n ext : String}
    (h : ∀ m ∈ ns ++ [n], IsName m) :
    (ofPieces (ns ++ [n])).withExtension ext =
      ofPieces (ns ++ [(splitName n).1 ++ "." ++ ext]) := by
  have hpieces : (ofPieces (ns ++ [n])).pieces = ns ++ [n] :=
    pieces_intercalate (by simp) fun m hm => (h m hm).no_slash
  unfold withExtension
  rw [fileName?_ofPieces h]
  dsimp only
  rw [hpieces, trimBack_names h, List.dropLast_concat]

theorem declarationName_eq (p : Path) :
    ∃ ext ∈ ["d.mts", "d.cts", "d.ts"], p.declarationName = p.withExtension ext := by
  unfold declarationName
  split
  · exact ⟨"d.mts", by simp, rfl⟩
  · exact ⟨"d.mts", by simp, rfl⟩
  · exact ⟨"d.cts", by simp, rfl⟩
  · exact ⟨"d.cts", by simp, rfl⟩
  · exact ⟨"d.ts", by simp, rfl⟩

/-- **The declaration file of a file below a root** stands beside it, with a suffix after the stem. -/
theorem join_declarationName {rs dirs : List String} {file : String}
    (h : ∀ n ∈ rs ++ (dirs ++ [file]), IsName n) :
    ∃ suffix ∈ declarationSuffixes,
      (∀ n ∈ rs ++ (dirs ++ [(splitName file).1 ++ suffix]), IsName n) ∧
      (ofNames rs).join (ofPieces (dirs ++ [file])).declarationName =
        ofNames (rs ++ (dirs ++ [(splitName file).1 ++ suffix])) := by
  obtain ⟨hrs, hns⟩ := List.forall_mem_append.1 h
  obtain ⟨hdirs, hfile⟩ := List.forall_mem_append.1 hns
  obtain ⟨ext, hext, hname⟩ := (ofPieces (dirs ++ [file])).declarationName_eq
  -- the new name ends in an extension, so that it is no dot and no two dots
  have hsuffix : ∀ e ∈ ["d.mts", "d.cts", "d.ts"], "." ++ e ∈ declarationSuffixes ∧
      '/' ∉ ("." ++ e).toList ∧ 2 < ("." ++ e).length := by decide
  obtain ⟨hmem, hslash, hlong⟩ := hsuffix ext hext
  have hlast : IsName ((splitName file).1 ++ ("." ++ ext)) :=
    isName_append (no_slash_splitName (hfile file List.mem_cons_self).no_slash) hslash hlong
  have hnames : ∀ m ∈ dirs ++ [(splitName file).1 ++ ("." ++ ext)], IsName m :=
    List.forall_mem_append.2 ⟨hdirs, List.forall_mem_singleton.2 hlast⟩
  refine ⟨"." ++ ext, hmem, List.forall_mem_append.2 ⟨hrs, hnames⟩, ?_⟩
  rw [hname, withExtension_ofPieces hns, String.append_assoc, join_ofNames_names hrs (by simp) hnames]

theorem isNormal_join_declarationName {rs ns : List String} (hne : ns ≠ [])
    (h : ∀ n ∈ rs ++ ns, IsName n) :
    ((ofNames rs).join (ofPieces ns).declarationName).IsNormal := by
  obtain ⟨dirs, file, rfl⟩ := (List.eq_nil_or_concat ns).resolve_left hne
  rw [List.concat_eq_append] at h ⊢
  obtain ⟨suffix, -, hnames, hpath⟩ := join_declarationName h
  exact isNormal_iff.2 ⟨_, hnames, hpath⟩

end Path

/-! ### Plans -/

section Plans

variable {w : Workspace} {o : Options} {plan : Plan}

/-- **A plan whose paths are all absolute and in normal form.** -/
structure Plan.IsCanonical (p : Plan) : Prop where
  baseDir : p.baseDir.IsNormal
  files : ∀ file ∈ p.files, file.IsNormal
  project : ∀ path ∈ p.project, path.IsNormal
  outDir : ∀ dir ∈ p.outDir, dir.IsNormal
  out : p.out.IsNormal

theorem Plan.isCanonical_of_loadProject (hcwd : w.cwd.isAbsolute = true)
    {config : Option Project.Config} (h : loadProject w o = .ok config) :
    ∀ c ∈ config, c.IsCanonical := by
  intro c hc
  by_cases hproject : (o.project.isSome || o.files.isEmpty) = true
  · obtain ⟨location, path, loaded, hlocation, hfind, hload, hconfig⟩ :=
      (Plan.loadProject_eq_ok hproject).1 h
    obtain rfl : loaded = c := Option.some.inj (hconfig.symm.trans hc)
    exact Project.Config.isCanonical_of_load (Project.isNormal_find? hcwd hlocation hfind) hload
  · unfold loadProject at h
    rw [if_neg hproject] at h
    obtain rfl := Except.ok.inj h
    cases hc

theorem Plan.isNormal_baseOf (hcwd : w.cwd.isAbsolute = true) {config : Option Project.Config}
    (hconfig : ∀ c ∈ config, c.IsCanonical) : (baseOf w o config).IsNormal := by
  unfold baseOf
  apply isNormal_normalize
  cases config with
  | some c =>
    have hc := hconfig c rfl
    dsimp only
    cases hrootDir : c.rootDir with
    | some dir => exact (hc.rootDir dir hrootDir).absolute
    | none => exact hc.dir.absolute
  | none =>
    cases o.baseDir with
    | some dir => exact (absolutize_isNormal hcwd).absolute
    | none => exact hcwd

/-- **The paths of a plan are in normal form**, whatever the options, the files and the chain of
configuration files are. -/
theorem Plan.isCanonical_of_resolve (hcwd : w.cwd.isAbsolute = true)
    (h : Plan.resolve w o = .ok plan) : plan.IsCanonical := by
  obtain ⟨config, hload, hproject, hout, hbase, hfiles, houtDir⟩ := Plan.of_resolve h
  have hconfig := isCanonical_of_loadProject hcwd hload
  have hbaseDir : plan.baseDir.IsNormal := hbase ▸ isNormal_baseOf hcwd hconfig
  refine ⟨hbaseDir, ?_, ?_, ?_, ?_⟩
  · intro file hfile
    rw [hfiles] at hfile
    cases config with
    | some c => exact (hconfig c rfl).files file hfile
    | none =>
      obtain ⟨named, -, rfl⟩ := List.mem_map.1 hfile
      exact absolutize_isNormal hbaseDir.absolute
  · intro path hpath
    rw [hproject] at hpath
    obtain ⟨c, hc, rfl⟩ := Option.map_eq_some_iff.1 hpath
    exact (hconfig c hc).path
  · intro dir hdir
    rw [houtDir] at hdir
    obtain ⟨c, hc, hdir⟩ := Option.bind_eq_some_iff.1 hdir
    exact (hconfig c hc).outDir dir hdir
  · rw [hout]
    exact absolutize_isNormal hcwd

end Plans

/-! ### What the compiler prints -/

/-- **The files that diagnostics tell of** have paths in normal form. -/
theorem Report.isNormal_of_read {cwd : Path} (hcwd : cwd.isAbsolute = true) (output : String) :
    ∀ d ∈ (Report.read cwd output).diagnostics, ∀ file ∈ d.file, file.IsNormal := by
  intro d hd file hfile
  obtain ⟨shown, rfl⟩ := Report.read_file_absolutized cwd output d hd file hfile
  exact absolutize_isNormal hcwd

/-! ### Units -/

section Units

variable {w written : Workspace} {emitted : FileTree} {outDir root rootDir path : Path}
  {all : List Diagnostic} {before paths : List Path} {unit : CompilationUnit}
  {units : List CompilationUnit} {report : Report} {c : Compilation}

/-- **A unit whose paths are absolute and in normal form.** -/
structure CompilationUnit.IsCanonical (u : CompilationUnit) : Prop where
  source : u.sourcePath.IsNormal
  declaration : u.declarationPath.IsNormal

/-- **The unit of a file at or below a root**: it has no declarations, or those written for it. These
belong to a file below the root, not to the root itself. -/
theorem emittedUnit_cases (hroot : root.IsNormal) (hpath : path.IsNormal) {relative : Path}
    {diagnostics : List Diagnostic} (hrelative : path.relativeTo? root = some relative)
    (h : emittedUnit written outDir root path relative diagnostics = .ok unit) :
    unit = .notEmitted path diagnostics ∨ ∃ rs ns text, ns ≠ [] ∧ (∀ n ∈ rs ++ ns, IsName n) ∧
      root = ofNames rs ∧ path = ofNames (rs ++ ns) ∧
      unit = .emitted path (root.join (ofPieces ns).declarationName) text diagnostics := by
  unfold emittedUnit at h
  dsimp only at h
  split at h
  · obtain ⟨text, hread, rfl⟩ := map_eq_ok.1 h
    have hstarts : path.startsWith root = true := by
      by_contra hnot
      unfold relativeTo? at hrelative
      rw [if_neg hnot] at hrelative
      cases hrelative
    obtain ⟨ns, hns, rfl⟩ := isNormal_iff.1 hpath
    obtain ⟨rs, hrs, rfl⟩ := isNormal_iff.1 hroot
    obtain ⟨ms, rfl⟩ := (startsWith_ofNames hrs hns).1 hstarts
    rw [relativeTo?_names hns] at hrelative
    obtain rfl := Option.some.inj hrelative
    refine .inr ⟨rs, ms, text, ?_, hns, rfl, rfl, rfl⟩
    rintro rfl
    -- the name of the root's declarations is empty, and there is no text at the root
    have hname : (Path.mk "/").join (ofPieces []).declarationName = ofNames [] := by decide
    rw [hname] at hread
    exact Workspace.readText_root_ne_ok text (mapError_eq_ok.1 hread)
  · exact .inl (Except.ok.inj h).symm

theorem isCanonical_of_emittedUnit (hroot : root.IsNormal) (hpath : path.IsNormal)
    {relative : Path} {diagnostics : List Diagnostic}
    (hrelative : path.relativeTo? root = some relative)
    (h : emittedUnit written outDir root path relative diagnostics = .ok unit) :
    unit.IsCanonical := by
  rcases emittedUnit_cases hroot hpath hrelative h with rfl | ⟨rs, ns, text, hne, hns, rfl, -, rfl⟩
  · exact ⟨hpath, hpath⟩
  · exact ⟨hpath, isNormal_join_declarationName hne hns⟩

theorem isCanonical_of_unitOf (hroot : root.IsNormal) (hpath : path.IsNormal)
    {diagnostics : List Diagnostic}
    (h : unitOf w written outDir root path diagnostics = .ok unit) : unit.IsCanonical := by
  unfold unitOf at h
  split at h
  · obtain ⟨text, -, rfl⟩ := map_eq_ok.1 h
    exact ⟨hpath, hpath⟩
  · split at h
    · next relative hrelative => exact isCanonical_of_emittedUnit hroot hpath hrelative h
    · obtain rfl := Except.ok.inj h
      exact ⟨hpath, hpath⟩

/-- Each unit is that of one of the files. -/
theorem exists_of_mem_unitsFrom
    (h : unitsFrom w written outDir root all before paths = .ok units) (hunit : unit ∈ units) :
    ∃ path ∈ paths, ∃ diagnostics, unitOf w written outDir root path diagnostics = .ok unit := by
  induction paths generalizing before units with
  | nil =>
    obtain rfl := Except.ok.inj h
    cases hunit
  | cons path paths ih =>
    rw [unitsFrom] at h
    obtain ⟨first, hfirst, h⟩ := bind_eq_ok.1 h
    obtain ⟨rest, hrest, h⟩ := bind_eq_ok.1 h
    obtain rfl := Except.ok.inj h
    rcases List.mem_cons.1 hunit with rfl | hunit
    · exact ⟨path, List.mem_cons_self, _, hfirst⟩
    · obtain ⟨later, hlater, found⟩ := ih hrest hunit
      exact ⟨later, List.mem_cons_of_mem _ hlater, found⟩

/-- **Each unit of a report** is that of a file with a path in normal form. -/
theorem exists_of_mem_collectUnits (hroot : rootDir.IsNormal)
    (h : collectUnits w emitted outDir rootDir report = .ok c) (hunit : unit ∈ c.units) :
    ∃ path : Path, path.IsNormal ∧ ∃ diagnostics,
      unitOf w ⟨emitted, ⟨"/"⟩⟩ outDir rootDir path diagnostics = .ok unit := by
  have hunits := (collectUnits_eq_ok h).1
  rw [hroot.normalized] at hunits
  obtain ⟨path, hpath, found⟩ := exists_of_mem_unitsFrom hunits hunit
  obtain ⟨listed, -, rfl⟩ := List.mem_map.1 hpath
  rw [hroot.normalized] at found
  exact ⟨_, absolutize_isNormal hroot.absolute, found⟩

/-- **The units of any report** have paths in normal form. -/
theorem CompilationUnit.isCanonical_of_collectUnits (hroot : rootDir.IsNormal)
    (h : collectUnits w emitted outDir rootDir report = .ok c) :
    ∀ unit ∈ c.units, unit.IsCanonical := by
  intro unit hunit
  obtain ⟨path, hpath, diagnostics, hunit⟩ := exists_of_mem_collectUnits hroot h hunit
  exact isCanonical_of_unitOf hroot hpath hunit

end Units

/-! ### Runs -/

/-- **All paths that a run compares are in normal form, so that the base directory takes in just the
files that lie there.** The plan has such paths however its options, its project and the patterns in
it are spelled; so have the files of all diagnostics, whatever the compiler prints, and the files of
all units with their declarations. -/
theorem Plan.compares_canonical_paths {w : Workspace} {o : Options} {plan : Plan}
    (hcwd : w.cwd.isAbsolute = true) (hplan : Plan.resolve w o = .ok plan) :
    plan.IsCanonical ∧
    (∀ stdout, ∀ d ∈ (Report.read (plan.request o).rootDir stdout).diagnostics,
      ∀ file ∈ d.file, file.IsNormal) ∧
    ∀ opened emitted outDir report c,
      collectUnits opened emitted outDir (plan.request o).rootDir report = .ok c →
      ∀ unit ∈ c.units, unit.IsCanonical ∧
        (unit.sourcePath.startsWith plan.baseDir = true ↔
          unit.sourcePath.IsWithin plan.baseDir) ∧
        (plan.accepts unit = true ↔ unit.sourcePath.IsWithin plan.baseDir ∧
          plan.excludes.excludes unit.sourcePath = false) := by
  have hcanonical := Plan.isCanonical_of_resolve hcwd hplan
  have hbase : (plan.request o).rootDir.IsNormal := hcanonical.baseDir
  refine ⟨hcanonical, Report.isNormal_of_read hbase.absolute, ?_⟩
  intro opened emitted outDir report c hcollect unit hunit
  have hunits := CompilationUnit.isCanonical_of_collectUnits hbase hcollect unit hunit
  have hwithin := startsWith_iff_isWithin hunits.source hcanonical.baseDir
  refine ⟨hunits, hwithin, ?_⟩
  rw [← hwithin]
  simp [Plan.accepts]

namespace Sample

/-- A project that starts from a file in another directory, with paths in odd spellings. -/
def spelled : Workspace where
  tree := .directory [("p", .directory [
    ("conf", .directory [("base.json", .file (.ofText
      "\x7b\"files\":[\"..//src/./a.ts\"],\"compilerOptions\":\x7b\"rootDir\":\"./../src/x/..\"\x7d\x7d"))]),
    ("src", .directory [("a.ts", .file (.ofText "")), ("b.mts", .file (.ofText ""))]),
    ("tsconfig.json", .file (.ofText
      "\x7b\"extends\":\"./conf/../conf/base\",\"include\":[\"./src/\"]\x7d"))])]
  cwd := ⟨"/p/./conf/.."⟩

/-- The bundle of the project. -/
def spelledOptions : Options :=
  { options with
    baseDir := none
    project := some ⟨"..//p/./"⟩
    files := []
    out := ⟨"out/../o.d.ts"⟩ }

/-- The declarations of the project. -/
def spelledDeclarations : FileTree :=
  .directory [("a.d.ts", .file (.ofText "")), ("b.d.mts", .file (.ofText ""))]

/-- What the compiler prints about the project. -/
def spelledOutput : String :=
  "x/../a.ts(1,2): error TS1005: ';' expected.\n/p/src/../src/a.ts\n/p/./src//b.mts\n/q/../c.ts\n"

end Sample

theorem Plan.compares_canonical_paths_spelled : ∃ plan c,
    Sample.spelled.cwd.isAbsolute = true ∧
    Plan.resolve Sample.spelled Sample.spelledOptions = .ok plan ∧
    plan.baseDir = ⟨"/p/src"⟩ ∧ plan.files = [⟨"/p/src/a.ts"⟩, ⟨"/p/src/b.mts"⟩] ∧
    plan.IsCanonical ∧
    collectUnits Sample.spelled Sample.spelledDeclarations ⟨"/t"⟩
      (plan.request Sample.spelledOptions).rootDir
      (Report.read (plan.request Sample.spelledOptions).rootDir Sample.spelledOutput) = .ok c ∧
    c.units.map (fun u => (u.sourcePath.text, u.declarationPath.text)) =
      [("/p/src/a.ts", "/p/src/a.d.ts"), ("/p/src/b.mts", "/p/src/b.d.mts"),
        ("/c.ts", "/c.ts")] ∧
    ∀ unit ∈ c.units, unit.IsCanonical ∧
      (plan.accepts unit = true ↔ unit.sourcePath.IsWithin plan.baseDir ∧
        plan.excludes.excludes unit.sourcePath = false) := by
  have hplan : ((Plan.resolve Sample.spelled Sample.spelledOptions).map
      fun plan : Plan => (plan.baseDir, plan.files)) =
        .ok (⟨"/p/src"⟩, [⟨"/p/src/a.ts"⟩, ⟨"/p/src/b.mts"⟩]) := by decide +kernel
  have hunits : (collectUnits Sample.spelled Sample.spelledDeclarations ⟨"/t"⟩ ⟨"/p/src"⟩
      (Report.read ⟨"/p/src"⟩ Sample.spelledOutput)).map
        (fun c => c.units.map fun u => (u.sourcePath.text, u.declarationPath.text)) =
      .ok [("/p/src/a.ts", "/p/src/a.d.ts"), ("/p/src/b.mts", "/p/src/b.d.mts"),
        ("/c.ts", "/c.ts")] := by decide +kernel
  obtain ⟨plan, hplan, hfields⟩ := map_eq_ok.1 hplan
  obtain ⟨c, hc, htexts⟩ := map_eq_ok.1 hunits
  obtain ⟨hbase, hfiles⟩ := Prod.mk.inj hfields
  have hroot : (plan.request Sample.spelledOptions).rootDir = ⟨"/p/src"⟩ := hbase
  have hcwd : Sample.spelled.cwd.isAbsolute = true := by decide
  obtain ⟨hcanonical, -, hall⟩ := Plan.compares_canonical_paths hcwd hplan
  rw [← hroot] at hc
  refine ⟨plan, c, hcwd, hplan, hbase, hfiles, hcanonical, hc, htexts, fun unit hunit => ?_⟩
  obtain ⟨hunit, -, haccepts⟩ := hall _ _ _ _ c hc unit hunit
  exact ⟨hunit, haccepts⟩

end AmbientBundle

import AmbientBundle.Proofs.FileWalks
import AmbientBundle.Proofs.Lists
import AmbientBundle.Proofs.Patterns
import AmbientBundle.Proofs.Projects
import Mathlib.Data.List.Nodup

/-!
# Input files, file by file

The search for input files does not look below what is left out. What is left out is closed
downwards, so that nothing is lost by this: the files that are found are those that pass the tests
one by one.

* `isLeftOut_into`: **what is left out is left out with all that is below it.**
* `exists_inputs`: what the search finds.
* `inputFiles_eq_perFile`: **the input files are those that are named, and those that pass the tests
  by themselves.**
* `load_includes_directory`: which files a directory among the patterns takes in.
-/

open AmbientBundle.Path

namespace AmbientBundle.Project

open Text Glob FileTree

variable {w : Workspace} {settings : Settings} {dir : Path} {ns ms : List String}

/-! ### What is left out -/

/-- **What is left out is left out with all that is below it**, where the patterns are seen from the
directory of the search or from one above it. -/
theorem isLeftOut_into {outDir : Option Path} {base : Path} {patterns : List String}
    {left : List Glob} (hleft : readPatterns .leaveOut patterns = .ok left)
    (hbase : dir.startsWith base = true) (hne : ns ≠ []) (h : ∀ n ∈ ns ++ ms, IsName n)
    (hout : isLeftOut outDir base left (dir.into ns) = true) :
    isLeftOut outDir base left (dir.into (ns ++ ms)) = true := by
  by_cases hms : ms = []
  · rw [hms, List.append_nil]
    exact hout
  have hns : ∀ n ∈ ns, IsName n := fun n hn => h n (List.mem_append_left _ hn)
  have hsteps : ∀ m ∈ ms, IsStep m := fun m hm => (h m (List.mem_append_right _ hm)).isStep
  unfold isLeftOut at hout ⊢
  rw [Bool.or_eq_true] at hout ⊢
  rcases hout with hout | hout
  · -- the output directory holds all that is below what it holds
    refine .inl ?_
    cases outDir with
    | none => cases hout
    | some out =>
      rw [Option.any_some] at hout ⊢
      rw [into_append, into_eq_join hms hsteps]
      exact startsWith_join hms hsteps hout
  · refine .inr ?_
    rw [relativeTo?_into hbase hne hns, Option.any_some] at hout
    rw [relativeTo?_into hbase (by simp [hne]) h, Option.any_some]
    have htext : ofPieces (dir.remainder base.components.length ++ (ns ++ ms)) =
        ⟨(ofPieces (dir.remainder base.components.length ++ ns)).text ++
          ("/" ++ "/".intercalate ms)⟩ := by
      unfold ofPieces
      rw [← List.append_assoc, String.intercalate_append_of_ne_nil (by simp [hne]) hms,
        String.append_assoc]
    rw [htext]
    exact anyMatch_below hleft hout _

/-! ### The tests of one file -/

/-- Whether a list of names ends with that of a source file. -/
def EndsAsSource (ns : List String) : Prop :=
  ∃ n ∈ ns.getLast?, ∃ ext ∈ sourceExtensions, ext.toList <:+ n.toList

/-- **A file that patterns take in**, by what is left of it below their directory. -/
def IsTaken (patterns : List String) (ns : List String) : Prop :=
  ∃ p ∈ patterns, ∃ e ∈ expandPattern .takeIn (trimPattern p), ∃ g, Glob.parse e = .ok g ∧
    g.isMatch (ofPieces ns) = true

/-- **A file or a directory that is left out**: it lies in the output directory, or a pattern
matches what is left of it below the directory of the patterns. -/
def IsLeft (outDir : Option Path) (excludes : PatternList) (path : Path) : Prop :=
  (∃ out ∈ outDir, path.startsWith out = true) ∨
  ∃ rest, path.relativeTo? excludes.dir = some rest ∧
    ∃ p ∈ excludes.patterns, ∃ e ∈ expandPattern .leaveOut (trimPattern p), ∃ g,
      Glob.parse e = .ok g ∧ g.isMatch rest = true

theorem isSource_into (hne : ns ≠ []) (h : ∀ n ∈ ns, IsName n) :
    isSource (dir.into ns) = true ↔ EndsAsSource ns := by
  rcases List.eq_nil_or_concat ns with rfl | ⟨front, n, rfl⟩
  · exact absurd rfl hne
  · rw [List.concat_eq_append] at h ⊢
    unfold isSource EndsAsSource
    rw [fileName?_into h, Option.getD_some, List.any_eq_true, List.getLast?_concat]
    simp only [endsWith_iff, Option.mem_some_iff, exists_eq_left']

theorem isTakenIn_into {patterns : List String} {taken : List Glob}
    (htaken : readPatterns .takeIn patterns = .ok taken) (hne : ns ≠ [])
    (h : ∀ n ∈ ns, IsName n) :
    isTakenIn dir taken (dir.into ns) = true ↔ EndsAsSource ns ∧ IsTaken patterns ns := by
  unfold isTakenIn IsTaken
  rw [Bool.and_eq_true, isSource_into hne h, relativeTo?_into_self hne h, Option.any_some,
    anyMatch_iff htaken]

theorem isLeftOut_iff {outDir : Option Path} {excludes : PatternList} {left : List Glob}
    (hleft : readPatterns .leaveOut excludes.patterns = .ok left) {path : Path} :
    isLeftOut outDir excludes.dir left path = true ↔ IsLeft outDir excludes path := by
  unfold isLeftOut IsLeft
  rw [Bool.or_eq_true]
  refine or_congr ?_ ?_
  · cases outDir <;> simp
  · cases hrest : path.relativeTo? excludes.dir with
    | none => simp
    | some rest => simp [anyMatch_iff hleft]

/-! ### All input files -/

variable {includes : PatternList} {taken left : List Glob}

/-- What the search finds, and the input files that come of it. -/
theorem exists_inputs (hordered : w.tree.isOrdered = true)
    (hincludes : includesOf settings dir = some includes)
    (htaken : readPatterns .takeIn includes.patterns = .ok taken)
    (hleft : readPatterns .leaveOut (excludesOf settings dir).patterns = .ok left) :
    ∃ found : List (List String), found.Pairwise (· < ·) ∧
      (∀ ns, ns ∈ found ↔ w.IsFileBelow includes.dir ns ∧
        isReached (fun p => !isLeftOut settings.outDir (excludesOf settings dir).dir left p)
          includes.dir ns = true ∧ isTakenIn includes.dir taken (includes.dir.into ns) = true) ∧
      inputFiles w settings dir = .ok (settings.files.getD [] ++
        found.map fun ns => (includes.dir.into ns).normalize).eraseDups := by
  obtain ⟨found, hsorted, hmem, heq⟩ := Workspace.exists_found hordered includes.dir
    (fun p => !isLeftOut settings.outDir (excludesOf settings dir).dir left p)
    (isTakenIn includes.dir taken)
  refine ⟨found, hsorted, hmem, ?_⟩
  refine inputFiles_eq_ok.2 (.inr ⟨includes, taken, left, hincludes, htaken, hleft, ?_⟩)
  rw [heq, List.map_map]
  rfl

/-- Different names lead to different input files. -/
theorem nodup_map_normalize (dir : Path) {found : List (List String)}
    (hsorted : found.Pairwise (· < ·))
    (hnames : ∀ ns ∈ found, ns ≠ [] ∧ ∀ n ∈ ns, IsName n) :
    (found.map fun ns => (dir.into ns).normalize).Nodup := by
  refine List.Nodup.map_on ?_ (hsorted.imp fun hlt => Std.ne_of_lt hlt)
  intro ns hns ms hms heq
  obtain ⟨hne, hns⟩ := hnames ns hns
  obtain ⟨hne', hms⟩ := hnames ms hms
  rw [normalize_into hne hns, normalize_into hne' hms] at heq
  exact into_injective hns hms heq

/-- **A file that the patterns ask for**, by tests of this file alone. -/
structure IsAskedFor (w : Workspace) (outDir : Option Path) (includes excludes : PatternList)
    (ns : List String) : Prop where
  file : w.IsFileBelow includes.dir ns
  source : EndsAsSource ns
  taken : IsTaken includes.patterns ns
  kept : ¬ IsLeft outDir excludes (includes.dir.into ns)

/-- **The input files, file by file.** They are the files that are named, each once, and then the
files below the directory of the patterns that are asked for by tests of each file alone, in the
order of their names and without those that are named already. So nothing is lost by not looking
below what is left out. -/
theorem inputFiles_eq_perFile (hordered : w.tree.isOrdered = true)
    (hnamed : w.tree.isNamed = true) (hincludes : includesOf settings dir = some includes)
    (hfile : w.isFile includes.dir = false)
    (hbase : includes.dir.startsWith (excludesOf settings dir).dir = true)
    (htaken : readPatterns .takeIn includes.patterns = .ok taken)
    (hleft : readPatterns .leaveOut (excludesOf settings dir).patterns = .ok left) :
    ∃ found : List (List String), found.Pairwise (· < ·) ∧
      (∀ ns, ns ∈ found ↔
        IsAskedFor w settings.outDir includes (excludesOf settings dir) ns) ∧
      ∃ files, inputFiles w settings dir = .ok files ∧ files.Nodup ∧
        files = (settings.files.getD []).eraseDups ++
          (found.map fun ns => (includes.dir.into ns).normalize).filter
            fun p => p ∉ settings.files.getD [] := by
  obtain ⟨found, hsorted, hmem, hfiles⟩ := exists_inputs hordered hincludes htaken hleft
  -- what is left out is closed downwards, so that a file is reached iff it is not left out
  have hclosed : IsClosedBelow
      (fun p => !isLeftOut settings.outDir (excludesOf settings dir).dir left p)
      includes.dir := by
    intro ns ms hne hnames hkeep
    rw [Bool.not_eq_true', Bool.eq_false_iff] at hkeep ⊢
    exact fun hout => hkeep (isLeftOut_into hleft hbase hne hnames hout)
  have hnames : ∀ ns, w.IsFileBelow includes.dir ns → ns ≠ [] ∧ ∀ n ∈ ns, IsName n :=
    fun ns hbelow => ⟨hbelow.ne_nil hfile, hbelow.isName hnamed⟩
  have hnodup := nodup_map_normalize includes.dir hsorted
    fun ns hns => hnames ns ((hmem ns).1 hns).1
  refine ⟨found, hsorted, fun ns => ?_, _, hfiles, eraseDups_nodup _, ?_⟩
  · rw [hmem]
    constructor
    · rintro ⟨hbelow, hreached, htest⟩
      obtain ⟨hne, hns⟩ := hnames ns hbelow
      obtain ⟨hsource, hmatch⟩ := (isTakenIn_into htaken hne hns).1 htest
      rw [isReached_of_isClosedBelow hclosed hne hns, Bool.not_eq_true', Bool.eq_false_iff,
        ne_eq, isLeftOut_iff hleft] at hreached
      exact ⟨hbelow, hsource, hmatch, hreached⟩
    · intro hasked
      obtain ⟨hne, hns⟩ := hnames ns hasked.file
      refine ⟨hasked.file, ?_, (isTakenIn_into htaken hne hns).2 ⟨hasked.source, hasked.taken⟩⟩
      rw [isReached_of_isClosedBelow hclosed hne hns, Bool.not_eq_true', Bool.eq_false_iff,
        ne_eq, isLeftOut_iff hleft]
      exact hasked.kept
  · have hremove : ∀ l : List Path, l.removeAll (settings.files.getD []) =
        l.filter fun p => p ∉ settings.files.getD [] := by
      intro l
      unfold List.removeAll
      refine List.filter_congr fun p _ => ?_
      rw [List.elem_eq_contains, List.contains_eq_mem, decide_not]
    rw [List.eraseDups_append, hremove, eraseDups_of_nodup (hnodup.filter _)]

namespace Sample

/-- A project whose configuration file takes in what an entry stands for. Some of its files are
generated, and some are output. -/
def including (entry : String) : Workspace where
  tree := .directory [("p", .directory [
    ("a.ts", .file (.ofText "")),
    ("out", .directory [("a.ts", .file (.ofText ""))]),
    ("src", .directory [
      ("deep", .directory [("b.tsx", .file (.ofText "")), ("notes.md", .file (.ofText ""))]),
      ("gen", .directory [("c.ts", .file (.ofText ""))])]),
    ("tsconfig.json", .file (.ofText
      ("\x7b\"compilerOptions\":\x7b\"outDir\":\"out\"\x7d,\"exclude\":[\"src/gen\"]," ++
        "\"include\":[\"" ++ entry ++ "\"]\x7d")))])]
  cwd := ⟨"/p"⟩

/-- The settings of the project. -/
def includingSettings (entry : String) : Settings :=
  { Settings.empty with
    includes := some ⟨⟨"/p"⟩, [entry]⟩
    excludes := some ⟨⟨"/p"⟩, ["src/gen"]⟩
    outDir := some ⟨"/p/out"⟩ }

end Sample

theorem inputFiles_eq_perFile_nested :
    inputFiles (Sample.including "**/*") (Sample.includingSettings "**/*") ⟨"/p"⟩ =
      .ok [⟨"/p/a.ts"⟩, ⟨"/p/src/deep/b.tsx"⟩] ∧
    ∃ found : List (List String), found.Pairwise (· < ·) ∧
      (∀ ns, ns ∈ found ↔ IsAskedFor (Sample.including "**/*") (some ⟨"/p/out"⟩)
        ⟨⟨"/p"⟩, ["**/*"]⟩ ⟨⟨"/p"⟩, ["src/gen"]⟩ ns) ∧
      found.map (fun ns => (Path.into ⟨"/p"⟩ ns).normalize) =
        [⟨"/p/a.ts"⟩, ⟨"/p/src/deep/b.tsx"⟩] := by
  have hfiles : inputFiles (Sample.including "**/*") (Sample.includingSettings "**/*") ⟨"/p"⟩ =
      .ok [⟨"/p/a.ts"⟩, ⟨"/p/src/deep/b.tsx"⟩] := by decide +kernel
  have htaken : (readPatterns .takeIn ["**/*"]).map List.length = .ok 1 := by decide +kernel
  have hleft : (readPatterns .leaveOut ["src/gen"]).map List.length = .ok 2 := by decide +kernel
  obtain ⟨taken, htaken, -⟩ := map_eq_ok.1 htaken
  obtain ⟨left, hleft, -⟩ := map_eq_ok.1 hleft
  have hordered : (Sample.including "**/*").tree.isOrdered = true := by decide +kernel
  have hincludes : includesOf (Sample.includingSettings "**/*") ⟨"/p"⟩ =
      some ⟨⟨"/p"⟩, ["**/*"]⟩ := rfl
  obtain ⟨found, hsorted, hmem, files, hok, -, heq⟩ :=
    inputFiles_eq_perFile hordered (by decide +kernel) hincludes (by decide +kernel)
      (by decide +kernel) htaken hleft
  refine ⟨hfiles, found, hsorted, hmem, ?_⟩
  rw [hfiles] at hok
  rw [Except.ok.inj hok, heq]
  exact (List.filter_eq_self.2 fun p _ => by simp [Sample.includingSettings, Settings.empty]).symm

/-! ### Directories among the patterns -/

/-- What is named or found is in the list of input files. -/
theorem mem_load_files {path : Path} {config : Config} (hload : Config.load w path = .ok config)
    (hsettings : loadSettings w (Config.fuel w) [] path.normalize = .ok settings)
    (hincludes : settings.includes = some includes) (hordered : w.tree.isOrdered = true) :
    ∃ taken left, readPatterns .takeIn includes.patterns = .ok taken ∧
      readPatterns .leaveOut (excludesOf settings (directoryOf path.normalize)).patterns =
        .ok left ∧
      ∀ file, file ∈ config.files ↔ file ∈ settings.files.getD [] ∨
        ∃ ns, w.IsFileBelow includes.dir ns ∧
          isReached (fun p => !isLeftOut settings.outDir
            (excludesOf settings (directoryOf path.normalize)).dir left p) includes.dir ns = true ∧
          isTakenIn includes.dir taken (includes.dir.into ns) = true ∧
          (includes.dir.into ns).normalize = file := by
  obtain ⟨_, hsame, _, -, _, -, files, hfiles, rfl⟩ := load_eq_ok.1 hload
  obtain rfl := Except.ok.inj (hsettings.symm.trans hsame)
  have hsome : includesOf settings (directoryOf path.normalize) = some includes := by
    unfold includesOf
    rw [hincludes]
  rcases inputFiles_eq_ok.1 hfiles with ⟨hnone, -⟩ | ⟨_, taken, left, heq, htaken, hleft, -⟩
  · rw [hsome] at hnone
    cases hnone
  · obtain rfl := Option.some.inj (hsome.symm.trans heq)
    obtain ⟨found, -, hmem, hfound⟩ := exists_inputs hordered hsome htaken hleft
    refine ⟨taken, left, htaken, hleft, fun file => ?_⟩
    obtain rfl := Except.ok.inj (hfiles.symm.trans hfound)
    simp only [List.mem_eraseDups, List.mem_append, List.mem_map, hmem, and_assoc]

/-- **Which files a directory among the patterns takes in.** Named by plain names, it takes in every
source file below it that is not left out, as far as the search gets there: it does where the
patterns of what is left out are seen from the directory of the search or from one above, and
otherwise where no directory on the way is left out. Written as a dot, it takes in nothing: each
file is there for its own name or for another pattern. -/
theorem load_includes_directory {path : Path} {config : Config}
    (hload : Config.load w path = .ok config)
    (hsettings : loadSettings w (Config.fuel w) [] path.normalize = .ok settings)
    (hincludes : settings.includes = some includes) (hordered : w.tree.isOrdered = true)
    (hnamed : w.tree.isNamed = true) :
    (∀ pattern ∈ includes.patterns, ∀ ds, NamesPlainly pattern ds → ∀ ns, ns ≠ [] →
      w.IsFileBelow includes.dir (ds ++ ns) → EndsAsSource (ds ++ ns) →
      ¬ IsLeft settings.outDir (excludesOf settings (directoryOf path.normalize))
        (includes.dir.into (ds ++ ns)) →
      (includes.dir.startsWith (excludesOf settings (directoryOf path.normalize)).dir = true ∨
        ∀ front, front ≠ [] → front <+: ds ++ ns →
          ¬ IsLeft settings.outDir (excludesOf settings (directoryOf path.normalize))
            (includes.dir.into front)) →
      (includes.dir.into (ds ++ ns)).normalize ∈ config.files) ∧
    (w.isFile includes.dir = false → ∀ file ∈ config.files, file ∈ settings.files.getD [] ∨
      ∃ ns, w.IsFileBelow includes.dir ns ∧ (includes.dir.into ns).normalize = file ∧
        ∃ pattern ∈ includes.patterns, ¬ IsHere pattern ∧ IsTaken [pattern] ns) := by
  obtain ⟨taken, left, htaken, hleft, hmem⟩ := mem_load_files hload hsettings hincludes hordered
  constructor
  · intro pattern hpattern ds hds ns hne hbelow hsource hkept hway
    have hnames := hbelow.isName hnamed
    have hne' : ds ++ ns ≠ [] := by simp [hne]
    refine (hmem _).2 (.inr ⟨ds ++ ns, hbelow, ?_, ?_, rfl⟩)
    · rw [isReached_iff]
      rintro front hfront ⟨rest, hrest⟩
      rw [Bool.not_eq_true', Bool.eq_false_iff, ne_eq]
      rcases hway with hbase | hway
      · -- what is left out on the way would be left out with the file
        intro hout
        rw [← hrest] at hnames hkept
        exact hkept ((isLeftOut_iff hleft).1 (isLeftOut_into hleft hbase hfront hnames hout))
      · rw [isLeftOut_iff hleft]
        exact hway front hfront ⟨rest, hrest⟩
    · refine (isTakenIn_into htaken hne' hnames).2 ⟨hsource, (anyMatch_iff htaken).1 ?_⟩
      exact anyMatch_of_namesPlainly htaken hpattern hds hne
        fun n hn => hnames n (List.mem_append_right _ hn)
  · intro hfile file hin
    refine ((hmem file).1 hin).imp_right ?_
    rintro ⟨ns, hbelow, -, htest, hnormal⟩
    have hne := hbelow.ne_nil hfile
    have hnames := hbelow.isName hnamed
    obtain ⟨-, p, hp, e, he, g, hparse, hmatch⟩ := (isTakenIn_into htaken hne hnames).1 htest
    refine ⟨ns, hbelow, hnormal, p, hp, fun hhere => ?_, p, List.mem_singleton_self p, e, he, g,
      hparse, hmatch⟩
    rw [not_isMatch_of_isHere hhere he hparse hne hnames] at hmatch
    cases hmatch

theorem load_includes_directory_spelled :
    NamesPlainly "./src/" ["src"] ∧
    ∃ config, Config.load (Sample.including "./src/") ⟨"/p/tsconfig.json"⟩ = .ok config ∧
      (Path.into ⟨"/p"⟩ (["src"] ++ ["deep", "b.tsx"])).normalize ∈ config.files := by
  have hspelled : NamesPlainly "./src/" ["src"] := by
    refine ⟨⟨"./", by decide, "/", by decide, by decide⟩, by decide, ?_, ?_, ?_⟩
    · intro d hd
      obtain rfl := List.mem_singleton.1 hd
      exact isName_iff.2 (by decide)
    · intro d hd
      obtain rfl := List.mem_singleton.1 hd
      exact List.all_eq_true.1 (by decide)
    · rintro d ⟨⟩
      decide
  have hfiles : (Config.load (Sample.including "./src/") ⟨"/p/tsconfig.json"⟩).map Config.files =
      .ok [⟨"/p/src/deep/b.tsx"⟩] := by decide +kernel
  have hsettings : loadSettings (Sample.including "./src/")
      (Config.fuel (Sample.including "./src/")) [] (Path.normalize ⟨"/p/tsconfig.json"⟩) =
        .ok (Sample.includingSettings "./src/") := by decide +kernel
  have hkept : ((readPatterns .leaveOut ["src/gen"]).map fun left =>
      isLeftOut (some ⟨"/p/out"⟩) ⟨"/p"⟩ left (Path.into ⟨"/p"⟩ ["src", "deep", "b.tsx"])) =
        .ok false := by decide +kernel
  have hbelow : (Sample.including "./src/").IsFileBelow (ofNames ["p"])
      ["src", "deep", "b.tsx"] := by
    have hp : ∀ n ∈ ["p"], IsName n := by
      intro n hn
      obtain rfl := List.mem_singleton.1 hn
      exact isName_iff.2 (by decide)
    exact ⟨_, _, (Workspace.node_ofNames_iff rfl hp).2 rfl, rfl⟩
  obtain ⟨config, hload, -⟩ := map_eq_ok.1 hfiles
  obtain ⟨left, hleft, hout⟩ := map_eq_ok.1 hkept
  refine ⟨hspelled, config, hload, (load_includes_directory hload hsettings rfl (by decide +kernel)
    (by decide +kernel)).1 "./src/" List.mem_cons_self ["src"] hspelled ["deep", "b.tsx"]
      (by decide) hbelow ?_ ?_ (.inl (by decide +kernel))⟩
  · exact ⟨"b.tsx", rfl, ".tsx", by decide, by decide⟩
  · exact fun hin => Bool.false_ne_true (hout.symm.trans ((isLeftOut_iff hleft).2 hin))

/-- **A dot among the patterns takes in no file**, though there are source files below its directory
that are not left out: the pattern for all files finds them. -/
theorem dot_takes_in_nothing :
    (∀ entry ∈ [".", "./"], (Sample.including entry).isFile ⟨"/p/a.ts"⟩ = true ∧
      (Config.load (Sample.including entry) ⟨"/p/tsconfig.json"⟩).map Config.files = .ok []) ∧
    (Config.load (Sample.including "**/*") ⟨"/p/tsconfig.json"⟩).map Config.files =
      .ok [⟨"/p/a.ts"⟩, ⟨"/p/src/deep/b.tsx"⟩] := by
  decide +kernel

end AmbientBundle.Project

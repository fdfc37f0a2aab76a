import AmbientBundle.Proofs.Inheritance

/-!
# Files that start from themselves

A file that starts from itself, directly or by way of others, cannot be read. Loading notices this
when it comes upon a file that is open, that is, one on the way from the first file to the one that
it is at. It comes to that only if nothing before it fails: neither an earlier file in the order,
nor one of those that are open.

* `GetsTo`: a file is read as far as one of the names of files that it starts from.
* `Comes`: a file is come upon while others are open; `Comes.areOpen`, `Comes.transGen`: what is
  open.
* `FailsAt`: why loading fails at a file that it came upon.
* `loadSettings_eq_error_iff`: **loading fails where it first comes upon a reason.**
* `loadSettings_circular_iff`: **loading ends, and finds a circle exactly if it comes upon one.**
-/

namespace AmbientBundle.Project

open Relation

variable {w : Workspace} {start path up : Path} {chain : List Path} {name : String} {fault : Fault}

/-! ### On the way -/

/-- **A file is read as far as a name**: all files that are named before it are read, with all that
they start from. -/
def GetsTo (w : Workspace) (path : Path) (name : String) : Prop :=
  ∃ file before after ups visits, readConfig w path = .ok file ∧
    file.parents = before ++ name :: after ∧
    before.map (parentPath? w (directoryOf path)) = ups.map some ∧ Reads w ups visits

/-- **A file is come upon** from a first one, while some files are open: either it is the first one,
or the last open file is read as far as its name, and was not open yet. -/
inductive Comes (w : Workspace) (start : Path) : List Path → Path → Prop
  | start : Comes w start [] start
  | parent {chain : List Path} {path up : Path} {name : String} :
      Comes w start chain path → path ∉ chain → GetsTo w path name →
      parentPath? w (directoryOf path) name = some up → Comes w start (chain ++ [path]) up

/-- **Why loading fails at a file** while some files are open: the file is one of them, it is
refused, or there is no file of a name that it is read up to. -/
inductive FailsAt (w : Workspace) (chain : List Path) (path : Path) : Fault → Prop
  | circular : path ∈ chain → FailsAt w chain path ⟨path, .circular path⟩
  | refused {fault : Fault} : path ∉ chain → readConfig w path = .error fault →
      FailsAt w chain path fault
  | missing {name : String} : path ∉ chain → GetsTo w path name →
      parentPath? w (directoryOf path) name = none →
      FailsAt w chain path ⟨path, .parentMissing name⟩

theorem GetsTo.startsFrom (h : GetsTo w path name)
    (hup : parentPath? w (directoryOf path) name = some up) : StartsFrom w path up := by
  obtain ⟨file, before, after, -, -, hread, hparents, -⟩ := h
  have hname : name ∈ file.parents := by
    rw [hparents]
    exact List.mem_append_right _ List.mem_cons_self
  exact ⟨file, name, hread, hname, hup⟩

namespace Comes

theorem isNormal (h : Comes w start chain path) (hstart : start.IsNormal) : path.IsNormal := by
  induction h with
  | start => exact hstart
  | parent _ _ hgets hup ih =>
    obtain ⟨file, _, _, _, _, hread, -⟩ := hgets
    exact isNormal_of_parentPath? (isNormal_directoryOf ih hread) hup

/-- **No file is open twice.** -/
theorem areOpen (h : Comes w start chain path) (hstart : start.IsNormal) : AreOpen w chain := by
  induction h with
  | start => exact .nil
  | parent hcomes hnew hgets _ ih =>
    obtain ⟨file, _, _, _, _, hread, -⟩ := hgets
    exact ih.push (hcomes.isNormal hstart) hread hnew

/-- **All open files start from the file that is come upon.** -/
theorem transGen (h : Comes w start chain path) : ∀ p ∈ chain, TransGen (StartsFrom w) p path := by
  induction h with
  | start => intro p hp; cases hp
  | parent _ _ hgets hup ih =>
    have hstep := hgets.startsFrom hup
    intro p hp
    rcases List.mem_append.1 hp with hp | hp
    · exact (ih p hp).tail hstep
    · rw [List.mem_singleton.1 hp]
      exact .single hstep

/-- The files that are read before a name have nothing to do with those that are open: they would
start from themselves. -/
theorem not_open (h : Comes w start chain path) {ups : List Path} {visits : List Visit}
    (hreads : Reads w ups visits) (hups : ∀ up ∈ ups, StartsFrom w path up) :
    ∀ v ∈ visits, v.path ∉ chain ++ [path] := by
  intro v hv hmem
  obtain ⟨⟨part, hpart⟩, up, hup, hreach⟩ := hreads.of_visit hv
  have hopen : ReflTransGen (StartsFrom w) v.path path := by
    rcases List.mem_append.1 hmem with hmem | hmem
    · exact (h.transGen _ hmem).to_reflTransGen
    · rw [List.mem_singleton.1 hmem]
  have hback : TransGen (StartsFrom w) path v.path := .head' (hups up hup) hreach
  exact hpart.acyclic (hback.trans_right hopen)

/-- As far as a file is read, what it starts from is loaded. -/
theorem foldlM_of_getsTo (h : Comes w start chain path) (hgets : GetsTo w path name) :
    ∃ file before after bound, readConfig w path = .ok file ∧
      file.parents = before ++ name :: after ∧
      ∀ n, bound ≤ n → ∃ mid, before.foldlM (inheritFrom w n chain path) .empty = .ok mid := by
  obtain ⟨file, before, after, ups, visits, hread, hparents, hups, hreads⟩ := hgets
  refine ⟨file, before, after, visits.length, hread, hparents, fun n hn => ?_⟩
  have hstarts : ∀ up ∈ ups, StartsFrom w path up := by
    intro up hup
    have hmem : some up ∈ before.map (parentPath? w (directoryOf path)) := by
      rw [hups]
      exact List.mem_map_of_mem hup
    obtain ⟨name', hname', hup'⟩ := List.mem_map.1 hmem
    have hparent : name' ∈ file.parents := by
      rw [hparents]
      exact List.mem_append_left _ hname'
    exact ⟨file, name', hread, hparent, hup'⟩
  exact ⟨_, foldlM_of_reads hreads hups (h.not_open hreads hstarts) hn .empty⟩

end Comes

/-! ### Failing -/

/-- Loading fails at a file with a fault, whatever fuel is left from some bound on. -/
def FailsWith (w : Workspace) (chain : List Path) (path : Path) (fault : Fault) : Prop :=
  ∃ bound, ∀ n, bound ≤ n → loadSettings w n chain path = .error fault

/-- A file fails with a name that it is read up to. -/
theorem Comes.failsWith_of_step (h : Comes w start chain path) (hnew : path ∉ chain)
    (hgets : GetsTo w path name)
    (hstep : ∃ bound, ∀ n, bound ≤ n → ∀ under,
      inheritFrom w n chain path under name = .error fault) : FailsWith w chain path fault := by
  obtain ⟨bound, hbound⟩ := hstep
  obtain ⟨file, before, after, bound', hread, hparents, hbefore⟩ := h.foldlM_of_getsTo hgets
  refine ⟨bound + bound' + 1, fun n hn => ?_⟩
  obtain ⟨m, rfl⟩ : ∃ m, n = m + 1 := ⟨n - 1, by omega⟩
  obtain ⟨mid, hmid⟩ := hbefore m (by omega)
  have hfails := hbound m (by omega) mid
  have hfold : file.parents.foldlM (inheritFrom w m chain path) .empty = .error fault :=
    foldlM_eq_error.2 ⟨before, name, after, mid, hparents, hmid, hfails⟩
  exact loadSettings_eq_error.2 (.inr ⟨hnew, .inr ⟨file, hread, hfold⟩⟩)

/-- **Loading fails with the file that it comes upon.** -/
theorem Comes.failsWith_start (h : Comes w start chain path)
    (hfails : FailsWith w chain path fault) : FailsWith w [] start fault := by
  induction h with
  | start => exact hfails
  | @parent chain path up name hcomes hnew hgets hup ih =>
    obtain ⟨bound, hbound⟩ := hfails
    apply ih
    apply hcomes.failsWith_of_step hnew hgets
    exact ⟨bound, fun n hn under => inheritFrom_eq_error.2 (.inr ⟨up, hup, hbound n hn⟩)⟩

theorem Comes.failsWith_of_failsAt (h : Comes w start chain path)
    (hfails : FailsAt w chain path fault) : FailsWith w chain path fault := by
  cases hfails with
  | circular hmem =>
    refine ⟨0, fun n _ => ?_⟩
    cases n with
    | zero => rfl
    | succ n => exact loadSettings_eq_error.2 (.inl ⟨hmem, rfl⟩)
  | refused hnew hread =>
    refine ⟨1, fun n hn => ?_⟩
    obtain ⟨m, rfl⟩ : ∃ m, n = m + 1 := ⟨n - 1, by omega⟩
    exact loadSettings_eq_error.2 (.inr ⟨hnew, .inl hread⟩)
  | missing hnew hgets hnone =>
    apply h.failsWith_of_step hnew hgets
    exact ⟨0, fun n _ under => inheritFrom_eq_error.2 (.inl ⟨hnone, rfl⟩)⟩

/-- **Where loading fails, it comes upon a reason**, as long as fuel is left. -/
theorem Comes.exists_failsAt {n : Nat} (h : Comes w start chain path) (hstart : start.IsNormal)
    (hn : w.allFiles.length < chain.length + n)
    (hfails : loadSettings w n chain path = .error fault) :
    ∃ chain' path', Comes w start chain' path' ∧ FailsAt w chain' path' fault := by
  induction n generalizing chain path with
  | zero =>
    have hlen := (h.areOpen hstart).length_le
    omega
  | succ n ih =>
    rcases loadSettings_eq_error.1 hfails with ⟨hmem, rfl⟩ | ⟨hnew, hread | ⟨file, hread, hfold⟩⟩
    · exact ⟨chain, path, h, .circular hmem⟩
    · exact ⟨chain, path, h, .refused hnew hread⟩
    · obtain ⟨before, name, after, mid, hparents, hmid, hstep⟩ := foldlM_eq_error.1 hfold
      obtain ⟨ups, visits, hups, hreads, -⟩ :=
        exists_reads_of_foldlM (fun up above hup => exists_reads hup) hmid
      have hgets : GetsTo w path name :=
        ⟨file, before, after, ups, visits, hread, hparents, hups, hreads⟩
      rcases inheritFrom_eq_error.1 hstep with ⟨hnone, rfl⟩ | ⟨up, hup, hload⟩
      · exact ⟨chain, path, h, .missing hnew hgets hnone⟩
      · have hlonger : (chain ++ [path]).length = chain.length + 1 := List.length_append
        exact ih (.parent h hnew hgets hup) (by omega) hload

/-- **Loading fails where it first comes upon a reason.** -/
theorem loadSettings_eq_error_iff (hstart : start.IsNormal) :
    loadSettings w (Config.fuel w) [] start = .error fault ↔
      ∃ chain path, Comes w start chain path ∧ FailsAt w chain path fault := by
  constructor
  · intro h
    have hlarge : w.allFiles.length < w.allFiles.length + 1 := by omega
    rw [← loadSettings_of_fuel hstart hlarge] at h
    exact Comes.start.exists_failsAt hstart (by simp) h
  · rintro ⟨chain, path, hcomes, hfails⟩
    obtain ⟨bound, hbound⟩ := hcomes.failsWith_start (hcomes.failsWith_of_failsAt hfails)
    have hlarge : w.allFiles.length < w.allFiles.length + 1 + bound := by omega
    rw [← loadSettings_of_fuel hstart hlarge]
    exact hbound _ (by omega)

/-- What a circle is found at. -/
theorem FailsAt.circular_iff {p q : Path} :
    FailsAt w chain path ⟨q, .circular p⟩ ↔ path ∈ chain ∧ q = path ∧ p = path := by
  constructor
  · generalize hfault : (⟨q, .circular p⟩ : Fault) = fault
    intro h
    cases h with
    | circular hmem =>
      obtain ⟨rfl, hcause⟩ := Fault.mk.inj hfault
      exact ⟨hmem, rfl, Cause.circular.inj hcause⟩
    | refused _ hread =>
      rw [← hfault] at hread
      obtain ⟨cause, h⟩ | ⟨place, cause, h⟩ := fault_of_readConfig hread
      · cases (Fault.mk.inj h).2
      · cases (Fault.mk.inj h).2
    | missing => cases (Fault.mk.inj hfault).2
  · rintro ⟨hmem, rfl, rfl⟩
    exact .circular hmem

/-- The circles of a project are those of its configuration files. -/
theorem load_eq_error_circular {p q : Path} :
    Config.load w path = .error ⟨q, .circular p⟩ ↔
      loadSettings w (Config.fuel w) [] path.normalize = .error ⟨q, .circular p⟩ := by
  unfold Config.load
  simp only [bind_eq_error, mapError_eq_error, mapError_eq_ok, pure, Except.pure]
  simp

/-- **Loading ends, and finds a circle exactly if it comes upon one.** From an absolute path on:

* No file is open twice, so that never more files are open than there are; and loading comes to the
  same however often files may be opened beyond that.
* Settings are loaded exactly if the files can be read in an order.
* A circle is found exactly if a file is come upon while it is open, so that nothing has failed
  before; this is also what loading a project then fails with.
* A file at which a circle is found does start from itself. -/
theorem loadSettings_circular_iff (w : Workspace) (path : Path) (habs : path.isAbsolute = true) :
    (∀ chain p, Comes w path.normalize chain p →
      chain.Nodup ∧ chain ⊆ w.allFiles ∧ chain.length ≤ w.allFiles.length) ∧
    (∀ n, w.allFiles.length < n →
      loadSettings w n [] path.normalize = loadSettings w (Config.fuel w) [] path.normalize) ∧
    ((∃ settings, loadSettings w (Config.fuel w) [] path.normalize = .ok settings) ↔
      ∃ visits, Reads w [path.normalize] visits) ∧
    (∀ p q, loadSettings w (Config.fuel w) [] path.normalize = .error ⟨q, .circular p⟩ ↔
      q = p ∧ ∃ chain, Comes w path.normalize chain p ∧ p ∈ chain) ∧
    (∀ p q, Config.load w path = .error ⟨q, .circular p⟩ ↔
      loadSettings w (Config.fuel w) [] path.normalize = .error ⟨q, .circular p⟩) ∧
    (∀ p q, loadSettings w (Config.fuel w) [] path.normalize = .error ⟨q, .circular p⟩ →
      TransGen (StartsFrom w) p p) := by
  have hnormal := Path.isNormal_normalize habs
  have hcircle : ∀ p q,
      loadSettings w (Config.fuel w) [] path.normalize = .error ⟨q, .circular p⟩ ↔
        q = p ∧ ∃ chain, Comes w path.normalize chain p ∧ p ∈ chain := by
    intro p q
    rw [loadSettings_eq_error_iff hnormal]
    constructor
    · rintro ⟨chain, p', hcomes, hfails⟩
      obtain ⟨hmem, rfl, rfl⟩ := FailsAt.circular_iff.1 hfails
      exact ⟨rfl, chain, hcomes, hmem⟩
    · rintro ⟨rfl, chain, hcomes, hmem⟩
      exact ⟨chain, q, hcomes, .circular hmem⟩
  refine ⟨?_, fun n hn => loadSettings_of_fuel hnormal hn, ?_, hcircle,
    fun p q => load_eq_error_circular, ?_⟩
  · intro chain p hcomes
    have hopen := hcomes.areOpen hnormal
    exact ⟨hopen.nodup, hopen.files, hopen.length_le⟩
  · simp only [loadSettings_eq_ok_iff_reads hnormal]
    constructor
    · rintro ⟨_, visits, hreads, -⟩
      exact ⟨visits, hreads⟩
    · rintro ⟨visits, hreads⟩
      exact ⟨_, visits, hreads, rfl⟩
  · intro p q hload
    obtain ⟨-, chain, hcomes, hmem⟩ := (hcircle p q).1 hload
    exact hcomes.transGen p hmem

namespace Sample

/-- Files with a common one, where the second file leads back to the first. -/
def ring : Workspace where
  tree := .directory [
    ("a.json", .file (.ofText "\x7b\"extends\":\"./c\"\x7d")),
    ("b.json", .file (.ofText "\x7b\"extends\":[\"./c\",\"./t\"]\x7d")),
    ("c.json", .file (.ofText "\x7b\x7d")),
    ("t.json", .file (.ofText "\x7b\"extends\":[\"./a\",\"./b\"]\x7d"))]
  cwd := ⟨"/"⟩

theorem reads_common : Reads ring [⟨"/c.json"⟩] ([] ++ [⟨⟨"/c.json"⟩, .empty⟩]) :=
  .cons (by decide +kernel) (by decide +kernel) .nil .nil

theorem reads_first : Reads ring [⟨"/a.json"⟩] ([⟨⟨"/c.json"⟩, .empty⟩] ++
    [⟨⟨"/a.json"⟩, { ConfigFile.empty with parents := ["./c"] }⟩]) :=
  .cons (by decide +kernel) (by decide +kernel) reads_common .nil

/-- The common file is read twice, and then the first file is met again. -/
theorem comes_back : Comes ring ⟨"/t.json"⟩ ([] ++ [⟨"/t.json"⟩] ++ [⟨"/b.json"⟩]) ⟨"/t.json"⟩ := by
  have htop : GetsTo ring ⟨"/t.json"⟩ "./b" :=
    ⟨{ ConfigFile.empty with parents := ["./a", "./b"] }, ["./a"], [], _, _, by decide +kernel, rfl,
      by decide +kernel, reads_first⟩
  have hsecond : GetsTo ring ⟨"/b.json"⟩ "./t" :=
    ⟨{ ConfigFile.empty with parents := ["./c", "./t"] }, ["./c"], [], _, _, by decide +kernel, rfl,
      by decide +kernel, reads_common⟩
  apply Comes.parent _ (by decide) hsecond (by decide +kernel)
  exact Comes.parent .start (by decide) htop (by decide +kernel)

end Sample

theorem loadSettings_circular_iff_ring :
    (∃ settings, loadSettings Sample.diamond (Config.fuel Sample.diamond) [] Sample.top.path =
      .ok settings) ∧
    Config.load Sample.ring ⟨"/t.json"⟩ = .error ⟨⟨"/t.json"⟩, .circular ⟨"/t.json"⟩⟩ ∧
    TransGen (StartsFrom Sample.ring) ⟨"/t.json"⟩ ⟨"/t.json"⟩ := by
  have htop : Sample.top.path.normalize = Sample.top.path := by decide
  have hfirst : Path.normalize ⟨"/t.json"⟩ = ⟨"/t.json"⟩ := by decide
  obtain ⟨-, -, hordered, -⟩ :=
    loadSettings_circular_iff Sample.diamond Sample.top.path (by decide)
  obtain ⟨-, -, -, hcircle, hproject, hreal⟩ :=
    loadSettings_circular_iff Sample.ring ⟨"/t.json"⟩ (by decide)
  rw [htop] at hordered
  rw [hfirst] at hcircle hproject hreal
  have hfound := (hcircle _ _).2 ⟨rfl, _, Sample.comes_back, by decide⟩
  exact ⟨hordered.2 ⟨_, Sample.reads_top⟩, (hproject _ _).2 hfound, hreal _ _ hfound⟩

end AmbientBundle.Project

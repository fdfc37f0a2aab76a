import AmbientBundle.Proofs.Projects
import Mathlib.Data.List.Perm.Subperm
import Mathlib.Logic.Relation

/-!
# The order in which configuration files are read

A configuration file is read after all that it starts from, in the order in which these are named,
and a file that several others start from is read once for each of them. While it is read, the files
on the way to it are open; none of them is open twice, so that no way is longer than there are
files.

* `Reads`: the files that are read, in order; `Reads.unique`: there is one order.
* `Reads.acyclic`: a file that can be read with all that it starts from does not start from itself.
* `combined`: what files give together, one over the other.
* `exists_reads`, `loadSettings_of_reads`: settings are loaded as far as files are read.
* `loadSettings_fuel`: **how often files may be opened does not matter**, from their number on.
* `loadSettings_eq_ok_iff_reads`: **settings are loaded if there is an order**, and are what the
  files in it give together.
-/

open AmbientBundle.Path

namespace AmbientBundle

open FileTree

/-! ### Files of a workspace -/

namespace FileTree

variable {tree : FileTree}

/-- A walk that passes nothing over finds every file. -/
theorem mem_walk_of_lookup? {file : File} {names : List String} {path : Path}
    (h : tree.lookup? names = some (.file file)) :
    names.foldl (fun p n => p.join ⟨n⟩) path ∈ tree.walk (fun _ => true) path := by
  induction names generalizing tree path with
  | nil =>
    obtain rfl := Option.some.inj h
    rw [walk]
    exact List.mem_singleton_self path
  | cons n names ih =>
    cases tree with
    | file f => cases h
    | directory entries =>
      obtain ⟨child, hchild, hrest⟩ := Option.bind_eq_some_iff.1 h
      obtain ⟨⟨name, found⟩, hfind, rfl⟩ := Option.map_eq_some_iff.1 hchild
      obtain ⟨heq, before, after, rfl, -⟩ := List.find?_eq_some_iff_append.1 hfind
      obtain rfl : name = n := beq_iff_eq.1 heq
      rw [walk, walkEntries_append, walkEntries, walkEntry, if_pos rfl, List.foldl_cons]
      exact List.mem_append_right _ (List.mem_append_left _ (ih hrest))

end FileTree

namespace Workspace

variable {w : Workspace} {path : Path}

/-- The paths of all files. -/
def allFiles (w : Workspace) : List Path := w.filesBelow (fun _ => true) ⟨"/"⟩

/-- Nothing stands at an absolute path, if the root is no directory. -/
theorem isDirectory_of_node (habs : path.isAbsolute = true) {t : FileTree}
    (h : w.node path = .ok t) : w.tree.isDirectory = true := by
  obtain ⟨names, hlocate, -⟩ := bind_eq_ok.1 h
  unfold locate at hlocate
  split at hlocate
  · cases hlocate
  · rw [join, if_pos habs] at hlocate
    obtain ⟨rest, hpieces⟩ := pieces_of_isAbsolute habs
    rw [hpieces, List.foldlM_cons] at hlocate
    obtain ⟨first, hfirst, -⟩ := bind_eq_ok.1 hlocate
    cases htree : w.tree with
    | directory entries => rfl
    | file f =>
      have hnot : w.follow [] "" = .error .notDirectory := by
        unfold follow
        rw [htree]
        rfl
      rw [hnot] at hfirst
      cases hfirst

/-- A file that can be read by an absolute path in normal form is one of all files. -/
theorem mem_allFiles_of_readText (hpath : path.IsNormal) {text : String}
    (h : w.readText path = .ok text) : path ∈ w.allFiles := by
  obtain ⟨tree, hnode, htext⟩ := bind_eq_ok.1 h
  have hroot := isDirectory_of_node hpath.absolute hnode
  obtain ⟨names, hnames, rfl⟩ := isNormal_iff.1 hpath
  have hlookup := (node_ofNames_iff hroot hnames).1 hnode
  cases tree with
  | directory entries => cases htext
  | file f =>
    have hmem : names.foldl (fun p n => p.join ⟨n⟩) (ofNames []) ∈
        w.tree.walk (fun _ => true) (ofNames []) := mem_walk_of_lookup? hlookup
    have hroot_path : (⟨"/"⟩ : Path) = ofNames [] := by decide
    rw [foldl_join_names hnames, List.nil_append] at hmem
    rw [allFiles, hroot_path, filesBelow_ofNames hroot (by simp)]
    exact hmem

end Workspace

namespace Project

variable {w : Workspace} {path : Path} {settings : Settings}

theorem mem_allFiles_of_readConfig (hpath : path.IsNormal) {file : ConfigFile}
    (h : readConfig w path = .ok file) : path ∈ w.allFiles := by
  unfold readConfig at h
  split at h
  · cases h
  · next text htext => exact Workspace.mem_allFiles_of_readText hpath htext

/-- Why a configuration file is refused. -/
theorem fault_of_readConfig {fault : Fault} (h : readConfig w path = .error fault) :
    (∃ cause, fault = ⟨path, .unreadable cause⟩) ∨
      ∃ place cause, fault = ⟨path, .malformed path place cause⟩ := by
  unfold readConfig at h
  split at h
  · next cause _ => exact .inl ⟨cause, (Except.error.inj h).symm⟩
  · next text _ =>
    cases hparse : ConfigFile.parse text with
    | ok file => rw [hparse] at h; cases h
    | error e =>
      rw [hparse] at h
      exact .inr ⟨e.2, e.1, (Except.error.inj h).symm⟩

/-! ### The order of files -/

/-- A file that is read, and what it says. -/
structure Visit where
  path : Path
  file : ConfigFile
deriving Repr, DecidableEq

/-- The directory from which the paths and patterns of a file are seen. -/
def Visit.dir (v : Visit) : Path := directoryOf v.path

/-- **The files that are read** for some files, one after the other: for each all that it starts
from, in the order in which it is named, and then the file itself. -/
inductive Reads (w : Workspace) : List Path → List Visit → Prop
  | nil : Reads w [] []
  | cons {path : Path} {rest ups : List Path} {file : ConfigFile} {above later : List Visit} :
      readConfig w path = .ok file →
      file.parents.map (parentPath? w (directoryOf path)) = ups.map some →
      Reads w ups above → Reads w rest later →
      Reads w (path :: rest) (above ++ ⟨path, file⟩ :: later)

/-- That a file starts from another one directly. -/
def StartsFrom (w : Workspace) (path up : Path) : Prop :=
  ∃ file name, readConfig w path = .ok file ∧ name ∈ file.parents ∧
    parentPath? w (directoryOf path) name = some up

/-- The files that a file starts from are those that its names mean. -/
theorem startsFrom_iff_mem {file : ConfigFile} {ups : List Path}
    (hread : readConfig w path = .ok file)
    (hups : file.parents.map (parentPath? w (directoryOf path)) = ups.map some) {up : Path} :
    StartsFrom w path up ↔ up ∈ ups := by
  have hmem : up ∈ ups ↔ some up ∈ file.parents.map (parentPath? w (directoryOf path)) := by
    rw [hups, List.mem_map]
    simp
  rw [hmem, List.mem_map]
  constructor
  · rintro ⟨file', name, hread', hname, hup⟩
    rw [hread] at hread'
    obtain rfl := Except.ok.inj hread'
    exact ⟨name, hname, hup⟩
  · rintro ⟨name, hname, hup⟩
    exact ⟨file, name, hread, hname, hup⟩

namespace Reads

variable {paths others : List Path} {visits visits' : List Visit}

/-- **There is one order.** -/
theorem unique (h : Reads w paths visits) (h' : Reads w paths visits') : visits' = visits := by
  induction h generalizing visits' with
  | nil => cases h'; rfl
  | cons hread hups _ _ ihabove ihlater =>
    cases h' with
    | cons hread' hups' habove' hlater' =>
      rw [hread] at hread'
      obtain rfl := Except.ok.inj hread'
      rw [hups] at hups'
      obtain rfl := (List.map_inj_right fun _ _ => Option.some.inj).1 hups'
      rw [ihabove habove', ihlater hlater']

theorem append (h : Reads w paths visits) (h' : Reads w others visits') :
    Reads w (paths ++ others) (visits ++ visits') := by
  induction h with
  | nil => exact h'
  | cons hread hups habove _ _ ihlater =>
    rw [List.append_assoc, List.cons_append]
    exact .cons hread hups habove ihlater

/-- Each single one of some files is read among them. -/
theorem of_mem (h : Reads w paths visits) (hpath : path ∈ paths) :
    ∃ part, Reads w [path] part ∧ part.length ≤ visits.length := by
  induction h with
  | nil => cases hpath
  | @cons p rest ups file above later hread hups habove hlater _ ihlater =>
    rcases List.mem_cons.1 hpath with rfl | hpath
    · refine ⟨above ++ [⟨path, file⟩], .cons hread hups habove .nil, ?_⟩
      simp only [List.length_append, List.length_cons, List.length_nil]
      omega
    · obtain ⟨part, hpart, hlen⟩ := ihlater hpath
      refine ⟨part, hpart, ?_⟩
      simp only [List.length_append, List.length_cons]
      omega

/-- A file that another one starts from is read before it. -/
theorem of_startsFrom {up : Path} (h : Reads w [path] visits) (hup : StartsFrom w path up) :
    ∃ part, Reads w [up] part ∧ part.length < visits.length := by
  cases h with
  | cons hread hups habove hlater =>
    obtain ⟨part, hpart, hlen⟩ := habove.of_mem ((startsFrom_iff_mem hread hups).1 hup)
    refine ⟨part, hpart, ?_⟩
    simp only [List.length_append, List.length_cons]
    omega

theorem of_transGen {up : Path} (h : Reads w [path] visits)
    (hup : Relation.TransGen (StartsFrom w) path up) :
    ∃ part, Reads w [up] part ∧ part.length < visits.length := by
  induction hup with
  | single hup => exact h.of_startsFrom hup
  | tail _ hup ih =>
    obtain ⟨mid, hmid, hlen⟩ := ih
    obtain ⟨part, hpart, hlen'⟩ := hmid.of_startsFrom hup
    exact ⟨part, hpart, by omega⟩

/-- **A file that can be read with all that it starts from does not start from itself**, as it would
be read once more before it is read. -/
theorem acyclic (h : Reads w [path] visits) : ¬ Relation.TransGen (StartsFrom w) path path := by
  intro hcycle
  obtain ⟨part, hpart, hlen⟩ := h.of_transGen hcycle
  rw [h.unique hpart] at hlen
  exact absurd hlen (lt_irrefl _)

/-- Whatever is read stands in the order for itself, and is one of the files or above one. -/
theorem of_visit (h : Reads w paths visits) {v : Visit} (hv : v ∈ visits) :
    (∃ part, Reads w [v.path] part) ∧
      ∃ path ∈ paths, Relation.ReflTransGen (StartsFrom w) path v.path := by
  induction h with
  | nil => cases hv
  | @cons p rest ups file above later hread hups habove hlater ihabove ihlater =>
    rcases List.mem_append.1 hv with hv | hv
    · obtain ⟨hpart, up, hup, hreach⟩ := ihabove hv
      have hstarts : StartsFrom w p up := (startsFrom_iff_mem hread hups).2 hup
      exact ⟨hpart, p, List.mem_cons_self, .head hstarts hreach⟩
    · rcases List.mem_cons.1 hv with rfl | hv
      · exact ⟨⟨_, .cons hread hups habove .nil⟩, p, List.mem_cons_self, .refl⟩
      · obtain ⟨hpart, q, hq, hreach⟩ := ihlater hv
        exact ⟨hpart, q, List.mem_cons_of_mem _ hq, hreach⟩

/-- What a file starts from does not lead back to it. -/
theorem ne_of_above {file : ConfigFile} {ups : List Path} {above : List Visit}
    (hread : readConfig w path = .ok file)
    (hups : file.parents.map (parentPath? w (directoryOf path)) = ups.map some)
    (h : Reads w ups above) : ∀ v ∈ above, v.path ≠ path := by
  intro v hv heq
  obtain ⟨-, up, hup, hreach⟩ := h.of_visit hv
  have hstarts : StartsFrom w path up := (startsFrom_iff_mem hread hups).2 hup
  rw [heq] at hreach
  exact (Reads.cons hread hups h .nil).acyclic (.head' hstarts hreach)

end Reads

/-! ### Settings over settings -/

namespace Settings

theorem override_assoc (a b c : Settings) :
    (a.override b).override c = a.override (b.override c) := by
  simp [override, Option.or_assoc]

theorem empty_override (s : Settings) : Settings.empty.override s = s := by
  simp [override, empty]

theorem override_empty (s : Settings) : s.override .empty = s := by
  simp [override, empty]

end Settings

/-- The settings of one file. -/
def Visit.gives (v : Visit) : Settings := .ofFile v.dir v.file

/-- **What files give together**, each over those before it. -/
def combined (visits : List Visit) : Settings :=
  visits.foldl (fun under v => under.override v.gives) .empty

/-- Files over other settings are what they give together over them. -/
theorem foldl_override (visits : List Visit) (under : Settings) :
    visits.foldl (fun under v => under.override v.gives) under =
      under.override (combined visits) := by
  unfold combined
  induction visits generalizing under with
  | nil => exact under.override_empty.symm
  | cons v visits ih =>
    rw [List.foldl_cons, List.foldl_cons, ih, ih (Settings.empty.override v.gives),
      Settings.empty_override, Settings.override_assoc]

theorem combined_append (before after : List Visit) :
    combined (before ++ after) = (combined before).override (combined after) := by
  rw [← foldl_override after (combined before)]
  exact List.foldl_append

theorem combined_singleton (v : Visit) : combined [v] = v.gives := Settings.empty_override _

/-! ### Settings that are loaded -/

section Loading

variable {n : Nat} {chain : List Path}

/-- One file more. -/
theorem loadSettings_succ : loadSettings w (n + 1) chain path =
    if chain.contains path then .error ⟨path, .circular path⟩ else
      readConfig w path >>= fun file =>
        (file.parents.foldlM (inheritFrom w n chain path) Settings.empty).map fun inherited =>
          inherited.override (.ofFile (directoryOf path) file) := by
  by_cases hmem : chain.contains path = true
  · rw [if_pos hmem, loadSettings, if_pos hmem]
    rfl
  · rw [if_neg hmem, loadSettings, if_neg hmem]
    rfl

/-- **Where loading fails**: at an open file, at the file itself, or at what it starts from. -/
theorem loadSettings_eq_error {fault : Fault} :
    loadSettings w (n + 1) chain path = .error fault ↔
      path ∈ chain ∧ fault = ⟨path, .circular path⟩ ∨
      path ∉ chain ∧ (readConfig w path = .error fault ∨
        ∃ file, readConfig w path = .ok file ∧
          file.parents.foldlM (inheritFrom w n chain path) Settings.empty = .error fault) := by
  rw [loadSettings_succ]
  by_cases hmem : path ∈ chain
  · rw [if_pos (by simpa using hmem)]
    simp [hmem, eq_comm]
  · rw [if_neg (by simpa using hmem), bind_eq_error]
    simp [hmem, map_eq_error]

theorem inheritFrom_eq_error {under : Settings} {name : String} {fault : Fault} :
    inheritFrom w n chain path under name = .error fault ↔
      parentPath? w (directoryOf path) name = none ∧ fault = ⟨path, .parentMissing name⟩ ∨
      ∃ up, parentPath? w (directoryOf path) name = some up ∧
        loadSettings w n (chain ++ [path]) up = .error fault := by
  unfold inheritFrom
  cases parentPath? w (directoryOf path) name with
  | none => simp [throw, throwThe, MonadExceptOf.throw, eq_comm]
  | some up =>
    dsimp only
    rw [bind_eq_error]
    simp [pure, Except.pure]

/-- Files that are loaded one over the other are read one after the other, if each single one is. -/
theorem exists_reads_of_foldlM
    (hload : ∀ up above, loadSettings w n (chain ++ [path]) up = .ok above →
      ∃ visits, Reads w [up] visits ∧ above = combined visits)
    {names : List String} {under result : Settings}
    (h : names.foldlM (inheritFrom w n chain path) under = .ok result) :
    ∃ ups visits, names.map (parentPath? w (directoryOf path)) = ups.map some ∧
      Reads w ups visits ∧ result = under.override (combined visits) := by
  induction names generalizing under with
  | nil =>
    obtain rfl := Except.ok.inj h
    exact ⟨[], [], rfl, .nil, under.override_empty.symm⟩
  | cons name names ih =>
    rw [List.foldlM_cons, bind_eq_ok] at h
    obtain ⟨next, hnext, hrest⟩ := h
    obtain ⟨up, above, hup, habove, rfl⟩ := inheritFrom_eq_ok.1 hnext
    obtain ⟨first, hfirst, rfl⟩ := hload up above habove
    obtain ⟨ups, visits, hups, hreads, rfl⟩ := ih hrest
    refine ⟨up :: ups, first ++ visits, ?_, hfirst.append hreads, ?_⟩
    · rw [List.map_cons, List.map_cons, hup, hups]
    · rw [combined_append, Settings.override_assoc]

/-- **Files whose settings are loaded are read**, and the settings are what they give together. -/
theorem exists_reads (h : loadSettings w n chain path = .ok settings) :
    ∃ visits, Reads w [path] visits ∧ settings = combined visits := by
  induction n generalizing path chain settings with
  | zero => cases h
  | succ n ih =>
    obtain ⟨-, file, inherited, hread, hinherited, rfl⟩ := loadSettings_eq_ok.1 h
    obtain ⟨ups, above, hups, hreads, rfl⟩ :=
      exists_reads_of_foldlM (fun up above hup => ih hup) hinherited
    refine ⟨above ++ [⟨path, file⟩], .cons hread hups hreads .nil, ?_⟩
    rw [combined_append, combined_singleton, Settings.empty_override]
    rfl

/-- A file is loaded over what it starts from. -/
theorem loadSettings_of_foldlM {file : ConfigFile} {above : List Visit} (hnew : path ∉ chain)
    (hread : readConfig w path = .ok file)
    (h : file.parents.foldlM (inheritFrom w n chain path) .empty = .ok (combined above)) :
    loadSettings w (n + 1) chain path = .ok (combined (above ++ [⟨path, file⟩])) := by
  refine loadSettings_eq_ok.2 ⟨by simpa using hnew, file, combined above, hread, h, ?_⟩
  rw [combined_append, combined_singleton]
  rfl

/-- Files that are read one after the other are loaded one over the other, if none of them is open
and fuel remains for each. -/
theorem foldlM_of_reads {names : List String} {ups : List Path} {visits : List Visit}
    (h : Reads w ups visits)
    (hups : names.map (parentPath? w (directoryOf path)) = ups.map some)
    (hfree : ∀ v ∈ visits, v.path ∉ chain ++ [path]) (hfuel : visits.length ≤ n)
    (under : Settings) :
    names.foldlM (inheritFrom w n chain path) under = .ok (under.override (combined visits)) := by
  induction h generalizing names under path chain n with
  | nil =>
    obtain rfl := List.map_eq_nil_iff.1 hups
    rw [combined, List.foldl_nil, Settings.override_empty]
    rfl
  | @cons up rest ups file above later hread hmore habove hlater ihabove ihlater =>
    obtain ⟨name, names, rfl, hup, hnames⟩ := List.map_eq_cons_iff.1 hups
    obtain ⟨hfree_above, hfree_rest⟩ := List.forall_mem_append.1 hfree
    obtain ⟨hnew, hfree_later⟩ := List.forall_mem_cons.1 hfree_rest
    simp only [List.length_append, List.length_cons] at hfuel
    obtain ⟨m, rfl⟩ : ∃ m, n = m + 1 := ⟨n - 1, by omega⟩
    have hfree_up : ∀ v ∈ above, v.path ∉ chain ++ [path] ++ [up] := by
      intro v hv hmem
      rcases List.mem_append.1 hmem with hmem | hmem
      · exact hfree_above v hv hmem
      · exact habove.ne_of_above hread hmore v hv (List.mem_singleton.1 hmem)
    have hfold := ihabove hmore hfree_up (show above.length ≤ m by omega) .empty
    rw [Settings.empty_override] at hfold
    have hstep : inheritFrom w (m + 1) chain path under name =
        .ok (under.override (combined (above ++ [⟨up, file⟩]))) :=
      inheritFrom_eq_ok.2 ⟨up, _, hup, loadSettings_of_foldlM hnew hread hfold, rfl⟩
    rw [List.foldlM_cons, hstep]
    refine (ihlater hnames hfree_later (by omega) _).trans ?_
    rw [Settings.override_assoc, ← combined_append, List.append_assoc]
    rfl

/-- **A file that is read with all that it starts from is loaded**, if it is the first one and fuel
remains for all. -/
theorem loadSettings_of_reads {visits : List Visit} (h : Reads w [path] visits)
    (hfuel : visits.length ≤ n) : loadSettings w n [] path = .ok (combined visits) := by
  cases h with
  | @cons _ _ ups file above later hread hups habove hlater =>
    cases hlater
    simp only [List.length_append, List.length_cons] at hfuel
    obtain ⟨m, rfl⟩ : ∃ m, n = m + 1 := ⟨n - 1, by omega⟩
    have hfree : ∀ v ∈ above, v.path ∉ [] ++ [path] := fun v hv hmem =>
      habove.ne_of_above hread hups v hv (List.mem_singleton.1 hmem)
    have hfold := foldlM_of_reads habove hups hfree (show above.length ≤ m by omega) .empty
    rw [Settings.empty_override] at hfold
    exact loadSettings_of_foldlM List.not_mem_nil hread hfold

/-! ### Open files -/

/-- **Files that are open one after the other**: none of them twice. -/
structure AreOpen (w : Workspace) (chain : List Path) : Prop where
  nodup : chain.Nodup
  files : chain ⊆ w.allFiles

namespace AreOpen

theorem nil : AreOpen w [] := ⟨List.nodup_nil, List.nil_subset _⟩

/-- There are not more open files than files. -/
theorem length_le (h : AreOpen w chain) : chain.length ≤ w.allFiles.length :=
  (List.subperm_of_subset h.nodup h.files).length_le

theorem push (h : AreOpen w chain) (hpath : path.IsNormal) {file : ConfigFile}
    (hread : readConfig w path = .ok file) (hnew : path ∉ chain) : AreOpen w (chain ++ [path]) where
  nodup := List.nodup_append.2 ⟨h.nodup, by simp, by
    rintro p hp q hq rfl
    exact hnew (List.mem_singleton.1 hq ▸ hp)⟩
  files := List.append_subset.2
    ⟨h.files, by simpa using mem_allFiles_of_readConfig hpath hread⟩

end AreOpen

/-- **How often files may be opened does not matter** as soon as it is more than there are files,
counting those that are open. -/
theorem loadSettings_fuel {m : Nat} (hpath : path.IsNormal) (hopen : AreOpen w chain)
    (hn : w.allFiles.length < chain.length + n) (hm : w.allFiles.length < chain.length + m) :
    loadSettings w n chain path = loadSettings w m chain path := by
  have hlen := hopen.length_le
  induction n generalizing m chain path with
  | zero => omega
  | succ n ih =>
    obtain ⟨m, rfl⟩ : ∃ k, m = k + 1 := ⟨m - 1, by omega⟩
    rw [loadSettings_succ, loadSettings_succ]
    by_cases hmem : path ∈ chain
    · rw [if_pos (by simpa using hmem), if_pos (by simpa using hmem)]
    · rw [if_neg (by simpa using hmem), if_neg (by simpa using hmem)]
      cases hread : readConfig w path with
      | error fault => rfl
      | ok file =>
        have hmore := hopen.push hpath hread hmem
        have hdir := isNormal_directoryOf hpath hread
        have hsame : inheritFrom w n chain path = inheritFrom w m chain path := by
          funext under name
          unfold inheritFrom
          cases hup : parentPath? w (directoryOf path) name with
          | none => rfl
          | some up =>
            have hlonger : (chain ++ [path]).length = chain.length + 1 := List.length_append
            have hrec : loadSettings w n (chain ++ [path]) up =
                loadSettings w m (chain ++ [path]) up :=
              ih (isNormal_of_parentPath? hdir hup) hmore (by omega) (by omega) hmore.length_le
            dsimp only
            rw [hrec]
        rw [hsame]

/-- **The fuel of a project is enough**: any more than there are files comes to the same. -/
theorem loadSettings_of_fuel (hpath : path.IsNormal) (hn : w.allFiles.length < n) :
    loadSettings w n [] path = loadSettings w (Config.fuel w) [] path := by
  have hfactor : 0 < w.cwd.components.length + 2 := by omega
  have hfuel : w.allFiles.length < Config.fuel w :=
    Nat.lt_of_lt_of_le (Nat.lt_succ_self _) (Nat.le_mul_of_pos_right _ hfactor)
  apply loadSettings_fuel hpath .nil
  · simpa using hn
  · simpa using hfuel

/-- **Settings are loaded if there is an order of files**, and are what these give together. -/
theorem loadSettings_eq_ok_iff_reads (hpath : path.IsNormal) :
    loadSettings w (Config.fuel w) [] path = .ok settings ↔
      ∃ visits, Reads w [path] visits ∧ settings = combined visits := by
  constructor
  · exact exists_reads
  · rintro ⟨visits, hreads, rfl⟩
    have hlarge : w.allFiles.length < w.allFiles.length + 1 + visits.length := by omega
    rw [← loadSettings_of_fuel hpath hlarge]
    exact loadSettings_of_reads hreads (by omega)

end Loading

end Project

end AmbientBundle

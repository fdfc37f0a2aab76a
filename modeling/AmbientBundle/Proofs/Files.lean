import AmbientBundle.FileTree.Workspace
import AmbientBundle.Proofs.Computations
import AmbientBundle.Proofs.Paths

/-!
# Files that are written

A file that has been put somewhere can be read there, and whether it can be put there does not
depend on what it holds.

* `lookup?_createFile`: what stands at the names of a file that was put there.
* `readText_create`: **a text that was written is read again.**
* `create_ok_of_ok`: whether a file can be written does not depend on the file.
-/

open AmbientBundle.Path

namespace AmbientBundle

namespace FileTree

variable {file : File} {tree tree' : FileTree}

theorem child?_putEntry (name : String) (tree : FileTree) (entries : List (String × FileTree)) :
    child? name (putEntry name tree entries) = some tree := by
  induction entries with
  | nil => simp [putEntry, child?]
  | cons e rest ih =>
    rw [putEntry]
    split
    · simp [child?]
    · next hne =>
      split
      · simp [child?]
      · unfold child? at ih ⊢
        rw [List.find?_cons_of_neg (by exact hne)]
        exact ih

/-- A file that was put somewhere stands there. -/
theorem lookup?_createFile {names : List String} (h : createFile file names tree = .ok tree') :
    tree'.lookup? names = some (.file file) := by
  fun_induction createFile file names tree generalizing tree' with
  | case1 => cases h
  | case2 => cases h; rfl
  | case3 => cases h
  | case4 => cases h
  | case5 name entries =>
    cases h
    simp [lookup?, child?_putEntry]
  | case6 => cases h
  | case7 name names entries _ child _ ih =>
    cases hc : createFile file names child with
    | error fault => rw [hc] at h; cases h
    | ok child' =>
      rw [hc] at h
      cases h
      simp only [lookup?, child?_putEntry, Option.bind_some]
      exact ih hc

/-- Whether a file can be put somewhere does not depend on the file. -/
theorem createFile_ok_of_ok (file' : File) {names : List String}
    (h : createFile file names tree = .ok tree') : ∃ t, createFile file' names tree = .ok t := by
  fun_induction createFile file names tree generalizing tree' with
  | case1 => cases h
  | case2 => exact ⟨_, rfl⟩
  | case3 => cases h
  | case4 => cases h
  | case5 name entries hnone =>
    rw [createFile]
    split
    · next es hes => exact absurd hes (hnone es)
    · exact ⟨_, rfl⟩
  | case6 => cases h
  | case7 name names entries hne child hchild ih =>
    cases hc : createFile file names child with
    | error fault => rw [hc] at h; cases h
    | ok child' =>
      obtain ⟨t, ht⟩ := ih hc
      cases names with
      | nil => exact absurd rfl hne
      | cons m ms =>
        refine ⟨.directory (putEntry name t entries), ?_⟩
        simp only [createFile, hchild, ht]
        rfl

theorem lookup?_append (a b : List String) (tree : FileTree) :
    tree.lookup? (a ++ b) = (tree.lookup? a).bind (lookup? b) := by
  induction a generalizing tree with
  | nil => rfl
  | cons n a ih =>
    cases tree with
    | file f => rfl
    | directory entries =>
      rw [List.cons_append, lookup?, lookup?]
      cases child? n entries with
      | none => rfl
      | some child => exact ih child

end FileTree

namespace Workspace

variable {w w' : Workspace} {names : List String}

open FileTree

/-- A workspace as it is met: its tree is a directory, and it is seen from an absolute path. -/
structure IsRooted (w : Workspace) : Prop where
  cwd_absolute : w.cwd.isAbsolute = true
  root_directory : w.tree.isDirectory = true

instance (w : Workspace) : Decidable w.IsRooted :=
  decidable_of_iff (w.cwd.isAbsolute = true ∧ w.tree.isDirectory = true)
    ⟨fun ⟨h1, h2⟩ => ⟨h1, h2⟩, fun h => ⟨h.cwd_absolute, h.root_directory⟩⟩

/-- Names that lead somewhere are followed one after the other. -/
theorem foldlM_follow {tree : FileTree} (before : List String) (hnames : ∀ n ∈ names, IsName n)
    (h : w.tree.lookup? (before ++ names) = some tree) :
    names.foldlM w.follow before = .ok (before ++ names) := by
  induction names generalizing before with
  | nil => simp [pure, Except.pure]
  | cons n ns ih =>
    have hn := hnames n List.mem_cons_self
    have hstep : w.follow before n = .ok (before ++ [n]) := by
      rw [lookup?_append] at h
      obtain ⟨here, hhere, hrest⟩ := Option.bind_eq_some_iff.1 h
      cases here with
      | file f => cases hrest
      | directory entries =>
        obtain ⟨child, hchild, -⟩ := Option.bind_eq_some_iff.1 hrest
        unfold follow
        rw [hhere]
        simp [hn.not_idle, hn.ne_up, hchild]
    rw [List.foldlM_cons, hstep]
    have := ih (before ++ [n]) (fun m hm => hnames m (List.mem_cons_of_mem _ hm))
      (by rwa [List.append_assoc])
    rwa [List.append_assoc] at this

theorem namesOf_ofNames (hnames : ∀ n ∈ names, IsName n) : namesOf (ofNames names) = names := by
  unfold namesOf
  cases names with
  | nil => rw [pieces_ofNames_nil]; rfl
  | cons n ns =>
    rw [pieces_ofNames hnames, List.filter_cons_of_neg (by decide)]
    exact List.filter_eq_self.2 fun m hm => by simp [(hnames m hm).not_idle]

/-- A path with names leads to what stands at them. -/
theorem node_ofNames {tree : FileTree} (hne : names ≠ []) (hnames : ∀ n ∈ names, IsName n)
    (h : w.tree.lookup? names = some tree) : w.node (ofNames names) = .ok tree := by
  obtain ⟨n, ns, rfl⟩ := List.exists_cons_of_ne_nil hne
  have hroot : ∃ entries, w.tree = .directory entries := by
    cases ht : w.tree with
    | file f => rw [ht] at h; cases h
    | directory entries => exact ⟨entries, rfl⟩
  obtain ⟨entries, hentries⟩ := hroot
  have hfirst : w.follow [] "" = .ok [] := by
    unfold follow
    rw [hentries]
    rfl
  have hlocate : w.locate (ofNames (n :: ns)) = .ok (n :: ns) := by
    unfold locate
    rw [if_neg (by simp [ofNames]), join, if_pos (isAbsolute_ofNames _), pieces_ofNames hnames,
      List.foldlM_cons, hfirst]
    exact foldlM_follow [] hnames h
  unfold node
  rw [hlocate]
  simp only [bind, Except.bind, h]
  rfl

/-- The tree that a file is put into: the directory of its path has been made. -/
def treeFor (w : Workspace) (path : Path) : Except FileFault FileTree :=
  if (namesOf path).isEmpty then .ok w.tree else w.tree.makeDirectories (namesOf path).dropLast

theorem create_eq (w : Workspace) (path : Path) (file : File) :
    w.create path file = (w.treeFor path).bind fun made =>
      (createFile file (namesOf path) made).map fun tree => { w with tree := tree } := by
  unfold create treeFor
  simp only [bind, Except.bind, pure, Except.pure]
  split
  · dsimp only
    cases createFile file (namesOf path) w.tree <;> rfl
  · cases w.tree.makeDirectories (namesOf path).dropLast with
    | error fault => rfl
    | ok made =>
      dsimp only
      cases createFile file (namesOf path) made <;> rfl

theorem create_eq_ok {path : Path} {file : File} (h : w.create path file = .ok w') :
    ∃ made tree, w.treeFor path = .ok made ∧ createFile file (namesOf path) made = .ok tree ∧
      w' = { w with tree := tree } := by
  rw [create_eq] at h
  cases hm : w.treeFor path with
  | error fault => rw [hm] at h; cases h
  | ok made =>
    rw [hm, Except.bind] at h
    cases hc : createFile file (namesOf path) made with
    | error fault => rw [hc] at h; cases h
    | ok tree => rw [hc] at h; cases h; exact ⟨made, tree, rfl, hc, rfl⟩

/-- A file that has been created stands at the names of its path. -/
theorem lookup?_create {path : Path} {file : File} (h : w.create path file = .ok w') :
    w'.tree.lookup? (namesOf path) = some (.file file) := by
  obtain ⟨made, tree, -, htree, rfl⟩ := create_eq_ok h
  exact lookup?_createFile htree

/-- Whether a file can be written does not depend on the file. -/
theorem create_ok_of_ok {path : Path} {file : File} (file' : File) (h : w.create path file = .ok w') :
    ∃ v, w.create path file' = .ok v := by
  obtain ⟨made, tree, hmade, htree, -⟩ := create_eq_ok h
  obtain ⟨t, ht⟩ := createFile_ok_of_ok file' htree
  exact ⟨{ w with tree := t }, by rw [create_eq, hmade, Except.bind, ht]; rfl⟩

/-- No file takes the place of a root that is a directory. -/
theorem namesOf_ne_nil {path : Path} {file : File} (hroot : w.tree.isDirectory = true)
    (h : w.create path file = .ok w') : namesOf path ≠ [] := by
  intro hnames
  cases ht : w.tree with
  | file f => rw [ht] at hroot; cases hroot
  | directory entries =>
    unfold create at h
    rw [hnames, ht] at h
    cases h

/-- A root that is a directory stays one. -/
theorem isDirectory_create {path : Path} {file : File} (hroot : w.tree.isDirectory = true)
    (h : w.create path file = .ok w') : w'.tree.isDirectory = true := by
  obtain ⟨n, ns, hnames⟩ := List.exists_cons_of_ne_nil (namesOf_ne_nil hroot h)
  have hlookup := lookup?_create h
  rw [hnames] at hlookup
  cases ht : w'.tree with
  | file f => rw [ht] at hlookup; cases hlookup
  | directory entries => rfl

/-- **A text that was written is read again.** -/
theorem readText_create {path : Path} {text : String} (hroot : w.tree.isDirectory = true)
    (hpath : path.IsNormal) (h : w.create path (.ofText text) = .ok w') :
    w'.readText path = .ok text := by
  obtain ⟨names, hnames, rfl⟩ := isNormal_iff.1 hpath
  have hlookup := lookup?_create h
  have hne := namesOf_ne_nil hroot h
  rw [namesOf_ofNames hnames] at hlookup hne
  unfold readText
  rw [node_ofNames hne hnames hlookup]
  rfl

end Workspace

end AmbientBundle

import AmbientBundle.Proofs.Descent
import AmbientBundle.Proofs.Placing

/-!
# What a walk finds

A walk that passes entries over finds exactly the files on whose way nothing is passed over, in the
order of their names. Where what is passed over is closed downwards, nothing is lost by not looking
below it: the walk is the whole walk, filtered file by file.

* `places`: where the files of a tree are; `mem_places_iff`, `pairwise_places`: **they are the files
  that a look-up finds, in order.**
* `walk_eq`: **what a walk finds**, for any rule.
* `IsClosedBelow`, `isReached_of_isClosedBelow`: a rule that is closed downwards decides file by
  file.
* `Workspace.exists_found`: **what is found below a directory.**
-/

open AmbientBundle.Path

namespace AmbientBundle

namespace FileTree

variable {tree : FileTree} {ns : List String} {keep : Path → Bool}

/-! ### Places -/

mutual

/-- **Where the files of a tree are**, depth first and in the order of the entries. -/
def places : FileTree → List (List String)
  | .file _ => [[]]
  | .directory entries => entriesPlaces entries
termination_by structural tree => tree

/-- Where the files below entries are. -/
def entriesPlaces : List (String × FileTree) → List (List String)
  | [] => []
  | e :: rest => entryPlaces e ++ entriesPlaces rest
termination_by structural entries => entries

/-- Where the files at and below an entry are. -/
def entryPlaces : String × FileTree → List (List String)
  | (name, tree) => (places tree).map (name :: ·)
termination_by structural entry => entry

end

theorem entriesPlaces_cons (e : String × FileTree) (rest : List (String × FileTree)) :
    entriesPlaces (e :: rest) = (places e.2).map (e.1 :: ·) ++ entriesPlaces rest := by
  rw [entriesPlaces, entryPlaces]

/-- The names that places below entries start with. -/
theorem exists_of_mem_entriesPlaces {entries : List (String × FileTree)}
    (h : ns ∈ entriesPlaces entries) :
    ∃ e ∈ entries, ∃ ms ∈ places e.2, ns = e.1 :: ms := by
  induction entries with
  | nil => cases h
  | cons e rest ih =>
    rw [entriesPlaces_cons, List.mem_append] at h
    rcases h with h | h
    · obtain ⟨ms, hms, rfl⟩ := List.mem_map.1 h
      exact ⟨e, List.mem_cons_self, ms, hms, rfl⟩
    · obtain ⟨e', he', hrest⟩ := ih h
      exact ⟨e', List.mem_cons_of_mem _ he', hrest⟩

theorem mem_entriesPlaces {entries : List (String × FileTree)} {e : String × FileTree}
    (he : e ∈ entries) (hns : ns ∈ places e.2) : e.1 :: ns ∈ entriesPlaces entries := by
  induction entries with
  | nil => cases he
  | cons first rest ih =>
    rw [entriesPlaces_cons, List.mem_append]
    rcases List.mem_cons.1 he with rfl | he
    · exact .inl (List.mem_map_of_mem hns)
    · exact .inr (ih he)

theorem mem_of_child? {n : String} {t : FileTree} {entries : List (String × FileTree)}
    (h : child? n entries = some t) : (n, t) ∈ entries := by
  obtain ⟨e, hfind, rfl⟩ := Option.map_eq_some_iff.1 h
  have hname : e.1 = n := by simpa using List.find?_some hfind
  rw [← hname]
  exact List.mem_of_find?_eq_some hfind

/-- In an ordered directory an entry is the one of its name. -/
theorem child?_of_mem {entries : List (String × FileTree)} (h : entriesOrdered entries = true)
    {e : String × FileTree} (he : e ∈ entries) : child? e.1 entries = some e.2 := by
  induction entries with
  | nil => cases he
  | cons first rest ih =>
    rw [entriesOrdered_cons] at h
    unfold child? at ih ⊢
    rw [List.find?_cons]
    rcases List.mem_cons.1 he with rfl | hmem
    · rw [beq_self_eq_true]
      rfl
    · have hne : (first.1 == e.1) = false := by
        rw [beq_eq_false_iff_ne]
        exact Std.ne_of_lt (h.1.2 e hmem)
      rw [hne]
      exact ih h.2 hmem

/-- **The places of an ordered tree are those where a file is found.** -/
theorem mem_places_iff (h : isOrdered tree = true) :
    ns ∈ places tree ↔ ∃ f, tree.lookup? ns = some (.file f) := by
  induction ns generalizing tree with
  | nil =>
    cases tree with
    | file f => exact ⟨fun _ => ⟨f, rfl⟩, fun _ => by rw [places]; exact List.mem_singleton_self _⟩
    | directory entries =>
      constructor
      · intro hmem
        rw [places] at hmem
        obtain ⟨e, -, ms, -, heq⟩ := exists_of_mem_entriesPlaces hmem
        cases heq
      · rintro ⟨f, hf⟩
        cases hf
  | cons n ns ih =>
    cases tree with
    | file f =>
      constructor
      · intro hmem
        rw [places, List.mem_singleton] at hmem
        cases hmem
      · rintro ⟨f, hf⟩
        cases hf
    | directory entries =>
      rw [isOrdered] at h
      rw [places]
      constructor
      · intro hmem
        obtain ⟨e, he, ms, hms, heq⟩ := exists_of_mem_entriesPlaces hmem
        obtain ⟨rfl, rfl⟩ := List.cons.inj heq
        have hchild := child?_of_mem h he
        obtain ⟨f, hf⟩ := (ih (isOrdered_of_child? h hchild)).1 hms
        exact ⟨f, by rw [lookup?, hchild]; exact hf⟩
      · rintro ⟨f, hf⟩
        obtain ⟨child, hchild, hrest⟩ := Option.bind_eq_some_iff.1 hf
        have hms := (ih (isOrdered_of_child? h hchild)).2 ⟨f, hrest⟩
        exact mem_entriesPlaces (mem_of_child? hchild) hms

mutual

/-- **The places of an ordered tree are in order**: that of the names on the way. -/
theorem pairwise_places : ∀ tree : FileTree, isOrdered tree = true →
    tree.places.Pairwise (· < ·)
  | .file _, _ => by
    rw [places]
    exact List.pairwise_singleton _ _
  | .directory entries, h => by
    rw [isOrdered] at h
    rw [places]
    exact pairwise_entriesPlaces entries h

theorem pairwise_entriesPlaces : ∀ entries : List (String × FileTree),
    entriesOrdered entries = true → (entriesPlaces entries).Pairwise (· < ·)
  | [], _ => by
    rw [entriesPlaces]
    exact List.Pairwise.nil
  | (name, tree) :: rest, h => by
    rw [entriesOrdered_cons] at h
    obtain ⟨⟨htree, hfirst⟩, hrest⟩ := h
    rw [entriesPlaces_cons, List.pairwise_append]
    refine ⟨?_, pairwise_entriesPlaces rest hrest, ?_⟩
    · rw [List.pairwise_map]
      refine (pairwise_places tree htree).imp fun hlt => ?_
      exact List.cons_lt_cons_iff.2 (.inr ⟨rfl, hlt⟩)
    · -- what is below another entry starts with a greater name
      intro ns hns ms hms
      obtain ⟨below, -, rfl⟩ := List.mem_map.1 hns
      obtain ⟨e, he, below', -, rfl⟩ := exists_of_mem_entriesPlaces hms
      exact List.cons_lt_cons_iff.2 (.inl (hfirst e he))

end

/-! ### Names -/

mutual

/-- **Whether all entries of a tree have names.** -/
def isNamed : FileTree → Bool
  | .file _ => true
  | .directory entries => entriesNamed entries
termination_by structural tree => tree

/-- Whether entries have names, and all that is below them. -/
def entriesNamed : List (String × FileTree) → Bool
  | [] => true
  | e :: rest => entryNamed e && entriesNamed rest
termination_by structural entries => entries

/-- Whether an entry has a name, and all that is below it. -/
def entryNamed : String × FileTree → Bool
  | (name, tree) => !isIdle name && name != ".." && !name.toList.contains '/' && isNamed tree
termination_by structural entry => entry

end

theorem entriesNamed_cons {e : String × FileTree} {rest : List (String × FileTree)} :
    entriesNamed (e :: rest) = true ↔
      (IsName e.1 ∧ isNamed e.2 = true) ∧ entriesNamed rest = true := by
  rw [entriesNamed, entryNamed, isName_iff]
  simp [isIdle, and_assoc]

theorem forall_mem_entriesNamed {entries : List (String × FileTree)}
    (h : entriesNamed entries = true) : ∀ e ∈ entries, IsName e.1 ∧ isNamed e.2 = true := by
  induction entries with
  | nil => simp
  | cons e rest ih =>
    rw [entriesNamed_cons] at h
    rw [List.forall_mem_cons]
    exact ⟨h.1, ih h.2⟩

/-- What is found below a tree of names has names, and so have the ways to it. -/
theorem isNamed_of_lookup? (h : isNamed tree = true) {t : FileTree}
    (ht : tree.lookup? ns = some t) : (∀ n ∈ ns, IsName n) ∧ isNamed t = true := by
  induction ns generalizing tree with
  | nil =>
    obtain rfl := Option.some.inj ht
    exact ⟨by simp, h⟩
  | cons n ns ih =>
    cases tree with
    | file f => cases ht
    | directory entries =>
      obtain ⟨child, hchild, hrest⟩ := Option.bind_eq_some_iff.1 ht
      rw [isNamed] at h
      obtain ⟨hname, hnamed⟩ := forall_mem_entriesNamed h _ (mem_of_child? hchild)
      obtain ⟨hnames, ht⟩ := ih hnamed hrest
      exact ⟨List.forall_mem_cons.2 ⟨hname, hnames⟩, ht⟩

/-! ### Walks -/

/-- Whether nothing on the way from a path is passed over. -/
def isReached (keep : Path → Bool) : Path → List String → Bool
  | _, [] => true
  | path, n :: ns => keep (path.join ⟨n⟩) && isReached keep (path.join ⟨n⟩) ns

theorem isReached_iff {path : Path} :
    isReached keep path ns = true ↔
      ∀ front, front ≠ [] → front <+: ns → keep (path.into front) = true := by
  induction ns generalizing path with
  | nil =>
    refine ⟨fun _ front hne hfront => absurd (List.prefix_nil.1 hfront) hne, fun _ => rfl⟩
  | cons n ns ih =>
    rw [isReached, Bool.and_eq_true, ih]
    constructor
    · rintro ⟨hfirst, hrest⟩ front hne hfront
      obtain ⟨m, ms, rfl⟩ := List.exists_cons_of_ne_nil hne
      obtain ⟨rfl, hms⟩ := List.cons_prefix_cons.1 hfront
      by_cases hnil : ms = []
      · subst hnil
        exact hfirst
      · exact hrest ms hnil hms
    · intro h
      refine ⟨h [n] (List.cons_ne_nil _ _) ⟨ns, rfl⟩, fun front _ hfront => ?_⟩
      exact h (n :: front) (List.cons_ne_nil _ _) (List.cons_prefix_cons.2 ⟨rfl, hfront⟩)

mutual

/-- **What a walk finds**: the files that nothing on the way to is passed over, in order. -/
theorem walk_eq (keep : Path → Bool) : ∀ (path : Path) (tree : FileTree),
    tree.walk keep path = (tree.places.filter (isReached keep path)).map path.into
  | path, .file _ => by
    rw [walk, places, List.filter_cons_of_pos rfl]
    rfl
  | path, .directory entries => by
    rw [walk, places]
    exact walkEntries_eq keep path entries

theorem walkEntries_eq (keep : Path → Bool) : ∀ (path : Path) (entries : List (String × FileTree)),
    walkEntries keep path entries =
      ((entriesPlaces entries).filter (isReached keep path)).map path.into
  | path, [] => by
    rw [walkEntries, entriesPlaces]
    rfl
  | path, (name, tree) :: rest => by
    have hfirst : walkEntry keep path (name, tree) =
        ((tree.places.map (name :: ·)).filter (isReached keep path)).map path.into := by
      rw [walkEntry, List.filter_map, List.map_map]
      split
      · next hkeep =>
        have hreached : isReached keep path ∘ (name :: ·) = isReached keep (path.join ⟨name⟩) := by
          funext ns
          rw [Function.comp_apply, isReached, hkeep, Bool.true_and]
        rw [hreached, walk_eq keep (path.join ⟨name⟩) tree]
        rfl
      · next hkeep =>
        have hreached : isReached keep path ∘ (name :: ·) = fun _ => false := by
          funext ns
          rw [Function.comp_apply, isReached, Bool.eq_false_iff.2 hkeep, Bool.false_and]
        rw [hreached, List.filter_false]
        rfl
    rw [walkEntries, entriesPlaces_cons, List.filter_append, List.map_append, hfirst,
      walkEntries_eq keep path rest]

end

/-- A rule whose exceptions are closed downwards from a path: what is below an entry that is passed
over would be passed over by itself. -/
def IsClosedBelow (keep : Path → Bool) (path : Path) : Prop :=
  ∀ ns ms : List String, ns ≠ [] → (∀ n ∈ ns ++ ms, IsName n) →
    keep (path.into (ns ++ ms)) = true → keep (path.into ns) = true

/-- **Nothing is lost by not looking below what is passed over**, where the rule is closed
downwards. -/
theorem isReached_of_isClosedBelow {path : Path} (h : IsClosedBelow keep path) (hne : ns ≠ [])
    (hns : ∀ n ∈ ns, IsName n) : isReached keep path ns = keep (path.into ns) := by
  rw [Bool.eq_iff_iff, isReached_iff]
  refine ⟨fun hall => hall ns hne (List.prefix_refl ns), ?_⟩
  rintro hkeep front hfront ⟨rest, rfl⟩
  exact h front rest hfront hns hkeep

end FileTree

/-! ### Files below a directory -/

namespace Workspace

variable {w : Workspace} {dir : Path} {ns : List String}

/-- **A file below a directory**, by the names on the way to it. -/
def IsFileBelow (w : Workspace) (dir : Path) (ns : List String) : Prop :=
  ∃ tree f, w.node dir = .ok tree ∧ tree.lookup? ns = some (.file f)

/-- What stands at a path is a part of the whole tree. -/
theorem exists_lookup?_of_node {tree : FileTree} (h : w.node dir = .ok tree) :
    ∃ place, w.tree.lookup? place = some tree := by
  obtain ⟨place, -, h⟩ := bind_eq_ok.1 h
  split at h
  · next t ht =>
    obtain rfl := Except.ok.inj h
    exact ⟨place, ht⟩
  · cases h

theorem IsFileBelow.isName (hnamed : w.tree.isNamed = true) (h : w.IsFileBelow dir ns) :
    ∀ n ∈ ns, IsName n := by
  obtain ⟨tree, f, hnode, hfile⟩ := h
  obtain ⟨place, hplace⟩ := exists_lookup?_of_node hnode
  exact (FileTree.isNamed_of_lookup? (FileTree.isNamed_of_lookup? hnamed hplace).2 hfile).1

theorem IsFileBelow.ne_nil (hdir : w.isFile dir = false) (h : w.IsFileBelow dir ns) : ns ≠ [] := by
  rintro rfl
  obtain ⟨tree, f, hnode, hfile⟩ := h
  obtain rfl := Option.some.inj hfile
  rw [isFile_iff.2 ⟨f, hnode⟩] at hdir
  cases hdir

/-- **What is found below a directory**, of the files that pass a test: those that nothing on the
way to is passed over, each once and in order. -/
theorem exists_found (hordered : w.tree.isOrdered = true) (dir : Path) (keep test : Path → Bool) :
    ∃ found : List (List String), found.Pairwise (· < ·) ∧
      (∀ ns, ns ∈ found ↔ w.IsFileBelow dir ns ∧ FileTree.isReached keep dir ns = true ∧
        test (dir.into ns) = true) ∧
      (w.filesBelow keep dir).filter test = found.map dir.into := by
  unfold IsFileBelow filesBelow
  cases hnode : w.node dir with
  | error e => exact ⟨[], List.Pairwise.nil, by simp, rfl⟩
  | ok tree =>
    obtain ⟨place, hplace⟩ := exists_lookup?_of_node hnode
    have htree := FileTree.isOrdered_of_lookup? hordered hplace
    refine ⟨(tree.places.filter (FileTree.isReached keep dir)).filter (test ∘ dir.into), ?_, ?_, ?_⟩
    · exact ((FileTree.pairwise_places tree htree).filter _).filter _
    · intro ns
      rw [List.mem_filter, List.mem_filter, FileTree.mem_places_iff htree]
      constructor
      · rintro ⟨⟨⟨f, hf⟩, hreached⟩, htest⟩
        exact ⟨⟨tree, f, rfl, hf⟩, hreached, htest⟩
      · rintro ⟨⟨t, f, heq, hf⟩, hreached, htest⟩
        obtain rfl := Except.ok.inj heq
        exact ⟨⟨⟨f, hf⟩, hreached⟩, htest⟩
    · dsimp only
      rw [FileTree.walk_eq, List.filter_map]

end Workspace

end AmbientBundle

import AmbientBundle.Proofs.Files
import AmbientBundle.Proofs.Lists
import Mathlib.Data.List.Basic

/-!
# What a file that is written changes

A file is put at its names, and the directories above it are made as far as they are missing. All
else stays as it was.

* `Placed`: a tree with a file put at a list of names; `placed_iff_put`: what creating a file does.
* `Placed.again`: putting a file twice is putting it once.
* `Placed.lookup?_of_not_prefix`, `Placed.onWay`: what stands elsewhere, and above the file.
* `Placed.walk`: **a walk finds the file, and otherwise what it found before.**
* `Workspace.isOrdered_create`: the entries of directories stay in order.
* `Workspace.create_restored`: a file that is written over can be put back as it was.
* `Workspace.filesBelow_create`: what is found below a directory after a file was created.
-/

open AmbientBundle.Path

namespace AmbientBundle

namespace FileTree

variable {file other : File} {names : List String} {old : Option FileTree} {tree tree' : FileTree}

/-! ### Entries -/

theorem child?_putEntry_of_ne {name n : String} (h : name ≠ n) (tree : FileTree)
    (entries : List (String × FileTree)) :
    child? name (putEntry n tree entries) = child? name entries := by
  have hskip : ∀ (t : FileTree) (es : List (String × FileTree)),
      child? name ((n, t) :: es) = child? name es := by
    intro t es
    unfold child?
    rw [List.find?_cons_of_neg (by simpa using Ne.symm h)]
  induction entries with
  | nil => exact hskip tree []
  | cons e rest ih =>
    rw [putEntry]
    split
    · next heq =>
      have he : e = (n, e.2) := by rw [← beq_iff_eq.1 heq]
      rw [hskip, he, hskip]
    · split
      · exact hskip _ _
      · unfold child? at ih ⊢
        rw [List.find?_cons, List.find?_cons]
        cases e.1 == name with
        | true => rfl
        | false => exact ih

theorem putEntry_putEntry (n : String) (tree tree' : FileTree)
    (entries : List (String × FileTree)) :
    putEntry n tree' (putEntry n tree entries) = putEntry n tree' entries := by
  induction entries with
  | nil => simp [putEntry]
  | cons e rest ih =>
    by_cases heq : (e.1 == n) = true
    · simp [putEntry, heq]
    · by_cases hlt : n < e.1
      · simp [putEntry, heq, hlt]
      · simp [putEntry, heq, hlt, ih]

/-! ### A file put at its names -/

/-- **A file put at a list of names**, from what stood there before: directories that are missing
are made, and a file that is there gives way. -/
inductive Placed (file : File) : List String → Option FileTree → FileTree → Prop
  | new : Placed file [] none (.file file)
  | replace (f : File) : Placed file [] (some (.file f)) (.file file)
  | make {n : String} {ns : List String} {tree : FileTree} :
      Placed file ns none tree → Placed file (n :: ns) none (.directory [(n, tree)])
  | enter {n : String} {ns : List String} {entries : List (String × FileTree)} {tree : FileTree} :
      Placed file ns (child? n entries) tree →
        Placed file (n :: ns) (some (.directory entries)) (.directory (putEntry n tree entries))

namespace Placed

/-- A directory that is missing is as good as an empty one. -/
theorem getD_empty_iff {n : String} {ns : List String} :
    Placed file (n :: ns) (some (old.getD empty)) tree ↔ Placed file (n :: ns) old tree := by
  cases old with
  | some t => rfl
  | none =>
    constructor
    · intro h
      cases h with
      | enter h => exact .make h
    · intro h
      cases h with
      | @make _ _ t h =>
        have hempty : Placed file ns (child? n []) t := h
        exact .enter hempty

/-- What comes out is determined. -/
theorem unique (h : Placed file names old tree) (h' : Placed file names old tree') :
    tree = tree' := by
  induction h generalizing tree' with
  | new => cases h'; rfl
  | replace f => cases h'; rfl
  | make _ ih =>
    cases h' with
    | make h' => rw [ih h']
  | enter _ ih =>
    cases h' with
    | enter h' => rw [ih h']

/-- Whether a file can be put somewhere does not depend on the file. -/
theorem exists_other (h : Placed file names old tree) (other : File) :
    ∃ tree', Placed other names old tree' := by
  induction h with
  | new => exact ⟨_, .new⟩
  | replace f => exact ⟨_, .replace f⟩
  | make _ ih =>
    obtain ⟨t, ht⟩ := ih
    exact ⟨_, .make ht⟩
  | enter _ ih =>
    obtain ⟨t, ht⟩ := ih
    exact ⟨_, .enter ht⟩

/-- **Putting a file where another was put** is putting it there at first. -/
theorem again (h : Placed file names old tree) (h' : Placed other names old tree') :
    Placed other names (some tree) tree' := by
  induction h generalizing tree' with
  | new => cases h'; exact .replace _
  | replace f => cases h'; exact .replace _
  | @make n ns t _ ih =>
    cases h' with
    | @make _ _ t' h' =>
      have hchild : child? n [(n, t)] = some t := by simp [child?]
      have hput : putEntry n t' [(n, t)] = [(n, t')] := by simp [putEntry]
      rw [← hput]
      exact .enter (hchild ▸ ih h')
  | @enter n ns entries t _ ih =>
    cases h' with
    | @enter _ _ _ t' h' =>
      rw [← putEntry_putEntry n t t' entries]
      exact .enter ((child?_putEntry n t entries).symm ▸ ih h')

/-! ### What stands where afterwards -/

/-- **Nothing changes off the way to the file.** -/
theorem lookup?_of_not_prefix (h : Placed file names old tree) {place : List String}
    (hoff : ¬ place <+: names) : tree.lookup? place = old.bind (lookup? place) := by
  induction h generalizing place with
  | new =>
    cases place with
    | nil => exact absurd List.nil_prefix hoff
    | cons a rest => rfl
  | replace f =>
    cases place with
    | nil => exact absurd List.nil_prefix hoff
    | cons a rest => rfl
  | @make n ns t _ ih =>
    cases place with
    | nil => exact absurd List.nil_prefix hoff
    | cons a rest =>
      by_cases ha : a = n
      · subst ha
        have hrest : ¬ rest <+: ns := fun hp => hoff (List.cons_prefix_cons.2 ⟨rfl, hp⟩)
        have hchild : child? a [(a, t)] = some t := by simp [child?]
        simp only [lookup?, hchild, Option.bind_some, Option.bind_none]
        exact ih hrest
      · have hchild : child? a [(n, t)] = none := by simp [child?, Ne.symm ha]
        simp [lookup?, hchild]
  | @enter n ns entries t _ ih =>
    cases place with
    | nil => exact absurd List.nil_prefix hoff
    | cons a rest =>
      by_cases ha : a = n
      · subst ha
        have hrest : ¬ rest <+: ns := fun hp => hoff (List.cons_prefix_cons.2 ⟨rfl, hp⟩)
        simp only [lookup?, child?_putEntry, Option.bind_some]
        exact ih hrest
      · simp only [lookup?, child?_putEntry_of_ne ha, Option.bind_some]

/-- **On the way to the file**, it is put at the rest of its names. -/
theorem onWay {front rest : List String} (h : Placed file (front ++ rest) old tree) :
    ∃ t, tree.lookup? front = some t ∧ Placed file rest (old.bind (lookup? front)) t := by
  induction front generalizing old tree with
  | nil =>
    refine ⟨tree, rfl, ?_⟩
    cases old with
    | none => exact h
    | some t => exact h
  | cons n front ih =>
    cases h with
    | @make _ _ t h =>
      obtain ⟨t', hlookup, hplaced⟩ := ih h
      have hchild : child? n [(n, t)] = some t := by simp [child?]
      refine ⟨t', ?_, hplaced⟩
      simp only [lookup?, hchild, Option.bind_some]
      exact hlookup
    | @enter _ _ entries t h =>
      obtain ⟨t', hlookup, hplaced⟩ := ih h
      refine ⟨t', ?_, hplaced⟩
      simp only [lookup?, child?_putEntry, Option.bind_some]
      exact hlookup

/-- **What was there stays there, as a file or as a directory**, and another file stays as it was.
-/
theorem lookup?_kept (h : Placed file names old tree) {place : List String} {t : FileTree}
    (ht : old.bind (lookup? place) = some t) :
    ∃ t', tree.lookup? place = some t' ∧ t'.isDirectory = t.isDirectory ∧
      (t.isDirectory = false → place ≠ names → t' = t) := by
  by_cases hon : place <+: names
  · obtain ⟨rest, rfl⟩ := hon
    obtain ⟨t', hlookup, hplaced⟩ := h.onWay
    rw [ht] at hplaced
    refine ⟨t', hlookup, ?_⟩
    cases hplaced with
    | replace f => exact ⟨rfl, fun _ hne => absurd (List.append_nil _).symm hne⟩
    | enter _ => exact ⟨rfl, fun hfile _ => by cases hfile⟩
  · exact ⟨t, (h.lookup?_of_not_prefix hon).trans ht, rfl, fun _ _ => rfl⟩

end Placed

/-! ### Creating a file -/

/-- Makes the directory of a file and puts the file there. -/
def put (file : File) (names : List String) (tree : FileTree) : Except FileFault FileTree :=
  (makeDirectories names.dropLast tree).bind (createFile file names)

theorem put_singleton (n : String) (entries : List (String × FileTree)) :
    put file [n] (.directory entries) =
      match child? n entries with
      | some (.directory _) => .error .isDirectory
      | _ => .ok (.directory (putEntry n (.file file) entries)) := rfl

/-- A file is put below a directory by way of the entry that it is in. -/
theorem put_cons (n m : String) (ms : List String) (entries : List (String × FileTree)) :
    put file (n :: m :: ms) (.directory entries) =
      (put file (m :: ms) ((child? n entries).getD empty)).map fun child =>
        .directory (putEntry n child entries) := by
  unfold put
  rw [List.dropLast_cons_of_ne_nil (List.cons_ne_nil m ms), makeDirectories]
  cases hmade : makeDirectories (m :: ms).dropLast ((child? n entries).getD empty) with
  | error fault => rfl
  | ok made =>
    have hcreate : createFile file (n :: m :: ms) (.directory (putEntry n made entries)) =
        (createFile file (m :: ms) made).map fun child => .directory (putEntry n child entries) := by
      rw [createFile, child?_putEntry]
      · simp only [bind, Except.bind, Except.map, pure, Except.pure]
        cases createFile file (m :: ms) made with
        | error fault => rfl
        | ok child => simp only [putEntry_putEntry]
      · simp
    simp only [bind, Except.bind, pure, Except.pure]
    exact hcreate

/-- **Creating a file puts it at its names.** -/
theorem placed_iff_put {n : String} {ns : List String} :
    put file (n :: ns) tree = .ok tree' ↔ Placed file (n :: ns) (some tree) tree' := by
  induction ns generalizing n tree tree' with
  | nil =>
    cases tree with
    | file f =>
      constructor
      · intro h; cases h
      · intro h; cases h
    | directory entries =>
      rw [put_singleton]
      constructor
      · intro h
        split at h
        · cases h
        · next hother =>
          obtain rfl := Except.ok.inj h
          refine .enter ?_
          cases hchild : child? n entries with
          | none => exact .new
          | some t =>
            cases t with
            | file f => exact .replace f
            | directory es => exact absurd hchild (hother es)
      · intro h
        cases h with
        | enter h =>
          generalize hchild : child? n entries = child at h
          cases h with
          | new => rfl
          | replace f => rfl
  | cons m ms ih =>
    cases tree with
    | file f =>
      constructor
      · intro h
        unfold put at h
        rw [List.dropLast_cons_of_ne_nil (List.cons_ne_nil m ms)] at h
        cases h
      · intro h; cases h
    | directory entries =>
      rw [put_cons, map_eq_ok]
      constructor
      · rintro ⟨child, hput, rfl⟩
        exact .enter (Placed.getD_empty_iff.1 (ih.1 hput))
      · intro h
        cases h with
        | enter h => exact ⟨_, ih.2 (Placed.getD_empty_iff.2 h), rfl⟩

/-! ### Walking -/

mutual

/-- **Whether the entries of all directories are in the order of their names.** -/
def isOrdered : FileTree → Bool
  | .file _ => true
  | .directory entries => entriesOrdered entries
termination_by structural tree => tree

/-- Whether entries are in order, and all that is below them. -/
def entriesOrdered : List (String × FileTree) → Bool
  | [] => true
  | e :: rest => entryOrdered e && (rest.all fun r => e.1 < r.1) && entriesOrdered rest
termination_by structural entries => entries

/-- Whether what is below an entry is in order. -/
def entryOrdered : String × FileTree → Bool
  | (_, tree) => isOrdered tree
termination_by structural entry => entry

end

theorem entriesOrdered_cons {e : String × FileTree} {rest : List (String × FileTree)} :
    entriesOrdered (e :: rest) = true ↔
      (isOrdered e.2 = true ∧ ∀ r ∈ rest, e.1 < r.1) ∧ entriesOrdered rest = true := by
  rw [entriesOrdered, Bool.and_eq_true, Bool.and_eq_true, List.all_eq_true, entryOrdered]
  simp only [decide_eq_true_eq]

theorem isOrdered_of_child? {entries : List (String × FileTree)} (h : entriesOrdered entries = true)
    {n : String} {t : FileTree} (hchild : child? n entries = some t) : isOrdered t = true := by
  induction entries with
  | nil => cases hchild
  | cons e rest ih =>
    rw [entriesOrdered_cons] at h
    unfold child? at hchild
    rw [List.find?_cons] at hchild
    cases heq : e.1 == n with
    | true =>
      rw [heq] at hchild
      obtain rfl := Option.some.inj hchild
      exact h.1.1
    | false =>
      rw [heq] at hchild
      exact ih h.2 hchild

theorem isOrdered_of_lookup? (h : isOrdered tree = true) {place : List String} {t : FileTree}
    (ht : tree.lookup? place = some t) : isOrdered t = true := by
  induction place generalizing tree with
  | nil => exact Option.some.inj ht ▸ h
  | cons n rest ih =>
    cases tree with
    | file f => cases ht
    | directory entries =>
      obtain ⟨child, hchild, hrest⟩ := Option.bind_eq_some_iff.1 ht
      exact ih (isOrdered_of_child? h hchild) hrest

/-- **An entry is put in the place of its name**, over the one that is there or between two others.
-/
theorem exists_putEntry {entries : List (String × FileTree)} (h : entriesOrdered entries = true)
    (n : String) :
    ∃ l r, entries = l ++ (((child? n entries).map fun t => (n, t)).toList ++ r) ∧
      ∀ t, putEntry n t entries = l ++ (n, t) :: r := by
  induction entries with
  | nil => exact ⟨[], [], rfl, fun t => rfl⟩
  | cons e rest ih =>
    rw [entriesOrdered_cons] at h
    by_cases heq : (e.1 == n) = true
    · obtain rfl := beq_iff_eq.1 heq
      refine ⟨[], rest, ?_, fun t => ?_⟩
      · simp [child?]
      · simp [putEntry]
    · by_cases hlt : n < e.1
      · -- all names from here on are greater
        have hnone : child? n (e :: rest) = none := by
          unfold child?
          rw [Option.map_eq_none_iff, List.find?_eq_none]
          intro x hx hname
          rcases List.mem_cons.1 hx with rfl | hx
          · exact heq hname
          · rw [← beq_iff_eq.1 hname] at hlt
            exact String.lt_asymm hlt (h.1.2 x hx)
        refine ⟨[], e :: rest, ?_, fun t => ?_⟩
        · rw [hnone]; rfl
        · simp [putEntry, heq, hlt]
      · obtain ⟨l, r, hentries, hput⟩ := ih h.2
        have hchild : child? n (e :: rest) = child? n rest := by
          unfold child?
          rw [List.find?_cons_of_neg (by exact heq)]
        refine ⟨e :: l, r, ?_, fun t => ?_⟩
        · rw [hchild, List.cons_append, ← hentries]
        · rw [List.cons_append, ← hput t]
          simp [putEntry, heq, hlt]

theorem mem_putEntry {n : String} {t : FileTree} {entries : List (String × FileTree)}
    {e : String × FileTree} (h : e ∈ putEntry n t entries) : e = (n, t) ∨ e ∈ entries := by
  induction entries with
  | nil => exact Or.inl (List.mem_singleton.1 h)
  | cons e' rest ih =>
    rw [putEntry] at h
    split at h
    · rcases List.mem_cons.1 h with rfl | h
      · exact Or.inl rfl
      · exact Or.inr (List.mem_cons_of_mem _ h)
    · split at h
      · exact List.mem_cons.1 h
      · rcases List.mem_cons.1 h with rfl | h
        · exact Or.inr List.mem_cons_self
        · exact (ih h).imp_right (List.mem_cons_of_mem _)

/-- Entries stay in order. -/
theorem entriesOrdered_putEntry {n : String} {t : FileTree} {entries : List (String × FileTree)}
    (h : entriesOrdered entries = true) (ht : isOrdered t = true) :
    entriesOrdered (putEntry n t entries) = true := by
  induction entries with
  | nil => exact entriesOrdered_cons.2 ⟨⟨ht, fun r hr => nomatch hr⟩, rfl⟩
  | cons e rest ih =>
    obtain ⟨⟨hchild, hless⟩, hrest⟩ := entriesOrdered_cons.1 h
    rw [putEntry]
    split
    · next heq =>
      rw [beq_iff_eq] at heq
      exact entriesOrdered_cons.2 ⟨⟨ht, heq ▸ hless⟩, hrest⟩
    · next hne =>
      split
      · next hlt =>
        refine entriesOrdered_cons.2 ⟨⟨ht, fun r hr => ?_⟩, h⟩
        rcases List.mem_cons.1 hr with rfl | hr
        · exact hlt
        · exact String.lt_trans hlt (hless r hr)
      · next hlt =>
        refine entriesOrdered_cons.2 ⟨⟨hchild, fun r hr => ?_⟩, ih hrest⟩
        rcases mem_putEntry hr with rfl | hr
        · rw [beq_iff_eq] at hne
          exact String.not_le.1 fun hle => hne (String.le_antisymm (String.not_lt.1 hlt) hle)
        · exact hless r hr

/-- A tree in order is so with one more file. -/
theorem Placed.ordered (h : Placed file names old tree)
    (hold : ∀ t, old = some t → isOrdered t = true) : isOrdered tree = true := by
  induction h with
  | new => rfl
  | replace f => rfl
  | make _ ih =>
    have hempty : entriesOrdered [] = true := rfl
    exact entriesOrdered_putEntry hempty (ih fun t ht => nomatch ht)
  | enter _ ih =>
    have hentries := hold _ rfl
    exact entriesOrdered_putEntry hentries (ih fun t ht => isOrdered_of_child? hentries ht)
/-- The files at and below a path, if there is anything. -/
def walk? (keep : Path → Bool) (path : Path) (tree : Option FileTree) : List Path :=
  tree.elim [] (walk keep path)

theorem walkEntries_append (keep : Path → Bool) (path : Path) (a b : List (String × FileTree)) :
    walkEntries keep path (a ++ b) = walkEntries keep path a ++ walkEntries keep path b := by
  induction a with
  | nil => rfl
  | cons e a ih => rw [List.cons_append, walkEntries, walkEntries, ih, List.append_assoc]

theorem walkEntries_child? (keep : Path → Bool) (path : Path) (n : String) (t : Option FileTree) :
    walkEntries keep path (t.map fun t => (n, t)).toList =
      if keep (path.join ⟨n⟩) then walk? keep (path.join ⟨n⟩) t else [] := by
  cases t with
  | none => exact (ite_self _).symm
  | some t =>
    simp only [Option.map_some, Option.toList_some, walkEntries, walkEntry, List.append_nil]
    rfl

/-- **A walk finds the file that was put somewhere**, unless it was there before or is not reached,
and otherwise what it found before. -/
theorem Placed.walk (h : Placed file names old tree) (hold : ∀ t, old = some t → isOrdered t = true)
    (keep : Path → Bool) (path : Path) :
    tree.walk keep path = walk? keep path old ∨
      old.bind (lookup? names) = none ∧
        Gains (names.foldl (fun p n => p.join ⟨n⟩) path) (walk? keep path old)
          (tree.walk keep path) := by
  induction h generalizing path with
  | new => exact Or.inr ⟨rfl, [], [], rfl, rfl⟩
  | replace f => exact Or.inl rfl
  | @make n ns t _ ih =>
    have hwalk : FileTree.walk keep path (.directory [(n, t)]) =
        if keep (path.join ⟨n⟩) then FileTree.walk keep (path.join ⟨n⟩) t else [] :=
      walkEntries_child? keep path n (some t)
    rw [hwalk]
    by_cases hkeep : keep (path.join ⟨n⟩) = true
    · rw [if_pos hkeep]
      rcases ih (fun t ht => nomatch ht) (path.join ⟨n⟩) with hsame | ⟨-, hgains⟩
      · exact Or.inl hsame
      · exact Or.inr ⟨rfl, hgains⟩
    · rw [if_neg hkeep]
      exact Or.inl rfl
  | @enter n ns entries t _ ih =>
    have hordered : entriesOrdered entries = true := hold _ rfl
    obtain ⟨l, r, hentries, hput⟩ := exists_putEntry hordered n
    -- all entries but the one of the file are walked as before
    have hbefore : FileTree.walk keep path (.directory entries) = walkEntries keep path l ++
        ((if keep (path.join ⟨n⟩) then walk? keep (path.join ⟨n⟩) (child? n entries) else []) ++
          walkEntries keep path r) := by
      rw [← walkEntries_child?, ← walkEntries_append, ← walkEntries_append, ← hentries]
      rfl
    have hafter : FileTree.walk keep path (.directory (putEntry n t entries)) =
        walkEntries keep path l ++ ((if keep (path.join ⟨n⟩) then
          FileTree.walk keep (path.join ⟨n⟩) t else []) ++ walkEntries keep path r) := by
      rw [hput]
      exact walkEntries_append keep path l ((n, t) :: r)
    have hwalk? : walk? keep path (some (.directory entries)) =
        FileTree.walk keep path (.directory entries) := rfl
    rw [hwalk?, hbefore, hafter]
    by_cases hkeep : keep (path.join ⟨n⟩) = true
    · rw [if_pos hkeep, if_pos hkeep]
      have hchild : ∀ t, child? n entries = some t → isOrdered t = true :=
        fun t ht => isOrdered_of_child? hordered ht
      rcases ih hchild (path.join ⟨n⟩) with hsame | ⟨hnone, hgains⟩
      · exact Or.inl (by rw [hsame])
      · exact Or.inr ⟨hnone, hgains.between _ _⟩
    · rw [if_neg hkeep, if_neg hkeep]
      exact Or.inl rfl

end FileTree

namespace Workspace

open FileTree

variable {w v w' : Workspace} {names : List String} {path : Path} {file other : File}

/-! ### What stands at a path -/

/-- One name more leads to an entry of a directory. -/
theorem follow_name {before after : List String} {n : String} (hn : IsName n)
    (h : w.follow before n = .ok after) :
    after = before ++ [n] ∧ ∃ t, w.tree.lookup? (before ++ [n]) = some t := by
  unfold follow at h
  split at h
  · cases h
  · cases h
  · next entries hentries =>
    simp only [hn.not_idle, hn.ne_up, beq_iff_eq, if_false, Bool.false_eq_true] at h
    split at h
    · next hchild =>
      obtain ⟨t, ht⟩ := Option.isSome_iff_exists.1 hchild
      refine ⟨(Except.ok.inj h).symm, t, ?_⟩
      rw [lookup?_append, hentries]
      simp [lookup?, ht]
    · cases h

theorem foldlM_follow_names {before after : List String} (hnames : ∀ n ∈ names, IsName n)
    (hbefore : ∃ t, w.tree.lookup? before = some t) (h : names.foldlM w.follow before = .ok after) :
    after = before ++ names ∧ ∃ t, w.tree.lookup? (before ++ names) = some t := by
  induction names generalizing before with
  | nil =>
    obtain rfl : before = after := Except.ok.inj h
    rw [List.append_nil]
    exact ⟨rfl, hbefore⟩
  | cons n ns ih =>
    rw [List.foldlM_cons] at h
    cases hstep : w.follow before n with
    | error fault => rw [hstep] at h; cases h
    | ok next =>
      rw [hstep] at h
      obtain ⟨rfl, hnext⟩ := follow_name (hnames n List.mem_cons_self) hstep
      have hrest := ih (fun m hm => hnames m (List.mem_cons_of_mem _ hm)) hnext h
      rwa [List.append_assoc] at hrest

/-- **A path with names leads to what stands at them**, and nowhere if nothing does. -/
theorem node_ofNames_iff (hroot : w.tree.isDirectory = true) (hnames : ∀ n ∈ names, IsName n)
    {t : FileTree} : w.node (ofNames names) = .ok t ↔ w.tree.lookup? names = some t := by
  obtain ⟨entries, hentries⟩ : ∃ entries, w.tree = .directory entries := by
    cases ht : w.tree with
    | file f => rw [ht] at hroot; cases hroot
    | directory entries => exact ⟨entries, rfl⟩
  have hfirst : w.follow [] "" = .ok [] := by
    unfold follow
    rw [hentries]
    rfl
  cases names with
  | nil =>
    have hlocate : w.locate (ofNames []) = .ok [] := by
      unfold locate
      rw [if_neg (by decide), join, if_pos (by decide), pieces_ofNames_nil, List.foldlM_cons,
        hfirst]
      simp only [bind, Except.bind]
      rw [List.foldlM_cons, hfirst]
      rfl
    unfold node
    rw [hlocate]
    simp only [bind, Except.bind, lookup?, pure, Except.pure, Except.ok.injEq, Option.some.injEq]
  | cons n ns =>
    refine ⟨fun h => ?_, node_ofNames (List.cons_ne_nil n ns) hnames⟩
    unfold node at h
    cases hlocate : w.locate (ofNames (n :: ns)) with
    | error fault => rw [hlocate] at h; cases h
    | ok found =>
      rw [hlocate] at h
      have hfold := hlocate
      unfold locate at hfold
      rw [if_neg (by simp [ofNames]), join, if_pos (isAbsolute_ofNames _), pieces_ofNames hnames,
        List.foldlM_cons, hfirst] at hfold
      obtain ⟨rfl, t', ht'⟩ := foldlM_follow_names hnames ⟨_, rfl⟩ hfold
      simp only [bind, Except.bind] at h
      rw [List.nil_append] at h ht'
      rw [ht'] at h ⊢
      exact congrArg some (Except.ok.inj h)

/-- There is no text at the root, whatever stands there. -/
theorem readText_root_ne_ok (text : String) : w.readText (ofNames []) ≠ .ok text := by
  intro h
  cases htree : w.tree with
  | file f =>
    have hfirst : w.follow [] "" = .error .notDirectory := by
      unfold follow
      rw [htree]
      rfl
    have hlocate : w.locate (ofNames []) = .error .notDirectory := by
      unfold locate
      rw [if_neg (by decide), join, if_pos (by decide), pieces_ofNames_nil, List.foldlM_cons,
        hfirst]
      rfl
    unfold readText node at h
    rw [hlocate] at h
    cases h
  | directory entries =>
    have hroot : w.tree.isDirectory = true := by rw [htree]; rfl
    have hnode : w.node (ofNames []) = .ok w.tree := (node_ofNames_iff hroot (by simp)).2 rfl
    unfold readText at h
    rw [hnode, htree] at h
    cases h

theorem foldl_join_names {ns ms : List String} (h : ∀ n ∈ ns ++ ms, IsName n) :
    ms.foldl (fun p n => p.join ⟨n⟩) (ofNames ns) = ofNames (ns ++ ms) := by
  induction ms generalizing ns with
  | nil => rw [List.append_nil]; rfl
  | cons m ms ih =>
    have hns : ∀ n ∈ ns, IsName n := fun n hn => h n (List.mem_append_left _ hn)
    have hassoc : ns ++ m :: ms = ns ++ [m] ++ ms := by simp
    rw [hassoc] at h ⊢
    rw [List.foldl_cons, join_ofNames hns (h m (by simp))]
    exact ih h

/-- The files below a directory are those that a walk finds there. -/
theorem filesBelow_ofNames (hroot : w.tree.isDirectory = true) (hnames : ∀ n ∈ names, IsName n)
    (keep : Path → Bool) :
    w.filesBelow keep (ofNames names) = walk? keep (ofNames names) (w.tree.lookup? names) := by
  unfold filesBelow
  cases hnode : w.node (ofNames names) with
  | ok t =>
    rw [(node_ofNames_iff hroot hnames).1 hnode]
    rfl
  | error fault =>
    cases hlookup : w.tree.lookup? names with
    | none => rfl
    | some t =>
      rw [(node_ofNames_iff hroot hnames).2 hlookup] at hnode
      cases hnode

theorem isFile_iff : w.isFile path = true ↔ ∃ f, w.node path = .ok (.file f) := by
  unfold isFile file?
  constructor
  · intro h
    split at h
    · next f hf => exact ⟨f, hf⟩
    · cases h
  · rintro ⟨f, hf⟩
    rw [hf]
    rfl

theorem isDirectory_iff : w.isDirectory path = true ↔ ∃ es, w.node path = .ok (.directory es) := by
  unfold isDirectory
  constructor
  · intro h
    cases hnode : w.node path with
    | error fault => rw [hnode] at h; cases h
    | ok t =>
      rw [hnode] at h
      cases t with
      | file f => cases h
      | directory es => exact ⟨es, rfl⟩
  · rintro ⟨es, hes⟩
    rw [hes]
    rfl

/-! ### Creating a file -/

/-- **Creating a file puts it at the names of its path.** -/
theorem create_ofNames_iff (hne : names ≠ []) (hnames : ∀ n ∈ names, IsName n) :
    w.create (ofNames names) file = .ok w' ↔
      Placed file names (some w.tree) w'.tree ∧ w'.cwd = w.cwd := by
  obtain ⟨n, ns, rfl⟩ := List.exists_cons_of_ne_nil hne
  have hput : w.create (ofNames (n :: ns)) file =
      (put file (n :: ns) w.tree).map fun tree => { w with tree := tree } := by
    rw [create_eq, treeFor, namesOf_ofNames hnames, if_neg (by simp), put]
    cases makeDirectories (n :: ns).dropLast w.tree <;> rfl
  rw [hput, map_eq_ok]
  constructor
  · rintro ⟨tree, htree, rfl⟩
    exact ⟨placed_iff_put.1 htree, rfl⟩
  · rintro ⟨hplaced, hcwd⟩
    refine ⟨w'.tree, placed_iff_put.2 hplaced, ?_⟩
    rw [← hcwd]

/-- **A file that is created again** is there as it was, whatever was written over it. -/
theorem create_restored (hne : names ≠ []) (hnames : ∀ n ∈ names, IsName n)
    (hfirst : w.create (ofNames names) file = .ok v)
    (hover : v.create (ofNames names) other = .ok w') : w'.create (ofNames names) file = .ok v := by
  rw [create_ofNames_iff hne hnames] at hfirst hover ⊢
  -- what was written over the file might have been written at first
  obtain ⟨tree, htree⟩ := hfirst.1.exists_other other
  obtain rfl : tree = w'.tree := (hfirst.1.again htree).unique hover.1
  exact ⟨htree.again hfirst.1, hover.2.symm⟩

/-- What is written over a file might have been written at first. -/
theorem create_over (hne : names ≠ []) (hnames : ∀ n ∈ names, IsName n)
    (hfirst : w.create (ofNames names) file = .ok v)
    (hover : v.create (ofNames names) other = .ok w') :
    w.create (ofNames names) other = .ok w' := by
  rw [create_ofNames_iff hne hnames] at hfirst hover ⊢
  obtain ⟨tree, htree⟩ := hfirst.1.exists_other other
  obtain rfl : tree = w'.tree := (hfirst.1.again htree).unique hover.1
  exact ⟨htree, hover.2.trans hfirst.2⟩

/-- **The entries of all directories stay in order.** -/
theorem isOrdered_create (hne : names ≠ []) (hnames : ∀ n ∈ names, IsName n)
    (hordered : w.tree.isOrdered = true) (h : w.create (ofNames names) file = .ok w') :
    w'.tree.isOrdered = true := by
  rw [create_ofNames_iff hne hnames] at h
  exact h.1.ordered fun t ht => Option.some.inj ht ▸ hordered

/-! ### What stays -/

/-- **What is there stays there**, as a file or as a directory. -/
structure Keeps (w w' : Workspace) : Prop where
  cwd : w'.cwd = w.cwd
  lookup? : ∀ place t, w.tree.lookup? place = some t →
    ∃ t', w'.tree.lookup? place = some t' ∧ t'.isDirectory = t.isDirectory

theorem keeps_create (hne : names ≠ []) (hnames : ∀ n ∈ names, IsName n)
    (h : w.create (ofNames names) file = .ok w') : w.Keeps w' := by
  obtain ⟨hplaced, hcwd⟩ := (create_ofNames_iff hne hnames).1 h
  refine ⟨hcwd, fun place t ht => ?_⟩
  obtain ⟨t', hlookup, hkind, -⟩ := hplaced.lookup?_kept (by exact ht)
  exact ⟨t', hlookup, hkind⟩

namespace Keeps

theorem follow (h : w.Keeps w') {before after : List String} {piece : String}
    (hfollow : w.follow before piece = .ok after) : w'.follow before piece = .ok after := by
  unfold Workspace.follow at hfollow ⊢
  split at hfollow
  · cases hfollow
  · cases hfollow
  · next entries hentries =>
    obtain ⟨t', hlookup, hkind⟩ := h.lookup? before _ hentries
    cases t' with
    | file f => cases hkind
    | directory entries' =>
      -- an entry that was there is there
      have hchild : (child? piece entries).isSome = true →
          (child? piece entries').isSome = true := by
        intro hsome
        obtain ⟨t, ht⟩ := Option.isSome_iff_exists.1 hsome
        have hbelow : w.tree.lookup? (before ++ [piece]) = some t := by
          rw [lookup?_append, hentries]
          simp [FileTree.lookup?, ht]
        obtain ⟨t', ht', -⟩ := h.lookup? _ _ hbelow
        rw [lookup?_append, hlookup, Option.bind_some, FileTree.lookup?] at ht'
        obtain ⟨child, hchild, -⟩ := Option.bind_eq_some_iff.1 ht'
        rw [hchild]
        rfl
      rw [hlookup]
      simp only
      split at hfollow
      · next hidle => rwa [if_pos hidle]
      · next hidle =>
        rw [if_neg hidle]
        split at hfollow
        · next hup => rwa [if_pos hup]
        · next hup =>
          rw [if_neg hup]
          split at hfollow
          · next hsome => rwa [if_pos (hchild hsome)]
          · cases hfollow

/-- **A path that leads somewhere leads there still.** -/
theorem node (h : w.Keeps w') {t : FileTree} (hnode : w.node path = .ok t) :
    ∃ t', w'.node path = .ok t' ∧ t'.isDirectory = t.isDirectory := by
  unfold Workspace.node at hnode ⊢
  cases hlocate : w.locate path with
  | error fault => rw [hlocate] at hnode; cases hnode
  | ok found =>
    rw [hlocate] at hnode
    have hlocate' : w'.locate path = .ok found := by
      unfold locate at hlocate ⊢
      split at hlocate
      · cases hlocate
      · next hempty =>
        rw [if_neg hempty, h.cwd]
        exact foldlM_of_steps (fun _ _ _ _ hstep => h.follow hstep) hlocate
    simp only [bind, Except.bind] at hnode
    cases hlookup : w.tree.lookup? found with
    | none => rw [hlookup] at hnode; cases hnode
    | some t₀ =>
      rw [hlookup] at hnode
      obtain rfl : t₀ = t := Except.ok.inj hnode
      obtain ⟨t', ht', hkind⟩ := h.lookup? _ _ hlookup
      refine ⟨t', ?_, hkind⟩
      rw [hlocate']
      simp only [bind, Except.bind, ht']
      rfl

theorem isFile (h : w.Keeps w') (hfile : w.isFile path = true) : w'.isFile path = true := by
  rw [isFile_iff] at hfile ⊢
  obtain ⟨f, hf⟩ := hfile
  obtain ⟨t', ht', hkind⟩ := h.node hf
  cases t' with
  | file f' => exact ⟨f', ht'⟩
  | directory entries => cases hkind

theorem isDirectory (h : w.Keeps w') (hdir : w.isDirectory path = true) :
    w'.isDirectory path = true := by
  rw [isDirectory_iff] at hdir ⊢
  obtain ⟨entries, hentries⟩ := hdir
  obtain ⟨t', ht', hkind⟩ := h.node hentries
  cases t' with
  | file f' => cases hkind
  | directory entries' => exact ⟨entries', ht'⟩

end Keeps

/-- **Another file is read as before.** -/
theorem readText_create_of_ne (hroot : w.tree.isDirectory = true) (hne : names ≠ [])
    (hnames : ∀ n ∈ names, IsName n) (h : w.create (ofNames names) file = .ok w')
    (hpath : path.IsNormal)
    (hother : path ≠ ofNames names) {text : String} (hread : w.readText path = .ok text) :
    w'.readText path = .ok text := by
  obtain ⟨place, hplace, rfl⟩ := isNormal_iff.1 hpath
  have hroot' := isDirectory_create hroot h
  obtain ⟨hplaced, -⟩ := (create_ofNames_iff hne hnames).1 h
  unfold readText at hread ⊢
  cases hnode : w.node (ofNames place) with
  | error fault => rw [hnode] at hread; cases hread
  | ok t =>
    rw [hnode] at hread
    cases t with
    | directory entries => cases hread
    | file f =>
      have hlookup := (node_ofNames_iff hroot hplace).1 hnode
      obtain ⟨t', ht', -, hsame⟩ := hplaced.lookup?_kept (by exact hlookup)
      have hplace_ne : place ≠ names := fun heq => hother (by rw [heq])
      obtain rfl := hsame rfl hplace_ne
      rw [(node_ofNames_iff hroot' hplace).2 ht']
      exact hread

/-- **The files below a directory** after a file was created: one more if it was not there before
and is reached, and otherwise the same. -/
theorem filesBelow_create (hroot : w.tree.isDirectory = true) (hordered : w.tree.isOrdered = true)
    (hne : names ≠ []) (hnames : ∀ n ∈ names, IsName n)
    (h : w.create (ofNames names) file = .ok w') {dir : Path} (hdir : dir.IsNormal)
    (keep : Path → Bool) :
    w'.filesBelow keep dir = w.filesBelow keep dir ∨
      w.isFile (ofNames names) = false ∧
        Gains (ofNames names) (w.filesBelow keep dir) (w'.filesBelow keep dir) := by
  obtain ⟨place, hplace, rfl⟩ := isNormal_iff.1 hdir
  have hroot' := isDirectory_create hroot h
  obtain ⟨hplaced, -⟩ := (create_ofNames_iff hne hnames).1 h
  rw [filesBelow_ofNames hroot hplace, filesBelow_ofNames hroot' hplace]
  by_cases hon : place <+: names
  · obtain ⟨rest, rfl⟩ := hon
    obtain ⟨t, ht, hrest⟩ := hplaced.onWay
    have hbelow : ∀ t, w.tree.lookup? place = some t → t.isOrdered = true :=
      fun t ht => isOrdered_of_lookup? hordered ht
    have hjoin := foldl_join_names hnames
    rw [ht]
    rcases hrest.walk hbelow keep (ofNames place) with hsame | ⟨hnone, hgains⟩
    · exact Or.inl hsame
    · rw [hjoin] at hgains
      refine Or.inr ⟨?_, hgains⟩
      rw [← Bool.not_eq_true, isFile_iff]
      rintro ⟨f, hf⟩
      have hlookup := (node_ofNames_iff hroot hnames).1 hf
      rw [lookup?_append] at hlookup
      rw [show (some w.tree).bind (FileTree.lookup? place) = w.tree.lookup? place from rfl] at hnone
      rw [hnone] at hlookup
      cases hlookup
  · rw [hplaced.lookup?_of_not_prefix hon]
    exact Or.inl rfl

end Workspace

end AmbientBundle

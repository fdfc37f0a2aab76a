import AmbientBundle.Proofs.Descent

/-!
# Normal forms

A path leads from each directory to some place. Folding its components does not change where it
leads, and what is left by folding is told by where it leads. So a path has one normal form, which
can stand for it wherever it is continued.

* `Component.lead`, `leadFrom`: where a path leads.
* `lead_fold`, `leadFrom_normalize`: folding keeps it; `leadFrom_join`: joining goes on from there.
* `ofWay`, `normalize_relative`: the normal form of a relative path.
* `normalize_eq_iff`: **paths have the same normal form just if they lead to the same places.**
* `normalize_normalize`, `eq_of_components`: normal forms stay as they are, and are told apart by
  their components.
* `normalize_canonical`: **normal forms are canonical, and compatible with joining.**
-/

namespace AmbientBundle

open Text ModuleId

/-- **Where a component leads** from a directory, which is given by the names on the way to it from
the root. There is nothing above the root. -/
def Component.lead (dir : List String) : Component → List String
  | .root => []
  | .here => dir
  | .up => dir.dropLast
  | .name n => dir ++ [n]

namespace Path

variable {p q : Path} {ns ms : List String} {k l : Nat}

/-- **Where a path leads** from a directory. -/
def leadFrom (p : Path) (dir : List String) : List String := p.components.foldl Component.lead dir

/-! ### Folding -/

/-- One component more leads on from where the folded ones lead. -/
theorem lead_foldStep (done : List Component) (c : Component) (dir : List String) :
    (foldStep done c).reverse.foldl Component.lead dir =
      Component.lead (done.reverse.foldl Component.lead dir) c := by
  cases c with
  | root => simp [foldStep]
  | here => rfl
  | name n => simp [foldStep]
  | up =>
    cases done with
    | nil => rfl
    | cons last rest =>
      -- a step up takes back a name, and does nothing at the root
      cases last with
      | name n => simp [foldStep, Component.lead]
      | root => simp [foldStep, Component.lead]
      | here => simp [foldStep]
      | up => simp [foldStep]

/-- **Folded components lead where the components do.** -/
theorem lead_fold (cs : List Component) (dir : List String) :
    (fold cs).foldl Component.lead dir = cs.foldl Component.lead dir := by
  have hdone : ∀ done : List Component, (cs.foldl foldStep done).reverse.foldl Component.lead dir =
      cs.foldl Component.lead (done.reverse.foldl Component.lead dir) := by
    induction cs with
    | nil => exact fun _ => rfl
    | cons c cs ih =>
      intro done
      rw [List.foldl_cons, ih, lead_foldStep, List.foldl_cons]
  exact hdone []

/-! ### Paths that are continued -/

/-- Steps lead where the pieces do that they come from. -/
theorem lead_steps (pieces dir : List String) :
    (steps pieces).foldl Component.lead dir = pieces.foldl descend dir := by
  induction pieces generalizing dir with
  | nil => rfl
  | cons piece pieces ih =>
    rw [List.foldl_cons, ← ih]
    unfold descend
    by_cases hidle : isIdle piece = true
    · rw [if_pos hidle, steps, List.filter_cons_of_neg (by simp [hidle])]
      rfl
    · rw [if_neg hidle, steps, List.filter_cons_of_pos (by simp [hidle]), List.map_cons,
        List.foldl_cons]
      by_cases hup : piece = ".."
      · rw [hup]
        rfl
      · simp [Component.ofPiece, hup, Component.lead, steps]

theorem leadFrom_relative (h : p.isAbsolute = false) (dir : List String) :
    p.leadFrom dir = p.pieces.foldl descend dir := by
  unfold leadFrom
  rw [foldl_components_relative (fun _ => rfl) h, lead_steps]

/-- An absolute path leads to the same place from everywhere. -/
theorem leadFrom_absolute (h : p.isAbsolute = true) (dir dir' : List String) :
    p.leadFrom dir = p.leadFrom dir' := by
  obtain ⟨rest, hrest⟩ := pieces_of_isAbsolute h
  unfold leadFrom components
  rw [hrest]
  simp only [h, if_true]
  rfl

/-- **A path that is continued leads on from where it leads.** -/
theorem leadFrom_join (p q : Path) (dir : List String) :
    (p.join q).leadFrom dir = q.leadFrom (p.leadFrom dir) := by
  by_cases hq : q.isAbsolute = true
  · rw [join, if_pos hq]
    exact leadFrom_absolute hq _ _
  rw [Bool.not_eq_true] at hq
  have hpieces := pieces_join (p := p) hq
  by_cases hstem : p.stem = []
  · -- nothing stands before the pieces, so that the first path is empty
    have hjoin : p.join q = q := by
      rw [← ofPieces_pieces (p.join q), hpieces, hstem, List.nil_append, ofPieces_pieces]
    have hstay : p.leadFrom dir = dir := by
      unfold leadFrom
      rw [components_eq, hstem]
      rfl
    rw [hjoin, hstay]
  · have hne : (p.join q).pieces ≠ [""] := by
      intro heq
      have hlength := congrArg List.length heq
      have hstemPos := List.length_pos_iff.2 hstem
      have hpiecesPos := List.length_pos_iff.2 (pieces_ne_nil q)
      rw [hpieces, List.length_append, List.length_singleton] at hlength
      omega
    rw [leadFrom_relative hq, ← lead_steps]
    unfold leadFrom
    rw [components_eq_stepsOf hne, hpieces, stepsOf_append hstem, ← components_eq,
      List.foldl_append]

/-! ### The normal form of a relative path -/

/-- **The relative path that goes up and then through names**; a dot if it does neither. -/
def ofWay (k : Nat) (names : List String) : Path :=
  if k = 0 ∧ names = [] then ⟨"."⟩ else ofPieces (List.replicate k ".." ++ names)

theorem way_ne_nil (h : ¬ (k = 0 ∧ ns = [])) : List.replicate k ".." ++ ns ≠ [] := by
  rwa [Ne, List.append_eq_nil_iff, List.replicate_eq_nil_iff]

theorem isStep_way (k : Nat) (h : ∀ n ∈ ns, IsName n) :
    ∀ s ∈ List.replicate k ".." ++ ns, IsStep s := by
  have hway : IsWay (List.replicate k ".." ++ ns) := ⟨k, ns, rfl, h⟩
  exact fun s hs => ⟨hway.not_idle s hs, hway.no_slash s hs⟩

theorem components_ofWay (h : ∀ n ∈ ns, IsName n) (hsome : ¬ (k = 0 ∧ ns = [])) :
    (ofWay k ns).components = List.replicate k .up ++ ns.map .name := by
  have hsteps := isStep_way k h
  have hjoin : (Path.mk "").join (ofPieces (List.replicate k ".." ++ ns)) =
      ofPieces (List.replicate k ".." ++ ns) := by
    simp [join]
  have hups : steps (List.replicate k "..") = List.replicate k .up := by
    simp [steps, isIdle, Component.ofPiece]
  rw [ofWay, if_neg hsome, ← hjoin, components_join (way_ne_nil hsome) hsteps,
    ← steps_of_isStep hsteps, steps_append, steps_names h, hups]
  rfl

/-- **The normal form of a relative path** goes up and then through names. -/
theorem normalize_relative (h : p.isAbsolute = false) : ∃ k ns, (∀ n ∈ ns, IsName n) ∧
    fold p.components = (List.replicate k ".." ++ ns).map Component.ofPiece ∧
    p.normalize = ofWay k ns := by
  obtain ⟨way, hway, hfold⟩ := fold_relative h
  obtain ⟨k, ns, rfl, hns⟩ := id hway
  refine ⟨k, ns, hns, hfold, ?_⟩
  unfold normalize ofWay
  rw [hfold]
  split
  · next hnil =>
    rw [List.map_eq_nil_iff, List.append_eq_nil_iff, List.replicate_eq_nil_iff] at hnil
    rw [if_pos hnil]
  · next hne =>
    have hsome : ¬ (k = 0 ∧ ns = []) := by
      rintro ⟨rfl, rfl⟩
      exact hne rfl
    rw [if_neg hsome, ofComponents_way hway.no_slash hway.not_idle]

/-! ### Where normal forms lead -/

theorem leadFrom_ofNames (h : ∀ n ∈ ns, IsName n) (dir : List String) :
    (ofNames ns).leadFrom dir = ns := by
  unfold leadFrom
  rw [components_ofNames h, List.foldl_cons, ← steps_names h, lead_steps, descend_names h]
  rfl

theorem leadFrom_ofWay (k : Nat) (h : ∀ n ∈ ns, IsName n) (dir : List String) :
    (ofWay k ns).leadFrom dir = dir.take (dir.length - k) ++ ns := by
  unfold ofWay
  split
  · next hnone =>
    obtain ⟨rfl, rfl⟩ := hnone
    have hdot : (Path.mk ".").leadFrom dir = dir := rfl
    rw [hdot, Nat.sub_zero, List.take_length, List.append_nil]
  · next hsome =>
    have hsteps := isStep_way k h
    rw [leadFrom_relative (isAbsolute_ofPieces_steps hsteps),
      pieces_ofPieces (way_ne_nil hsome) hsteps, List.foldl_append, descend_ups, descend_names h]

/-- **The normal form of a path leads where the path does.** -/
theorem leadFrom_normalize (p : Path) (dir : List String) :
    p.normalize.leadFrom dir = p.leadFrom dir := by
  have hfolded : (fold p.components).foldl Component.lead dir = p.leadFrom dir := lead_fold _ _
  by_cases habs : p.isAbsolute = true
  · obtain ⟨ns, hns, hfold⟩ := fold_absolute habs
    have hnormal : p.normalize = ofNames ns := by
      rw [normalize, hfold]
      exact ofComponents_names hns
    rw [← hfolded, hfold, hnormal, leadFrom, components_ofNames hns]
  · rw [Bool.not_eq_true] at habs
    obtain ⟨k, ns, hns, hfold, hnormal⟩ := normalize_relative habs
    rw [← hfolded, hfold, hnormal, leadFrom_ofWay k hns, ← steps_of_isStep (isStep_way k hns),
      lead_steps, List.foldl_append, descend_ups, descend_names hns]

/-- A relative path leads to other places than an absolute one, if it starts deep enough. -/
theorem exists_leadFrom_ne (k : Nat) (hns : ∀ n ∈ ns, IsName n) (hms : ∀ n ∈ ms, IsName n) :
    ∃ dir, (∀ n ∈ dir, IsName n) ∧ (ofNames ns).leadFrom dir ≠ (ofWay k ms).leadFrom dir := by
  refine ⟨List.replicate (k + ns.length + 1) "a", ?_, fun heq => ?_⟩
  · intro n hn
    rw [List.eq_of_mem_replicate hn]
    decide
  · rw [leadFrom_ofNames hns, leadFrom_ofWay k hms] at heq
    have hlength := congrArg List.length heq
    rw [List.length_append, List.length_take, List.length_replicate] at hlength
    omega

/-- Where relative paths lead tells how far they go up, and through which names. -/
theorem ofWay_eq_of_leads (hns : ∀ n ∈ ns, IsName n) (hms : ∀ n ∈ ms, IsName n)
    (h : ∀ dir, (∀ n ∈ dir, IsName n) → (ofWay k ns).leadFrom dir = (ofWay l ms).leadFrom dir) :
    ofWay k ns = ofWay l ms := by
  -- from a directory with one name over and over, deep enough for both
  have hleft : ∀ name, IsName name → List.replicate l name ++ ns = List.replicate k name ++ ms := by
    intro name hname
    have heq := h (List.replicate (k + l) name) fun n hn => List.eq_of_mem_replicate hn ▸ hname
    have hl : min (k + l - k) (k + l) = l := by omega
    have hk : min (k + l - l) (k + l) = k := by omega
    rwa [leadFrom_ofWay k hns, leadFrom_ofWay l hms, List.take_replicate, List.take_replicate,
      List.length_replicate, hl, hk] at heq
  -- with another name, the names that both go through are as often the first one
  have ha := congrArg (List.count "a") (hleft "a" (by decide))
  have hb := congrArg (List.count "a") (hleft "b" (by decide))
  rw [List.count_append, List.count_append, List.count_replicate_self,
    List.count_replicate_self] at ha
  rw [List.count_append, List.count_append, List.count_replicate, List.count_replicate,
    if_neg (by decide), if_neg (by decide)] at hb
  obtain rfl : k = l := by omega
  rw [List.append_cancel_left (hleft "a" (by decide))]

/-- **Two paths have the same normal form just if they lead to the same place** from every
directory. -/
theorem normalize_eq_iff : p.normalize = q.normalize ↔
    ∀ dir, (∀ n ∈ dir, IsName n) → p.leadFrom dir = q.leadFrom dir := by
  constructor
  · intro h dir _
    rw [← leadFrom_normalize p, h, leadFrom_normalize]
  · intro h
    have hleads : ∀ dir, (∀ n ∈ dir, IsName n) →
        p.normalize.leadFrom dir = q.normalize.leadFrom dir := by
      intro dir hdir
      rw [leadFrom_normalize, leadFrom_normalize, h dir hdir]
    cases hp : p.isAbsolute <;> cases hq : q.isAbsolute
    · obtain ⟨k, ns, hns, -, hpn⟩ := normalize_relative hp
      obtain ⟨l, ms, hms, -, hqn⟩ := normalize_relative hq
      rw [hpn, hqn] at hleads ⊢
      exact ofWay_eq_of_leads hns hms hleads
    · obtain ⟨k, ns, hns, -, hpn⟩ := normalize_relative hp
      obtain ⟨ms, hms, hqn⟩ := normalize_absolute hq
      obtain ⟨dir, hdir, hne⟩ := exists_leadFrom_ne k hms hns
      rw [hpn, hqn] at hleads
      exact absurd (hleads dir hdir).symm hne
    · obtain ⟨ns, hns, hpn⟩ := normalize_absolute hp
      obtain ⟨l, ms, hms, -, hqn⟩ := normalize_relative hq
      obtain ⟨dir, hdir, hne⟩ := exists_leadFrom_ne l hns hms
      rw [hpn, hqn] at hleads
      exact absurd (hleads dir hdir) hne
    · obtain ⟨ns, hns, hpn⟩ := normalize_absolute hp
      obtain ⟨ms, hms, hqn⟩ := normalize_absolute hq
      have hnames := hleads [] (by simp)
      rw [hpn, hqn, leadFrom_ofNames hns, leadFrom_ofNames hms] at hnames
      rw [hpn, hqn, hnames]

/-- A normal form is its own. -/
theorem normalize_normalize (p : Path) : p.normalize.normalize = p.normalize :=
  normalize_eq_iff.2 fun dir _ => leadFrom_normalize p dir

theorem normalize_absolutize (p cwd : Path) :
    (p.absolutize cwd).normalize = p.absolutize cwd := by
  unfold absolutize
  split
  · exact normalize_normalize p
  · exact normalize_normalize (cwd.join p)

/-- **Normal forms are told apart by their components.** -/
theorem eq_of_components (hp : p.normalize = p) (hq : q.normalize = q)
    (h : p.components = q.components) : p = q := by
  rw [← hp, ← hq, normalize, normalize, h]

/-! ### Canonical paths -/

/-- **Normal forms are canonical, and compatible with joining.** A normal form is its own; it is the
one of just those paths that lead to the same places. That of an absolute path goes from the root
through names; that of a relative path is a dot, or goes up and then through names. A path that is
continued may be replaced by its normal form. So a path read from an absolute directory is absolute
and in normal form, and is the same when it is read again, from wherever. -/
theorem normalize_canonical :
    (∀ p : Path, p.normalize.normalize = p.normalize ∧
      (p.isAbsolute = true → ∃ names, (∀ n ∈ names, IsName n) ∧
        p.normalize.text = "/" ++ "/".intercalate names ∧
        p.normalize.components = .root :: names.map .name) ∧
      (p.isAbsolute = false → p.normalize = ⟨"."⟩ ∨ ∃ k names, (∀ n ∈ names, IsName n) ∧
        p.normalize.text = "/".intercalate (List.replicate k ".." ++ names) ∧
        p.normalize.components = List.replicate k .up ++ names.map .name)) ∧
    (∀ p q : Path, p.normalize = q.normalize ↔
      ∀ dir, (∀ n ∈ dir, IsName n) → p.leadFrom dir = q.leadFrom dir) ∧
    (∀ p q : Path, (p.join q).normalize = (p.normalize.join q).normalize) ∧
    ∀ p cwd : Path, cwd.isAbsolute = true →
      (p.absolutize cwd).IsNormal ∧
        ∀ dir, (p.absolutize cwd).absolutize dir = p.absolutize cwd := by
  refine ⟨fun p => ⟨?_, fun habs => ?_, fun habs => ?_⟩, fun p q => normalize_eq_iff,
    fun p q => ?_, fun p cwd hcwd => ?_⟩
  · exact normalize_normalize p
  · obtain ⟨ns, hns, hnormal⟩ := normalize_absolute habs
    rw [hnormal]
    exact ⟨ns, hns, rfl, components_ofNames hns⟩
  · obtain ⟨k, ns, hns, -, hnormal⟩ := normalize_relative habs
    rw [hnormal]
    by_cases hnone : k = 0 ∧ ns = []
    · exact .inl (if_pos hnone)
    · refine .inr ⟨k, ns, hns, ?_, components_ofWay hns hnone⟩
      rw [ofWay, if_neg hnone]
      rfl
  · refine normalize_eq_iff.2 fun dir _ => ?_
    rw [leadFrom_join, leadFrom_join, leadFrom_normalize]
  · have hnormal : (p.absolutize cwd).IsNormal := absolutize_isNormal hcwd
    exact ⟨hnormal, fun dir => absolutize_of_isNormal hnormal⟩

/-- A path that climbs above the root, one that climbs above its start, and the second one read
from a directory. -/
theorem normalize_canonical_climbing :
    (Path.mk "/a/../.././b//c/..").isAbsolute = true ∧
    (Path.mk "/a/../.././b//c/..").normalize = ⟨"/b"⟩ ∧
    (∃ names, (∀ n ∈ names, IsName n) ∧
      (Path.mk "/a/../.././b//c/..").normalize.text = "/" ++ "/".intercalate names ∧
      (Path.mk "/a/../.././b//c/..").normalize.components = .root :: names.map .name) ∧
    (Path.mk "./x/../../y/.").isAbsolute = false ∧
    (Path.mk "./x/../../y/.").normalize = ⟨"../y"⟩ ∧
    ((Path.mk "./x/../../y/.").normalize = ⟨"."⟩ ∨ ∃ k names, (∀ n ∈ names, IsName n) ∧
      (Path.mk "./x/../../y/.").normalize.text = "/".intercalate (List.replicate k ".." ++ names) ∧
      (Path.mk "./x/../../y/.").normalize.components =
        List.replicate k .up ++ names.map .name) ∧
    (Path.mk "/q//r").isAbsolute = true ∧
    (Path.mk "./x/../../y/.").absolutize ⟨"/q//r"⟩ = ⟨"/q/y"⟩ ∧
    ∀ dir, (Path.mk "/q/y").absolutize dir = ⟨"/q/y"⟩ := by
  obtain ⟨hforms, -, -, habsolutize⟩ := normalize_canonical
  have habs : (Path.mk "/a/../.././b//c/..").isAbsolute = true := by decide
  have hrel : (Path.mk "./x/../../y/.").isAbsolute = false := by decide
  have hcwd : (Path.mk "/q//r").isAbsolute = true := by decide
  have hread : (Path.mk "./x/../../y/.").absolutize ⟨"/q//r"⟩ = ⟨"/q/y"⟩ := by decide
  have hagain := (habsolutize ⟨"./x/../../y/."⟩ ⟨"/q//r"⟩ hcwd).2
  rw [hread] at hagain
  exact ⟨habs, by decide, (hforms _).2.1 habs, hrel, by decide, (hforms _).2.2 hrel, hcwd, hread,
    hagain⟩

end Path

end AmbientBundle

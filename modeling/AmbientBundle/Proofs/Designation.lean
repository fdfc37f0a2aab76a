import AmbientBundle.Proofs.Ways

/-!
# What a reference designates

Two modules of a package may be told apart by their identifiers alone, but a reference is followed
among identifiers, where the package name stands in front of what stands below the root. A
specifier that climbs above the root climbs through the package name.

* `directory_ofPath`: the directory of a module, by the segments of the package name and of the
  path.
* `climb`: what steps up leave of segments.
* `segments_of_resolve`: what a specifier that means a given module leads to.
* `way_of_follow`: how it gets there, seen from the root.
* `resolve_designates`: **a reference that means a module designates its file**, if it does not
  climb out of the root; otherwise it comes back through the package name.
-/

open AmbientBundle.Path

namespace AmbientBundle.ModuleId

open Text

/-! ### The package name -/

/-- **The segments of a package name.** Empty ones do not count. -/
def packageSegments (name : Option String) : List String :=
  (Path.mk (name.getD "")).pieces.filter (· != "")

theorem filter_ne_empty {segments : List String} (h : ∀ s ∈ segments, s ≠ "") :
    segments.filter (· != "") = segments :=
  List.filter_eq_self.2 fun s hs => by simpa using h s hs

theorem no_slash_of_append {a b : String} (h : '/' ∉ (a ++ b).toList) : '/' ∉ a.toList := by
  rw [String.toList_append, List.mem_append, not_or] at h
  exact h.1

/-- What stands before the identifier of a file in a package: the name and a slash. -/
def nameFront : Option String → String
  | none | some "" => ""
  | some name => String.ofList (dropTrailing '/' name.toList) ++ "/"

theorem ofPath_eq_nameFront (p root : Path) (name : Option String) :
    ofPath p root name = nameFront name ++ ofPath p root none := by
  unfold ofPath nameFront
  split <;> simp

/-- The end that is dropped from a text holds nothing but the character. -/
theorem exists_replicate_dropTrailing (c : Char) (cs : List Char) :
    ∃ k, cs = dropTrailing c cs ++ List.replicate k c := by
  obtain ⟨k, hend⟩ : ∃ k, cs.reverse.takeWhile (· == c) = List.replicate k c :=
    ⟨_, List.eq_replicate_of_mem fun d hd => by simpa using List.mem_takeWhile_imp hd⟩
  refine ⟨k, ?_⟩
  calc cs = (cs.reverse.takeWhile (· == c) ++ cs.reverse.dropWhile (· == c)).reverse := by
        rw [List.takeWhile_append_dropWhile, List.reverse_reverse]
    _ = dropTrailing c cs ++ (cs.reverse.takeWhile (· == c)).reverse := by
        rw [List.reverse_append, dropTrailing]
    _ = dropTrailing c cs ++ List.replicate k c := by
        rw [hend, List.reverse_replicate]

/-- Trailing slashes add empty pieces only. -/
theorem pieces_append_slashes (k : Nat) (cs : List Char) :
    (Path.mk (String.ofList (cs ++ List.replicate k '/'))).pieces.filter (· != "") =
      (Path.mk (String.ofList cs)).pieces.filter (· != "") := by
  induction k with
  | zero => rw [List.replicate_zero, List.append_nil]
  | succ k ih =>
    have htext : String.ofList (cs ++ List.replicate (k + 1) '/') =
        String.ofList (cs ++ List.replicate k '/') ++ "/" ++ "" := by
      rw [List.replicate_succ', ← List.append_assoc, String.ofList_append, String.append_empty]
    rw [htext, pieces_append_slash, List.filter_append, ih]
    exact List.append_nil _

/-- What stands before an identifier in a package, by its pieces. -/
theorem nameFront_cases (name : Option String) :
    (nameFront name = "" ∧ packageSegments name = []) ∨
      ∃ front, nameFront name = front ++ "/" ∧
        packageSegments name = (Path.mk front).pieces.filter (· != "") := by
  unfold nameFront
  split
  · exact Or.inl ⟨rfl, by decide⟩
  · exact Or.inl ⟨rfl, by decide⟩
  · next n _ =>
    refine Or.inr ⟨_, rfl, ?_⟩
    obtain ⟨k, hk⟩ := exists_replicate_dropTrailing '/' n.toList
    rw [← pieces_append_slashes k, ← hk, String.ofList_toList]
    rfl

theorem packageSegments_ne_empty {name : Option String} :
    ∀ s ∈ packageSegments name, s ≠ "" ∧ '/' ∉ s.toList := by
  intro s hs
  obtain ⟨hmem, hne⟩ := List.mem_filter.1 hs
  exact ⟨by simpa using hne, mem_pieces_no_slash hmem⟩

/-- **The directory of a module in a package**: the segments of the name, and the directories. -/
theorem directory_nameFront (name : Option String) {dirs : List String}
    (hdirs : ∀ s ∈ dirs, s ≠ "" ∧ '/' ∉ s.toList) {last : String} (hlast : '/' ∉ last.toList) :
    directory (nameFront name ++ "/".intercalate (dirs ++ [last])) =
      packageSegments name ++ dirs := by
  rcases nameFront_cases name with ⟨hfront, hname⟩ | ⟨front, hfront, hname⟩
  · rw [hfront, hname, String.empty_append, directory_segments hdirs hlast, List.nil_append]
  · -- the last slash stands before the last segment
    have htext : (front ++ "/" ++ "/".intercalate (dirs ++ [last])).toList =
        ("/".intercalate (front :: dirs)).toList ++ '/' :: last.toList := by
      have hjoin : front ++ "/" ++ "/".intercalate (dirs ++ [last]) =
          "/".intercalate (front :: dirs ++ [last]) := by
        rw [List.cons_append, String.intercalate_cons_of_ne_nil (by simp)]
      rw [hjoin, String.intercalate_append_of_ne_nil (by simp) (by simp)]
      simp
    have hpieces : (Path.mk ("/".intercalate (front :: dirs))).pieces =
        (Path.mk front).pieces ++ dirs := by
      by_cases hd : dirs = []
      · simp [hd]
      · rw [String.intercalate_cons_of_ne_nil hd, pieces_append_slash]
        exact congrArg _ (pieces_intercalate hd fun s hs => (hdirs s hs).2)
    have hfilter : ∀ ws : List (List Char),
        (ws.filter (!·.isEmpty)).map String.ofList = (ws.map String.ofList).filter (· != "") := by
      intro ws
      rw [List.filter_map]
      congr 2
      funext w
      cases w <;> simp
    unfold directory
    rw [hfront, hname, htext, splitLast?_append _ hlast]
    simp only [hfilter]
    nth_rewrite 2 [← filter_ne_empty fun s hs => (hdirs s hs).1]
    rw [← List.filter_append, ← hpieces]
    rfl

/-- The suffix of a declaration file is taken off, whatever stands before it. -/
theorem stripSuffix_declaration {suffix : String} (h : suffix ∈ declarationSuffixes)
    (text : String) : stripSuffix (text ++ suffix) = text := by
  have hmem : ∀ e ∈ declarationSuffixes, e ∈ moduleSuffixes := by decide
  have hpairs : ∀ e ∈ declarationSuffixes, ∀ d ∈ moduleSuffixes.takeWhile (· != e),
      ¬ d.toList <:+ e.toList ∧ ¬ e.toList <:+ d.toList := by decide
  refine stripFirst_of_mem (hmem suffix h) fun d hd hsuffix => ?_
  obtain ⟨h1, h2⟩ := hpairs suffix h d hd
  rw [String.toList_append] at hsuffix
  rcases suffix_append_cases hsuffix with hcase | ⟨r, hr, -⟩
  · exact h1 hcase
  · exact h2 ⟨r, hr.symm⟩

/-- **The identifier of a file in a package**: what stands before it, the directories, and the file
without its suffix. -/
theorem ofPath_file {rs dirs : List String} {file last : String} (name : Option String)
    (h : ∀ n ∈ rs ++ (dirs ++ [file]), IsName n) (hlast : '/' ∉ last.toList)
    (hstrip : stripSuffix ("/".intercalate (dirs ++ [file])) = "/".intercalate (dirs ++ [last])) :
    ofPath (ofNames (rs ++ (dirs ++ [file]))) (ofNames rs) name =
      nameFront name ++ "/".intercalate (dirs ++ [last]) := by
  rw [ofPath_eq_nameFront, ofPath_names h (Or.inl ⟨rfl, rfl⟩) hlast hstrip, List.nil_append]

/-- **The directory of a module**: the segments of the package name, and the directories of the
file. -/
theorem directory_ofPath {rs dirs : List String} {file : String} (name : Option String)
    (h : ∀ n ∈ rs ++ (dirs ++ [file]), IsName n) :
    directory (ofPath (ofNames (rs ++ (dirs ++ [file]))) (ofNames rs) name) =
      packageSegments name ++ dirs := by
  obtain ⟨stem, hstem, hstrip⟩ := stripSuffix_segments dirs (h file (by simp)).no_slash
  rw [ofPath_file name h hstem hstrip]
  refine directory_nameFront name (fun n hn => ?_) hstem
  have hname := h n (by simp [hn])
  exact ⟨hname.ne_empty, hname.no_slash⟩

/-! ### Climbing -/

theorem foldl_step_up_up (k : Nat) (rest : List String) :
    (List.replicate k "..").foldl step (".." :: rest) = List.replicate k ".." ++ ".." :: rest := by
  induction k generalizing rest with
  | zero => rfl
  | succ k ih =>
    rw [List.replicate_succ, List.foldl_cons, step_up_up, ih, List.cons_append,
      ← List.singleton_append, ← List.append_assoc, ← List.replicate_succ', List.replicate_succ]
    rfl

/-- **What steps up leave of segments**, the last one first: they take back segments that are not
themselves steps up, and are kept from there on. -/
theorem climb (k : Nat) (stack : List String) :
    ∃ back kept j, stack = back ++ kept ∧ ".." ∉ back ∧ back.length + j = k ∧
      (List.replicate k "..").foldl step stack = List.replicate j ".." ++ kept := by
  induction k generalizing stack with
  | zero => exact ⟨[], stack, 0, rfl, List.not_mem_nil, rfl, rfl⟩
  | succ k ih =>
    rw [List.replicate_succ, List.foldl_cons]
    cases stack with
    | nil =>
      refine ⟨[], [], k + 1, rfl, List.not_mem_nil, Nat.zero_add _, ?_⟩
      rw [show step [] ".." = [".."] from rfl, foldl_step_up_up, List.append_nil,
        List.replicate_succ']
    | cons last rest =>
      by_cases hlast : last = ".."
      · refine ⟨[], last :: rest, k + 1, rfl, List.not_mem_nil, Nat.zero_add _, ?_⟩
        rw [hlast, step_up_up, foldl_step_up_up, List.replicate_succ', List.append_assoc]
        rfl
      · obtain ⟨back, kept, j, rfl, hback, hlen, hfold⟩ := ih rest
        refine ⟨last :: back, kept, j, rfl, ?_, ?_, ?_⟩
        · rw [List.mem_cons, not_or]
          exact ⟨Ne.symm hlast, hback⟩
        · rw [List.length_cons]; omega
        · rw [step_up_of_ne _ hlast, hfold]

/-! ### References -/

/-- What a reference may carry after the name of a module: a suffix of a file, and a script
extension after it. -/
def endings : List String :=
  ("" :: moduleSuffixes).flatMap fun suffix => ("" :: scriptExtensions).map (suffix ++ ·)

/-- **The way of a specifier from a root**: where it leads from a directory below the root. -/
def wayFrom (root here : Path) (specifier : String) : Path :=
  (((here.relativeTo? root).getD ⟨""⟩).join ⟨specifier⟩).normalize

/-- **A specifier climbs out of a root** if its way from there starts with a step up. -/
def ClimbsOut (root here : Path) (specifier : String) : Prop :=
  (wayFrom root here specifier).pieces.head? = some ".."

instance (root here : Path) (specifier : String) : Decidable (ClimbsOut root here specifier) :=
  inferInstanceAs (Decidable (_ = _))

/-- The two extensions that are taken off an identifier are taken off its last segment. -/
theorem strip_segments (dirs : List String) (file : String) :
    ∃ last, ∃ e ∈ endings, file = last ++ e ∧
      stripSuffix (stripFirst scriptExtensions ("/".intercalate (dirs ++ [file]))) =
        "/".intercalate (dirs ++ [last]) := by
  have hscripts : ∀ e ∈ scriptExtensions, '/' ∉ e.toList := by decide
  have hsuffixes : ∀ e ∈ moduleSuffixes, '/' ∉ e.toList := by decide
  obtain ⟨stem, e, he, rfl, hscript⟩ := stripFirst_segments hscripts dirs file
  obtain ⟨last, d, hd, rfl, hsuffix⟩ := stripFirst_segments hsuffixes dirs stem
  refine ⟨last, d ++ e, ?_, String.append_assoc, ?_⟩
  · exact List.mem_flatMap.2 ⟨d, hd, List.mem_map.2 ⟨e, he, rfl⟩⟩
  · rw [hscript]
    exact hsuffix

theorem ending_ne_up {target e : String} (htarget : target ≠ "..") (he : e ∈ endings) :
    target ++ e ≠ ".." := by
  have hlong : ∀ e ∈ endings, e = "" ∨ 2 < e.length := by decide
  intro h
  rcases hlong e he with rfl | hlen
  · exact htarget (by rwa [String.append_empty] at h)
  · have hlength := congrArg String.length h
    rw [String.length_append, show ("..").length = 2 from rfl] at hlength
    omega

/-- The segments that a specifier leads to are not empty and hold no slash. -/
theorem follow_segments (name : Option String) {here : List String}
    (hhere : ∀ n ∈ here, IsName n) (s : String) :
    ∀ x ∈ follow (packageSegments name ++ here) s, x ≠ "" ∧ '/' ∉ x.toList := by
  intro x hx
  rw [follow_eq, List.mem_reverse] at hx
  refine forall_mem_foldl_step (P := fun x => x ≠ "" ∧ '/' ∉ x.toList) (by decide) ?_ ?_ x hx
  · intro y hy hidle
    refine ⟨?_, mem_pieces_no_slash hy⟩
    rintro rfl
    exact absurd hidle (by decide)
  · intro y hy
    rcases List.mem_append.1 (List.mem_reverse.1 hy) with hy | hy
    · exact packageSegments_ne_empty y hy
    · exact ⟨(hhere y hy).ne_empty, (hhere y hy).no_slash⟩

/-- The pieces of an identifier are those of the name, empty ones included, and its segments. -/
theorem pieces_nameFront (name : Option String) {segments : List String} (hne : segments ≠ [])
    (h : ∀ s ∈ segments, '/' ∉ s.toList) :
    ∃ front, packageSegments name = front.filter (· != "") ∧
      (Path.mk (nameFront name ++ "/".intercalate segments)).pieces = front ++ segments := by
  have hsegments : (Path.mk ("/".intercalate segments)).pieces = segments :=
    pieces_intercalate hne h
  rcases nameFront_cases name with ⟨hfront, hname⟩ | ⟨front, hfront, hname⟩
  · exact ⟨[], hname, by rw [hfront, String.empty_append, hsegments]; rfl⟩
  · exact ⟨_, hname, by rw [hfront, pieces_append_slash, hsegments]⟩

theorem no_slash_concat {dirs : List String} {last : String} (hdirs : ∀ n ∈ dirs, '/' ∉ n.toList)
    (hlast : '/' ∉ last.toList) : ∀ n ∈ dirs ++ [last], '/' ∉ n.toList := by
  intro n hn
  rcases List.mem_append.1 hn with hn | hn
  · exact hdirs n hn
  · rwa [List.mem_singleton.1 hn]

/-- **What a specifier that means a module leads to**: the segments of the module, with something
after the last of them that may be taken off. -/
theorem segments_of_resolve {here there : List String} {name : Option String}
    {current s target : String} (hcurrent : directory current = packageSegments name ++ here)
    (hhere : ∀ n ∈ here, IsName n) (hthere : ∀ n ∈ there, IsName n) (htarget : target ≠ ".")
    (hslash : '/' ∉ target.toList)
    (h : resolve current s = nameFront name ++ "/".intercalate (there ++ [target])) :
    ∃ e ∈ endings, follow (packageSegments name ++ here) s =
      packageSegments name ++ (there ++ [target ++ e]) := by
  have hsegments := follow_segments name hhere s
  obtain ⟨front, hname, hpieces⟩ := pieces_nameFront name (List.append_ne_nil_of_right_ne_nil there
    (List.cons_ne_nil target [])) (no_slash_concat (fun n hn => (hthere n hn).no_slash) hslash)
  unfold resolve at h
  rw [hcurrent] at h
  rcases List.eq_nil_or_concat (follow (packageSegments name ++ here) s) with
    hnil | ⟨dirs, file, hcat⟩
  · -- the identifier would be a dot
    rw [hnil] at h
    simp only at h
    rw [← h, show (Path.mk ".").pieces = [] ++ ["."] from rfl, ← List.append_assoc] at hpieces
    exact absurd (List.append_inj_right' hpieces rfl) (by simpa using Ne.symm htarget)
  · rw [List.concat_eq_append] at hcat
    obtain ⟨last, e, he, rfl, hstrip⟩ := strip_segments dirs file
    have hdirs : ∀ x ∈ dirs ++ [last ++ e], x ≠ "" ∧ '/' ∉ x.toList := hcat ▸ hsegments
    have hid : "/".intercalate (dirs ++ [last]) =
        nameFront name ++ "/".intercalate (there ++ [target]) := by
      rw [← hstrip, ← h, hcat]
      split
      · next hnil => simp at hnil
      · rfl
    have hsame : dirs ++ [last] = front ++ there ++ [target] := by
      rw [List.append_assoc, ← hpieces, ← hid]
      refine (pieces_intercalate (by simp) (no_slash_concat (fun x hx => ?_) ?_)).symm
      · exact (hdirs x (List.mem_append_left _ hx)).2
      · exact no_slash_of_append (hdirs (last ++ e) (by simp)).2
    obtain ⟨hfront, hlast⟩ := List.append_inj' hsame rfl
    obtain rfl : last = target := by simpa using hlast
    -- no segment is empty, so neither is a piece of the name
    have hdirs_eq : dirs = packageSegments name ++ there := by
      rw [← filter_ne_empty fun x hx => (hdirs x (List.mem_append_left _ hx)).1, hfront,
        List.filter_append, filter_ne_empty fun x hx => (hthere x hx).ne_empty, hname]
    exact ⟨e, he, by rw [hcat, hdirs_eq, List.append_assoc]⟩

/-- **The way to a module**: straight down, or up through the last segments of the package name and
down through them again. -/
theorem way_of_follow {front here there : List String} {s last : String}
    (hhere : ∀ n ∈ here, IsName n) (hthere : ".." ∉ there) (hlast : last ≠ "..")
    (h : follow (front ++ here) s = front ++ (there ++ [last])) :
    ∃ back, back <:+ front ∧ (∀ n ∈ back ++ (there ++ [last]), IsName n) ∧
      follow here s = List.replicate back.length ".." ++ (back ++ (there ++ [last])) := by
  obtain ⟨k, names, hway, hnames⟩ := follow_isWay (.of_names hhere) s
  obtain ⟨back, kept, j, hstack, hback, hlen, hclimb⟩ := climb k front.reverse
  have hfront : front = kept.reverse ++ back.reverse := by
    rw [← List.reverse_append, ← hstack, List.reverse_reverse]
  rw [follow_append front hhere, hway, List.foldl_append, hclimb, foldl_step_names hnames] at h
  have hrest : List.replicate j ".." ++ names = back.reverse ++ (there ++ [last]) := by
    refine List.append_cancel_left (?_ : kept.reverse ++ _ = kept.reverse ++ _)
    calc kept.reverse ++ (List.replicate j ".." ++ names)
        = (names.reverse ++ (List.replicate j ".." ++ kept)).reverse := by
          simp [List.reverse_append]
      _ = kept.reverse ++ (back.reverse ++ (there ++ [last])) := by
          rw [h, hfront, List.append_assoc]
  cases j with
  | zero =>
    obtain rfl : names = back.reverse ++ (there ++ [last]) := hrest
    have hk : k = back.reverse.length := by
      rw [List.length_reverse]; omega
    exact ⟨back.reverse, ⟨kept.reverse, hfront.symm⟩, hnames, hk ▸ hway⟩
  | succ j =>
    -- a step up would be left, but neither the name taken back nor the place of the module has one
    have hup : ".." ∈ back.reverse ++ (there ++ [last]) := by
      rw [← hrest, List.replicate_succ]
      exact List.mem_cons_self
    have hnot : ".." ∉ back.reverse ++ (there ++ [last]) := by
      simp only [List.mem_append, List.mem_reverse, List.mem_singleton, not_or]
      exact ⟨hback, hthere, Ne.symm hlast⟩
    exact absurd hup hnot

theorem pieces_wayFrom {rs here : List String} (h : ∀ n ∈ rs ++ here, IsName n) {s : String}
    (hs : (Path.mk s).isAbsolute = false) (hne : follow here s ≠ []) :
    wayFrom (ofNames rs) (ofNames (rs ++ here)) s = ofPieces (follow here s) ∧
      (ofPieces (follow here s)).pieces = follow here s := by
  have hhere : ∀ n ∈ here, IsName n := fun n hn => h n (List.mem_append_right _ hn)
  constructor
  · unfold wayFrom
    rw [relativeTo?_names h, Option.getD_some, normalize_join_relative (.of_names hhere) hs, if_neg hne]
  · exact pieces_intercalate hne (follow_isWay (.of_names hhere) s).no_slash

/-- A way that comes back through names starts with a step up, unless there are none. -/
theorem head?_way {back names : List String} (h : ∀ n ∈ back ++ names, IsName n) :
    (List.replicate back.length ".." ++ (back ++ names)).head? = some ".." ↔ back ≠ [] := by
  cases back with
  | nil =>
    have hhead : names.head? ≠ some ".." := fun hup =>
      (h ".." (List.mem_of_head? hup)).ne_up rfl
    simpa using hhead
  | cons n back => simp [List.replicate_succ]

/-- **A reference that means a module designates its file**, up to what is taken off a reference.
If it climbs out of the root, it comes back through the last segments of the package name, and
designates the place of the file below a directory with that name. -/
theorem resolve_designates {root p q here there : Path} {name : Option String}
    {s target suffix : String} (hroot : root.IsNormal) (hp : p.IsNormal) (hq : q.IsNormal)
    (hpr : p.IsBelow root) (hqr : q.IsBelow root) (hhere : p.parent? = some here)
    (hthere : q.parent? = some there) (hfile : q.fileName? = some (target ++ suffix))
    (hsuffix : suffix ∈ declarationSuffixes) (htarget : target ∉ [".", ".."])
    (hs : (Path.mk s).isAbsolute = false)
    (h : resolve (ofPath p root name) s = ofPath q root name) :
    ∃ e ∈ endings,
      (¬ ClimbsOut root here s → (here.join ⟨s⟩).normalize = there.join ⟨target ++ e⟩) ∧
      (ClimbsOut root here s → ∃ back, back ≠ [] ∧ back <:+ packageSegments name ∧
        wayFrom root here s = ofPieces (List.replicate back.length ".." ++
          (back ++ (there.names.drop root.names.length ++ [target ++ e])))) := by
  obtain ⟨hereNames, file, hpn, hrootn, hpath, hheren, -⟩ := hpr.exists_file hp hroot hhere
  obtain ⟨thereNames, last, hqn, -, hqath, htheren, hname⟩ := hqr.exists_file hq hroot hthere
  obtain rfl : last = target ++ suffix := Option.some.inj (hname.symm.trans hfile)
  have hdirs : ∀ n ∈ hereNames, IsName n := fun n hn => hpn n (by simp [hn])
  have hplace : ∀ n ∈ thereNames, IsName n := fun n hn => hqn n (by simp [hn])
  have hslash : '/' ∉ target.toList :=
    no_slash_of_append (hqn (target ++ suffix) (by simp)).no_slash
  -- the directory of the one identifier, and the other one
  have hdir := directory_ofPath name hpn
  rw [← hpath, ← hrootn] at hdir
  have hid := ofPath_file name hqn hslash
    (by rw [intercalate_append_text, stripSuffix_declaration hsuffix])
  rw [← hqath, ← hrootn] at hid
  -- what the reference leads to, among identifiers and among paths
  simp only [List.mem_cons, List.not_mem_nil, or_false, not_or] at htarget
  obtain ⟨e, he, hfollow⟩ := segments_of_resolve hdir hdirs hplace htarget.1 hslash (h.trans hid)
  obtain ⟨back, hback, hnames, hway⟩ :=
    way_of_follow hdirs (fun hup => (hplace ".." hup).ne_up rfl) (ending_ne_up htarget.2 he) hfollow
  have hbelow : ∀ n ∈ root.names ++ hereNames, IsName n := by
    intro n hn
    exact hpn n (by rw [← List.append_assoc]; exact List.mem_append_left _ hn)
  obtain ⟨hfrom, hpieces⟩ := pieces_wayFrom hbelow hs (by simp [hway])
  rw [← hrootn, ← hheren] at hfrom
  have hclimbs : ClimbsOut root here s ↔ back ≠ [] := by
    unfold ClimbsOut
    rw [hfrom, hpieces, hway, head?_way hnames]
  refine ⟨e, he, ?_, ?_⟩
  · intro hinside
    obtain rfl : back = [] := not_not.1 fun hne => hinside (hclimbs.2 hne)
    have hjoin := normalize_join_way hbelow hs hway hnames
    rw [← hheren] at hjoin
    rw [hjoin, htheren, join_ofNames (fun n hn => hqn n ?_) (hnames _ (by simp))]
    · simp
    · rw [← List.append_assoc]; exact List.mem_append_left _ hn
  · intro hout
    refine ⟨back, hclimbs.1 hout, hback, ?_⟩
    have hdrop : there.names.drop root.names.length = thereNames := by
      rw [htheren, names_ofNames fun n hn => hqn n ?_, List.drop_left]
      rw [← List.append_assoc]; exact List.mem_append_left _ hn
    rw [hfrom, hway, hdrop]

/-- `../../kit/util/io.js` in the file `a/b.d.ts` of the package `acme/kit` climbs out of the root,
and means the module `util/io` all the same. -/
theorem resolve_designates_through_name :
    resolve (ofPath ⟨"/w/src/a/b.d.ts"⟩ ⟨"/w/src"⟩ (some "acme/kit")) "../../kit/util/io.js" =
        ofPath ⟨"/w/src/util/io.d.ts"⟩ ⟨"/w/src"⟩ (some "acme/kit") ∧
      ∃ e ∈ endings,
        (¬ ClimbsOut ⟨"/w/src"⟩ ⟨"/w/src/a"⟩ "../../kit/util/io.js" →
          ((Path.mk "/w/src/a").join ⟨"../../kit/util/io.js"⟩).normalize =
            (Path.mk "/w/src/util").join ⟨"io" ++ e⟩) ∧
        (ClimbsOut ⟨"/w/src"⟩ ⟨"/w/src/a"⟩ "../../kit/util/io.js" →
          ∃ back, back ≠ [] ∧ back <:+ packageSegments (some "acme/kit") ∧
            wayFrom ⟨"/w/src"⟩ ⟨"/w/src/a"⟩ "../../kit/util/io.js" =
              ofPieces (List.replicate back.length ".." ++ (back ++
                ((Path.mk "/w/src/util").names.drop (Path.mk "/w/src").names.length ++
                  ["io" ++ e])))) :=
  ⟨by decide, resolve_designates (p := ⟨"/w/src/a/b.d.ts"⟩) (q := ⟨"/w/src/util/io.d.ts"⟩)
    (by decide) (by decide) (by decide) (by decide) (by decide) (by decide) (by decide)
    (show _ = some ("io" ++ ".d.ts") by decide) (by decide) (by decide) (by decide) (by decide)⟩

/-- A reference may mean a module without designating its file: through the package name, with two
extensions, and where the file without its suffix would be a dot or two. -/
theorem reference_captured :
    (resolve (ofPath ⟨"/r/a.d.ts"⟩ ⟨"/r"⟩ (some "foo")) "../foo/b" =
        ofPath ⟨"/r/b.d.ts"⟩ ⟨"/r"⟩ (some "foo") ∧
      ((Path.mk "/r").join ⟨"../foo/b"⟩).normalize = ⟨"/foo/b"⟩) ∧
    (resolve (ofPath ⟨"/r/a.d.ts"⟩ ⟨"/r"⟩ none) "./b.ts.js" = ofPath ⟨"/r/b.d.ts"⟩ ⟨"/r"⟩ none ∧
      ((Path.mk "/r").join ⟨"./b.ts.js"⟩).normalize = ⟨"/r/b.ts.js"⟩) ∧
    (resolve (ofPath ⟨"/r/s/a.d.ts"⟩ ⟨"/r"⟩ none) ".." = ofPath ⟨"/r/..d.ts"⟩ ⟨"/r"⟩ none ∧
      ((Path.mk "/r/s").join ⟨".."⟩).normalize = ⟨"/r"⟩) ∧
    (resolve (ofPath ⟨"/r/a.d.ts"⟩ ⟨"/r"⟩ none) ".." = ofPath ⟨"/r/...d.ts"⟩ ⟨"/r"⟩ none ∧
      ((Path.mk "/r").join ⟨".."⟩).normalize = ⟨"/"⟩) := by
  decide

end AmbientBundle.ModuleId

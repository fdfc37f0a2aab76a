import AmbientBundle.Proofs.Descent
import AmbientBundle.Proofs.Designation

/-!
# Two foldings

An identifier is resolved by folding segments, and a path is brought to its normal form by folding
components. From a directory in normal form both keep the same steps: the ones that climb above the
start, and the names that nothing takes back.

* `ups`, `downs`, `height`: what pieces do by number, without folding them.
* `exists_folded`: **what folding leaves, by number.** The steps up that stay are as many as the
  pieces climb at their highest.
* `Stripped`: a text without its longest suffix from a list.
* `resolve_folds`: **an identifier is resolved as a path is brought to its normal form**, extensions
  aside.
-/

open AmbientBundle.Path

namespace AmbientBundle.ModuleId

open Text

/-! ### Steps by number -/

/-- The steps up among pieces. -/
def ups (pieces : List String) : Nat := pieces.count ".."

/-- The names among pieces. -/
def downs (pieces : List String) : Nat := pieces.countP fun s => !isIdle s && s != ".."

/-- **How high pieces climb** above their start: the most that the steps up are ahead of the names, at
the end of any front of the pieces. -/
def height (pieces : List String) : Nat :=
  (List.range (pieces.length + 1)).foldl
    (fun highest i => max highest (ups (pieces.take i) - downs (pieces.take i))) 0

theorem ups_concat (pieces : List String) (s : String) :
    ups (pieces ++ [s]) = ups pieces + if s = ".." then 1 else 0 := by
  unfold ups
  rw [List.count_append, List.count_singleton]
  simp

theorem downs_concat (pieces : List String) (s : String) :
    downs (pieces ++ [s]) = downs pieces + if isIdle s = false ∧ s ≠ ".." then 1 else 0 := by
  unfold downs
  rw [List.countP_append, List.countP_singleton]
  simp

/-- One front more: the pieces as a whole. -/
theorem height_concat (pieces : List String) (s : String) :
    height (pieces ++ [s]) = max (height pieces) (ups (pieces ++ [s]) - downs (pieces ++ [s])) := by
  have hwhole : (pieces ++ [s]).take (pieces.length + 1) = pieces ++ [s] :=
    List.take_of_length_le (by simp)
  unfold height
  rw [List.length_append, List.length_singleton, List.range_succ, List.foldl_append, List.foldl_cons,
    List.foldl_nil, hwhole]
  congr 1
  refine List.foldl_ext _ _ _ fun highest i hi => ?_
  have hle : i ≤ pieces.length := Nat.lt_succ_iff.1 (List.mem_range.1 hi)
  rw [List.take_append_of_le_length hle]

/-- **What folding leaves, by number**: a step up for each that the pieces climb above their start, and
as many names as make up for the rest. -/
theorem exists_folded {pieces : List String} (hslash : ∀ s ∈ pieces, '/' ∉ s.toList) :
    ∃ names, (∀ n ∈ names, IsName n) ∧
      names.length + ups pieces = downs pieces + height pieces ∧
      (pieces.foldl step []).reverse = List.replicate (height pieces) ".." ++ names := by
  induction pieces using List.reverseRecOn with
  | nil => exact ⟨[], by simp, rfl, rfl⟩
  | append_singleton pieces s ih =>
    obtain ⟨names, hnames, hcount, hfold⟩ := ih fun t ht => hslash t (List.mem_append_left _ ht)
    have hups := ups_concat pieces s
    have hdowns := downs_concat pieces s
    have hheight := height_concat pieces s
    rw [List.foldl_append, List.foldl_cons, List.foldl_nil]
    rcases step_cases hfold hnames (hslash s (by simp)) with
      ⟨hidle, hstep⟩ | ⟨rfl, rfl, hstep⟩ | ⟨rfl, front, last, rfl, hstep⟩ | ⟨hname, hstep⟩
    · have hup : s ≠ ".." := by
        rintro rfl
        exact absurd hidle (by decide)
      rw [if_neg hup] at hups
      rw [if_neg (by simp [hidle])] at hdowns
      have hsame : height (pieces ++ [s]) = height pieces := by omega
      exact ⟨names, hnames, by omega, hsame ▸ hstep⟩
    · -- a step up with no name to take back reaches a new height
      rw [if_pos rfl] at hups
      rw [if_neg (by simp)] at hdowns
      rw [List.length_nil] at hcount
      have hhigher : height (pieces ++ [".."]) = height pieces + 1 := by omega
      exact ⟨[], hnames, by rw [List.length_nil]; omega, hhigher ▸ hstep⟩
    · rw [if_pos rfl] at hups
      rw [if_neg (by simp)] at hdowns
      rw [List.length_append, List.length_singleton] at hcount
      have hsame : height (pieces ++ [".."]) = height pieces := by omega
      exact ⟨front, fun n hn => hnames n (List.mem_append_left _ hn), by omega, hsame ▸ hstep⟩
    · rw [if_neg hname.ne_up] at hups
      rw [if_pos ⟨hname.not_idle, hname.ne_up⟩] at hdowns
      have hsame : height (pieces ++ [s]) = height pieces := by omega
      refine ⟨names ++ [s], fun n hn => ?_, ?_, hsame ▸ hstep⟩
      · rcases List.mem_append.1 hn with hn | hn
        · exact hnames n hn
        · rw [List.mem_singleton.1 hn]
          exact hname
      · rw [List.length_append, List.length_singleton]
        omega

/-! ### Suffixes -/

/-- **A text without its longest suffix** from a list; the text itself if it ends with none. -/
inductive Stripped (suffixes : List String) (text : String) : String → Prop
  | kept (h : ∀ e ∈ suffixes, ¬ e.toList <:+ text.toList) : Stripped suffixes text text
  | cut {rest e : String} (he : e ∈ suffixes) (htext : text = rest ++ e)
      (hlongest : ∀ d ∈ suffixes, d.toList <:+ text.toList → d.toList <:+ e.toList) :
      Stripped suffixes text rest

/-- The first suffix that fits is the longest one, if none stands before a longer one that ends with
it. -/
theorem stripFirst_stripped {suffixes : List String}
    (horder : suffixes.Pairwise fun d e => d.toList <:+ e.toList → d = e) (text : String) :
    Stripped suffixes text (stripFirst suffixes text) := by
  unfold stripFirst
  cases hfind : suffixes.findSome? fun e => cutBack? e.toList text.toList with
  | none =>
    exact .kept fun e he => cutBack?_eq_none.1 (List.findSome?_eq_none_iff.1 hfind e he)
  | some rest =>
    obtain ⟨before, e, after, rfl, hcut, hbefore⟩ := List.findSome?_eq_some_iff.1 hfind
    have htext : text.toList = rest ++ e.toList := cutBack?_eq_some.1 hcut
    refine .cut (e := e) (by simp) ?_ fun d hd hsuffix => ?_
    · rw [← String.toList_inj, htext, String.toList_append, String.toList_ofList]
    · -- of two ends of a text, one ends the other
      have hend : e.toList <:+ text.toList := ⟨rest, htext.symm⟩
      rcases List.mem_append.1 hd with hd | hd
      · exact absurd hsuffix (cutBack?_eq_none.1 (hbefore d hd))
      rcases List.mem_cons.1 hd with rfl | hd
      · exact List.suffix_rfl
      rcases List.suffix_or_suffix_of_suffix hsuffix hend with hle | hle
      · exact hle
      · have hlater := List.rel_of_pairwise_cons (List.pairwise_append.1 horder).2.1 hd
        exact hlater hle ▸ List.suffix_rfl

/-! ### The directory of an identifier -/

/-- The text before the last slash of an identifier, as a path. -/
def directoryOf (current : String) : Path :=
  match splitLast? '/' current.toList with
  | some (dir, _) => ⟨String.ofList dir⟩
  | none => ⟨""⟩

/-- **A relative path in normal form**: steps up and then names, or nothing at all. -/
def IsRelativeNormal (p : Path) : Prop := p.text = "" ∨ IsWay p.pieces

/-- **The pieces of a specifier**, after those of the directory it is read from. -/
def route (current specifier : String) : List String :=
  (directoryOf current).pieces ++ (Path.mk specifier).pieces

theorem route_no_slash (current specifier : String) :
    ∀ s ∈ route current specifier, '/' ∉ s.toList := by
  intro s hs
  rcases List.mem_append.1 hs with hs | hs <;> exact mem_pieces_no_slash hs

/-- The segments of a directory are its pieces that are not empty. -/
theorem directory_eq_filter (current : String) :
    directory current = (directoryOf current).pieces.filter (· != "") := by
  unfold directory directoryOf
  cases splitLast? '/' current.toList with
  | none => decide
  | some cut =>
    have hpieces : (Path.mk (String.ofList cut.1)).pieces = (split '/' cut.1).map String.ofList := by
      unfold pieces
      rw [String.toList_ofList]
    dsimp only
    rw [hpieces, List.filter_map]
    congr 2
    funext cs
    cases cs <;> simp

/-- **The directory of an identifier in normal form** is a way, by its segments and by its pieces. -/
theorem directory_way {current : String} (h : IsRelativeNormal (directoryOf current)) :
    IsWay (directory current) ∧ ofPieces (directory current) = directoryOf current ∧
      (directoryOf current).pieces.foldl step [] = (directory current).reverse := by
  rw [directory_eq_filter]
  rcases h with hempty | hway
  · have hpath : directoryOf current = ⟨""⟩ := congrArg Path.mk hempty
    rw [hpath]
    exact ⟨.of_names (by decide), by decide, by decide⟩
  · rw [filter_ne_empty hway.ne_empty]
    exact ⟨hway, ofPieces_pieces _, hway.foldl_self⟩

/-- A specifier is followed along its route. -/
theorem follow_route {current : String} (h : IsRelativeNormal (directoryOf current))
    (specifier : String) :
    follow (directory current) specifier = ((route current specifier).foldl step []).reverse := by
  rw [follow_eq, route, List.foldl_append, (directory_way h).2.2]

/-- **Where a specifier leads as a path**: the normal form of the path that it makes in the directory of
an identifier. -/
def landing (current specifier : String) : Path :=
  ((directoryOf current).join ⟨specifier⟩).normalize

/-- The normal form of a path is where a specifier is followed to. -/
theorem landing_eq {current specifier : String} (h : IsRelativeNormal (directoryOf current))
    (hs : (Path.mk specifier).isAbsolute = false) :
    landing current specifier = if follow (directory current) specifier = [] then ⟨"."⟩
      else ofPieces (follow (directory current) specifier) := by
  obtain ⟨hway, hpath, -⟩ := directory_way h
  unfold landing
  rw [← hpath, normalize_join_relative hway hs]

theorem resolve_eq_strip {current specifier : String} (h : IsRelativeNormal (directoryOf current))
    (hs : (Path.mk specifier).isAbsolute = false) :
    resolve current specifier =
      stripSuffix (stripFirst scriptExtensions (landing current specifier).text) := by
  rw [landing_eq h hs]
  unfold resolve
  split
  · next hnil =>
    rw [if_pos hnil]
    decide
  · next hne =>
    rw [if_neg hne]
    rfl

/-- No extension is taken off a step up. -/
theorem strip_up (dirs : List String) :
    stripSuffix (stripFirst scriptExtensions ("/".intercalate (dirs ++ [".."]))) =
      "/".intercalate (dirs ++ [".."]) := by
  obtain ⟨last, e, he, hup, hstrip⟩ := strip_segments dirs ".."
  rcases eq_or_ne last ".." with rfl | hlast
  · exact hstrip
  · exact absurd hup.symm (ending_ne_up hlast he)

/-- **The normal form by number**: a dot where everything cancels, and else the steps up that climb
above the start, and names. -/
theorem exists_landing {current specifier : String} (h : IsRelativeNormal (directoryOf current))
    (hs : (Path.mk specifier).isAbsolute = false) :
    ∃ names, (∀ n ∈ names, IsName n) ∧
      names.length + ups (route current specifier) =
        downs (route current specifier) + height (route current specifier) ∧
      landing current specifier =
        if height (route current specifier) = 0 ∧
          ups (route current specifier) = downs (route current specifier) then ⟨"."⟩
        else ofPieces (List.replicate (height (route current specifier)) ".." ++ names) := by
  obtain ⟨names, hnames, hcount, hfold⟩ := exists_folded (route_no_slash current specifier)
  have hcancels : follow (directory current) specifier = [] ↔
      height (route current specifier) = 0 ∧
        ups (route current specifier) = downs (route current specifier) := by
    rw [follow_route h, hfold, List.append_eq_nil_iff, List.replicate_eq_nil_iff,
      ← List.length_eq_zero_iff]
    omega
  refine ⟨names, hnames, hcount, ?_⟩
  rw [landing_eq h hs, if_congr hcancels rfl rfl, follow_route h, hfold]

/-- **An identifier is resolved as a path is brought to its normal form.** From a directory in normal
form, a specifier that does not start at the root means the normal form of the path that it makes there,
without at most one script extension and then at most one module suffix, the longest that fits. Where
everything cancels, both are a dot. Otherwise both keep a step up for each that the route climbs above
its start, and the same names after them, up to the extensions of the last one. -/
theorem resolve_folds {current specifier : String} (h : IsRelativeNormal (directoryOf current))
    (hs : (Path.mk specifier).isAbsolute = false) :
    (∃ stem, Stripped scriptExtensions (landing current specifier).text stem ∧
      Stripped moduleSuffixes stem (resolve current specifier)) ∧
    ∃ names, (∀ n ∈ names, IsName n) ∧
      names.length + ups (route current specifier) =
        downs (route current specifier) + height (route current specifier) ∧
      landing current specifier =
        (if height (route current specifier) = 0 ∧
          ups (route current specifier) = downs (route current specifier) then ⟨"."⟩
        else ofPieces (List.replicate (height (route current specifier)) ".." ++ names)) ∧
      (names = [] → resolve current specifier = (landing current specifier).text) ∧
      ∀ dirs file, names = dirs ++ [file] → ∃ last, ∃ e ∈ endings, file = last ++ e ∧
        resolve current specifier = "/".intercalate
          (List.replicate (height (route current specifier)) ".." ++ dirs ++ [last]) := by
  have hresolve := resolve_eq_strip h hs
  obtain ⟨names, hnames, hcount, hlanding⟩ := exists_landing h hs
  refine ⟨⟨_, stripFirst_stripped (by decide) _, ?_⟩, names, hnames, hcount, hlanding, ?_, ?_⟩
  · rw [hresolve]
    exact stripFirst_stripped (by decide) _
  · rintro rfl
    rw [hresolve, hlanding]
    split
    · decide
    · next hclimbs =>
      -- without names, there are only steps up
      rw [List.length_nil] at hcount
      obtain ⟨k, hk⟩ := Nat.exists_eq_succ_of_ne_zero
        (n := height (route current specifier)) (by omega)
      rw [hk, List.append_nil, List.replicate_succ']
      exact strip_up _
  · rintro dirs file rfl
    rw [List.length_append, List.length_singleton] at hcount
    obtain ⟨last, e, he, hfile, hstrip⟩ :=
      strip_segments (List.replicate (height (route current specifier)) ".." ++ dirs) file
    refine ⟨last, e, he, hfile, ?_⟩
    rw [hresolve, hlanding, if_neg (by omega), ofPieces, ← List.append_assoc]
    dsimp only
    exact hstrip

/-- A route through idle pieces, from a directory that is itself above the start: of three steps up two
take back names, and both extensions of the file are dropped. -/
theorem resolve_folds_climbing :
    IsRelativeNormal (directoryOf "../a/m") ∧
    (Path.mk "./b//../../../c/./d.d.ts.js/").isAbsolute = false ∧
    resolve "../a/m" "./b//../../../c/./d.d.ts.js/" = "../../c/d" ∧
    landing "../a/m" "./b//../../../c/./d.d.ts.js/" = ⟨"../../c/d.d.ts.js"⟩ ∧
    height (route "../a/m" "./b//../../../c/./d.d.ts.js/") = 2 ∧
    ∃ stem, Stripped scriptExtensions (landing "../a/m" "./b//../../../c/./d.d.ts.js/").text stem ∧
      Stripped moduleSuffixes stem (resolve "../a/m" "./b//../../../c/./d.d.ts.js/") := by
  have hdir : IsRelativeNormal (directoryOf "../a/m") := .inr ⟨1, ["a"], by decide, by decide⟩
  have hs : (Path.mk "./b//../../../c/./d.d.ts.js/").isAbsolute = false := by decide
  exact ⟨hdir, hs, by decide +kernel, by decide +kernel, by decide +kernel, (resolve_folds hdir hs).1⟩

end AmbientBundle.ModuleId

import AmbientBundle.Path.Declaration
import AmbientBundle.Proofs.Paths
import AmbientBundle.Resolver

/-!
# Relative references

A file refers to another by a path from its own directory. The identifier that such a reference
means is computed from the identifier of the file it stands in, and never from paths; it is the
identifier of the block of the other file all the same.

* `ofPath_names`: the identifier of a file, by segments.
* `follow_specifier`: where a specifier leads, by segments.
* `strip_extension`: one extension is taken off an identifier, whichever it is.
* `resolve_relativeSpecifier`: **a relative reference means the block of the file it leads to.**
-/

open AmbientBundle.Path

namespace AmbientBundle.ModuleId

open Text

/-! ### Specifiers -/

/-- The way up through directories; a dot where there is none. -/
def wayUp (here : List String) : List String :=
  if here.isEmpty then ["."] else here.map fun _ => ".."

/-- The specifier that leads from one directory to a module in another: up to where their ways
part, and down from there. -/
def specifierTo (target : String) : List String → List String → String
  | a :: here, b :: there =>
    if a = b then specifierTo target here there
    else "/".intercalate (wayUp (a :: here) ++ (b :: there ++ [target]))
  | here, there => "/".intercalate (wayUp here ++ (there ++ [target]))

/-- **The relative specifier** that leads from a file to a module in the directory of another. -/
def relativeSpecifier (p q : Path) (target : String) : String :=
  specifierTo target p.names.dropLast q.names.dropLast

/-- The extensions that a reference may carry. -/
def referenceExtensions : List String :=
  [".js", ".jsx", ".mjs", ".cjs", ".ts", ".tsx", ".mts", ".cts", ".d.ts", ".d.mts", ".d.cts"]

/-- **A package name** by its segments: none without a name, and trailing slashes do not count. -/
def NameSegments (name : Option String) (front : List String) : Prop :=
  (nonEmpty name = none ∧ front = []) ∨
    ∃ n, name = some n ∧ front ≠ [] ∧ (∀ s ∈ front, s ≠ "" ∧ '/' ∉ s.toList) ∧
      dropTrailing '/' n.toList = ("/".intercalate front).toList

/-- A specifier goes up from where two directories part, and down again. -/
theorem specifierTo_eq (target : String) : ∀ here there : List String,
    ∃ common up down, here = common ++ up ∧ there = common ++ down ∧
      specifierTo target here there = "/".intercalate (wayUp up ++ (down ++ [target])) := by
  intro here there
  induction here generalizing there with
  | nil => exact ⟨[], [], there, rfl, rfl, by simp [specifierTo]⟩
  | cons a here ih =>
    cases there with
    | nil => exact ⟨[], a :: here, [], rfl, rfl, by simp [specifierTo]⟩
    | cons b there =>
      by_cases h : a = b
      · subst h
        obtain ⟨common, up, down, rfl, rfl, heq⟩ := ih there
        exact ⟨a :: common, up, down, rfl, rfl, by rw [specifierTo, if_pos rfl, heq]⟩
      · exact ⟨[], a :: here, b :: there, rfl, rfl, by rw [specifierTo, if_neg h]⟩

/-- What two directories have in common does not matter. -/
theorem specifierTo_append (target : String) (common here there : List String) :
    specifierTo target (common ++ here) (common ++ there) = specifierTo target here there := by
  induction common with
  | nil => rfl
  | cons c common ih => rw [List.cons_append, List.cons_append, specifierTo, if_pos rfl, ih]

/-- A specifier starts with a dot. -/
theorem head?_specifierTo (target : String) (here there : List String) (e : String) :
    (specifierTo target here there ++ e).toList.head? = some '.' := by
  obtain ⟨common, up, down, -, -, heq⟩ := specifierTo_eq target here there
  have hdot : ∃ w rest, wayUp up = w :: rest ∧ ∃ cs, w.toList = '.' :: cs := by
    cases up with
    | nil => exact ⟨".", [], rfl, [], rfl⟩
    | cons u up => exact ⟨"..", up.map fun _ => "..", rfl, ['.'], rfl⟩
  obtain ⟨w, rest, hw, cs, hcs⟩ := hdot
  rw [heq, hw, List.cons_append, String.intercalate_cons_of_ne_nil (by simp)]
  simp [hcs]

/-! ### Following a specifier -/

theorem step_name {done : List String} {n : String} (h : IsName n) : step done n = n :: done := by
  simp [step, h.ne_empty, h.ne_here, h.ne_up]

theorem foldl_step_names {ns : List String} (h : ∀ n ∈ ns, IsName n) (done : List String) :
    ns.foldl step done = ns.reverse ++ done := by
  induction ns generalizing done with
  | nil => rfl
  | cons n ns ih =>
    rw [List.foldl_cons, step_name (h n List.mem_cons_self),
      ih fun m hm => h m (List.mem_cons_of_mem _ hm)]
    simp

/-- Going up takes back as many names. -/
theorem foldl_step_wayUp {up : List String} (h : ∀ n ∈ up, IsName n) (done : List String) :
    (wayUp up).foldl step (up.reverse ++ done) = done := by
  have hback : ∀ (ms : List String), (∀ n ∈ ms, IsName n) →
      (ms.map fun _ => "..").foldl step (ms ++ done) = done := by
    intro ms hms
    induction ms with
    | nil => rfl
    | cons m ms ih =>
      have hm := (hms m List.mem_cons_self).ne_up
      rw [List.map_cons, List.foldl_cons, List.cons_append,
        show step (m :: (ms ++ done)) ".." = ms ++ done by simp [step, hm]]
      exact ih fun n hn => hms n (List.mem_cons_of_mem _ hn)
  unfold wayUp
  by_cases hup : up = []
  · subst hup; rfl
  · rw [if_neg (by simpa using hup)]
    have := hback up.reverse fun n hn => h n (List.mem_reverse.1 hn)
    rwa [show up.reverse.map (fun _ => "..") = up.map fun _ => ".." by
      simp [List.map_const']] at this

theorem no_slash_wayUp (up : List String) : ∀ s ∈ wayUp up, '/' ∉ s.toList := by
  intro s hs
  unfold wayUp at hs
  split at hs
  · rw [List.mem_singleton] at hs; subst hs; decide
  · obtain ⟨_, _, rfl⟩ := List.mem_map.1 hs; decide

/-- **Where a specifier leads**, by segments. -/
theorem follow_specifier {front up down : List String} {last : String}
    (hup : ∀ n ∈ up, IsName n) (hdown : ∀ n ∈ down ++ [last], IsName n) :
    follow (front ++ up) ("/".intercalate (wayUp up ++ (down ++ [last]))) =
      front ++ (down ++ [last]) := by
  have hslash : ∀ s ∈ wayUp up ++ (down ++ [last]), '/' ∉ s.toList := by
    intro s hs
    rcases List.mem_append.1 hs with hs | hs
    · exact no_slash_wayUp up s hs
    · exact (hdown s hs).no_slash
  unfold follow
  rw [pieces_intercalate (by simp) hslash, List.foldl_append, List.reverse_append,
    foldl_step_wayUp hup, foldl_step_names hdown]
  simp

/-! ### Extensions -/

/-- What holds no slash ends joined segments just if it ends the last of them. -/
theorem suffix_intercalate {e : List Char} (he : '/' ∉ e) (segments : List String) (last : String) :
    e <:+ ("/".intercalate (segments ++ [last])).toList ↔ e <:+ last.toList := by
  by_cases hs : segments = []
  · simp [hs]
  · rw [String.intercalate_append_of_ne_nil hs (by simp), String.intercalate_singleton]
    rw [String.toList_append, String.toList_append, List.append_assoc]
    constructor
    · intro h
      have hback : '/' :: last.toList <:+ ("/".intercalate segments).toList ++ ("/".toList ++ last.toList) :=
        List.suffix_append _ _
      rcases List.suffix_or_suffix_of_suffix h hback with h | h
      · rcases List.suffix_cons_iff.1 h with rfl | h
        · exact absurd List.mem_cons_self he
        · exact h
      · exact absurd (h.subset List.mem_cons_self) he
    · intro h
      exact h.trans ((List.suffix_append _ _).trans (List.suffix_append _ _))

theorem stripFirst_of_not_suffix {suffixes : List String} {text : String}
    (h : ∀ e ∈ suffixes, ¬ e.toList <:+ text.toList) : stripFirst suffixes text = text := by
  have hnone : suffixes.findSome? (fun e => cutBack? e.toList text.toList) = none :=
    List.findSome?_eq_none_iff.2 fun e he => cutBack?_eq_none.2 (h e he)
  unfold stripFirst
  rw [hnone]

/-- A suffix is taken off if none of those before it in the list ends the text too. -/
theorem stripFirst_of_mem {suffixes : List String} {e text : String} (he : e ∈ suffixes)
    (h : ∀ d ∈ suffixes.takeWhile (· != e), ¬ d.toList <:+ (text ++ e).toList) :
    stripFirst suffixes (text ++ e) = text := by
  obtain ⟨before, after, rfl, hmem⟩ := List.eq_append_cons_of_mem he
  have hbefore : (before ++ e :: after).takeWhile (· != e) = before := by
    have hne : ∀ d ∈ before, (d != e) = true := by
      intro d hd
      have : d ≠ e := fun hde => hmem (hde ▸ hd)
      simpa using this
    rw [List.takeWhile_append_of_pos hne]
    simp
  rw [hbefore] at h
  have hnone : before.findSome? (fun d => cutBack? d.toList (text ++ e).toList) = none :=
    List.findSome?_eq_none_iff.2 fun d hd => cutBack?_eq_none.2 (h d hd)
  have hcut : cutBack? e.toList (text ++ e).toList = some text.toList :=
    cutBack?_eq_some.2 String.toList_append
  unfold stripFirst
  rw [List.findSome?_append, hnone, List.findSome?_cons_of_isSome (by rw [hcut]; rfl), hcut]
  simp

/-- A suffix of an extended text ends the extension, or extends it by an end of the text. -/
theorem suffix_append_cases {d e text : List Char} (h : d <:+ text ++ e) :
    d <:+ e ∨ ∃ r, d = r ++ e ∧ r <:+ text := by
  rcases List.suffix_or_suffix_of_suffix h (List.suffix_append text e) with h' | ⟨r, rfl⟩
  · exact Or.inl h'
  · exact Or.inr ⟨r, rfl, List.suffix_append_self_iff.1 h⟩

/-- Texts that no extension can be taken off, and that do not end in `.d` either. -/
def HasNoExtension (text : String) : Prop :=
  ∀ e ∈ ".d" :: (moduleSuffixes ++ scriptExtensions), ¬ e.toList <:+ text.toList

/-- An extension `d` is not at the end of a text without extensions that `e` has been added to,
unless `e` itself ends with it. -/
theorem HasNoExtension.not_suffix {text d e : String} (h : HasNoExtension text)
    (hd : ¬ d.toList <:+ e.toList) (he : ¬ e.toList <:+ d.toList ∨ d = ".d" ++ e) :
    ¬ d.toList <:+ (text ++ e).toList := by
  intro hsuffix
  rw [String.toList_append] at hsuffix
  rcases suffix_append_cases hsuffix with hde | ⟨r, hr, htext⟩
  · exact hd hde
  · rcases he with he | rfl
    · exact he ⟨r, hr.symm⟩
    · rw [String.toList_append, List.append_cancel_right_eq] at hr
      exact h ".d" List.mem_cons_self (hr ▸ htext)

theorem HasNoExtension.intercalate {target : String} (h : HasNoExtension target)
    (segments : List String) : HasNoExtension ("/".intercalate (segments ++ [target])) := by
  intro e he hsuffix
  have hslash : ∀ e ∈ ".d" :: (moduleSuffixes ++ scriptExtensions), '/' ∉ e.toList := by decide
  exact h e he ((suffix_intercalate (hslash e he) segments target).1 hsuffix)

theorem HasNoExtension.stripSuffix_self {text : String} (h : HasNoExtension text) :
    stripSuffix text = text :=
  stripFirst_of_not_suffix fun e he => h e (List.mem_cons_of_mem _ (List.mem_append_left _ he))

theorem HasNoExtension.stripSuffix_append {text e : String} (h : HasNoExtension text)
    (he : e ∈ moduleSuffixes) : stripSuffix (text ++ e) = text := by
  have hpairs : ∀ e ∈ moduleSuffixes, ∀ d ∈ moduleSuffixes.takeWhile (· != e),
      ¬ d.toList <:+ e.toList ∧ (¬ e.toList <:+ d.toList ∨ d = ".d" ++ e) := by decide
  refine stripFirst_of_mem he fun d hd => ?_
  obtain ⟨h1, h2⟩ := hpairs e he d hd
  exact h.not_suffix h1 h2

/-- **One extension is taken off**, whichever a reference carries. -/
theorem HasNoExtension.strip_extension {text e : String} (h : HasNoExtension text)
    (he : e = "" ∨ e ∈ referenceExtensions) :
    stripSuffix (stripFirst scriptExtensions (text ++ e)) = text := by
  have hkinds : ∀ e ∈ referenceExtensions, e ∈ scriptExtensions ∨ e ∈ moduleSuffixes := by decide
  have hscripts : ∀ e ∈ scriptExtensions, ∀ d ∈ scriptExtensions.takeWhile (· != e),
      ¬ d.toList <:+ e.toList ∧ (¬ e.toList <:+ d.toList ∨ d = ".d" ++ e) := by decide
  have hmixed : ∀ e ∈ moduleSuffixes, ∀ d ∈ scriptExtensions,
      ¬ d.toList <:+ e.toList ∧ (¬ e.toList <:+ d.toList ∨ d = ".d" ++ e) := by decide
  have hplain : stripFirst scriptExtensions text = text :=
    stripFirst_of_not_suffix fun d hd => h d (List.mem_cons_of_mem _ (List.mem_append_right _ hd))
  rcases he with rfl | he
  · rw [String.append_empty, hplain, h.stripSuffix_self]
  rcases hkinds e he with hs | hm
  · rw [stripFirst_of_mem hs fun d hd => h.not_suffix (hscripts e hs d hd).1 (hscripts e hs d hd).2,
      h.stripSuffix_self]
  · rw [stripFirst_of_not_suffix fun d hd => h.not_suffix (hmixed e hm d hd).1 (hmixed e hm d hd).2,
      h.stripSuffix_append hm]

/-! ### Identifiers of files -/

theorem intercalate_append_text (segments : List String) (last e : String) :
    "/".intercalate (segments ++ [last ++ e]) = "/".intercalate (segments ++ [last]) ++ e := by
  by_cases hs : segments = []
  · simp [hs]
  · rw [String.intercalate_append_of_ne_nil hs (by simp),
      String.intercalate_append_of_ne_nil hs (by simp)]
    simp [String.append_assoc]

/-- At most one of the suffixes is taken off, and it is taken off the last segment. -/
theorem stripFirst_segments {suffixes : List String} (hslash : ∀ e ∈ suffixes, '/' ∉ e.toList)
    (dirs : List String) (file : String) :
    ∃ last, ∃ e ∈ "" :: suffixes, file = last ++ e ∧
      stripFirst suffixes ("/".intercalate (dirs ++ [file])) = "/".intercalate (dirs ++ [last]) := by
  unfold stripFirst
  split
  · next rest hrest =>
    obtain ⟨e, he, hcut⟩ := List.exists_of_findSome?_eq_some hrest
    have htext := cutBack?_eq_some.1 hcut
    obtain ⟨last, hlast⟩ := (suffix_intercalate (hslash e he) dirs file).1 ⟨rest, htext.symm⟩
    have hadd : file = String.ofList last ++ e := by
      rw [← String.toList_inj, String.toList_append, String.toList_ofList, hlast]
    refine ⟨String.ofList last, e, List.mem_cons_of_mem _ he, hadd, ?_⟩
    -- both texts give the joined one when the suffix is added again
    rw [← String.toList_inj, String.toList_ofList, ← List.append_left_inj e.toList, ← htext, hadd,
      intercalate_append_text, String.toList_append]
  · exact ⟨file, "", List.mem_cons_self, String.append_empty.symm, rfl⟩

/-- The suffix of a file is taken off its name, and the directories stay. -/
theorem stripSuffix_segments (dirs : List String) {file : String} (hfile : '/' ∉ file.toList) :
    ∃ last, '/' ∉ last.toList ∧
      stripSuffix ("/".intercalate (dirs ++ [file])) = "/".intercalate (dirs ++ [last]) := by
  have hslash : ∀ e ∈ moduleSuffixes, '/' ∉ e.toList := by decide
  obtain ⟨last, e, -, rfl, hstrip⟩ := stripFirst_segments hslash dirs file
  refine ⟨last, fun hmem => hfile ?_, hstrip⟩
  rw [String.toList_append]
  exact List.mem_append_left _ hmem

/-- No slash leads joined names. -/
theorem dropLeading_segments {dirs : List String} (hdirs : ∀ n ∈ dirs, IsName n) {last : String}
    (hlast : '/' ∉ last.toList) :
    dropLeading '/' ("/".intercalate (dirs ++ [last])).toList =
      ("/".intercalate (dirs ++ [last])).toList := by
  have hkeep : ∀ cs : List Char, cs.head? ≠ some '/' → dropLeading '/' cs = cs := by
    intro cs h
    cases cs with
    | nil => rfl
    | cons c cs => exact List.dropWhile_cons_of_neg (by simpa using h)
  refine hkeep _ ?_
  cases dirs with
  | nil =>
    rw [List.nil_append, String.intercalate_singleton]
    exact fun h => hlast (List.mem_of_head? h)
  | cons d dirs =>
    have hd := hdirs d List.mem_cons_self
    rw [List.cons_append, String.intercalate_cons_of_ne_nil (by simp), String.toList_append,
      String.toList_append, List.append_assoc, List.head?_append_of_ne_nil _ hd.toList_ne_nil]
    exact fun h => hd.no_slash (List.mem_of_head? h)

/-- **The identifier of a file**, by segments: those of the name, the directories, and the file
without its suffix. -/
theorem ofPath_names {rs dirs front : List String} {file last : String} {name : Option String}
    (h : ∀ n ∈ rs ++ (dirs ++ [file]), IsName n) (hname : NameSegments name front)
    (hlast : '/' ∉ last.toList)
    (hstrip : stripSuffix ("/".intercalate (dirs ++ [file])) = "/".intercalate (dirs ++ [last])) :
    ofPath (ofNames (rs ++ (dirs ++ [file]))) (ofNames rs) name =
      "/".intercalate (front ++ (dirs ++ [last])) := by
  have hdirs : ∀ n ∈ dirs, IsName n := fun n hn => h n (by simp [hn])
  unfold ofPath
  rw [relativeTo?_ofNames (by simp) h]
  simp only [Option.getD_some, hstrip, dropLeading_segments hdirs hlast, String.ofList_toList]
  rcases hname with ⟨hnone, rfl⟩ | ⟨n, rfl, hne, hfront, htrim⟩
  · split
    · rfl
    · rfl
    · next n hn => exact absurd (by simpa [nonEmpty] using hnone) hn
  · split
    · next hn => simp at hn
    · next hn =>
      -- an empty name has no segments
      obtain rfl : n = "" := Option.some.inj hn
      cases front with
      | nil => exact absurd rfl hne
      | cons s front =>
        have hs := (hfront s List.mem_cons_self).1
        cases front <;> simp_all [dropTrailing]
    · next m _ hm =>
      obtain rfl : n = m := Option.some.inj hm
      rw [htrim, String.ofList_toList, String.intercalate_append_of_ne_nil hne (by simp)]

/-- **The directory of an identifier**, by segments. -/
theorem directory_segments {segments : List String} {last : String}
    (h : ∀ s ∈ segments, s ≠ "" ∧ '/' ∉ s.toList) (hlast : '/' ∉ last.toList) :
    directory ("/".intercalate (segments ++ [last])) = segments := by
  unfold directory
  by_cases hs : segments = []
  · subst hs
    rw [List.nil_append, String.intercalate_singleton, splitLast?_eq_none hlast]
  · have htext : ("/".intercalate (segments ++ [last])).toList =
        ("/".intercalate segments).toList ++ '/' :: last.toList := by
      rw [String.intercalate_append_of_ne_nil hs (by simp)]
      simp
    have hpieces : split '/' ("/".intercalate segments).toList = segments.map String.toList := by
      have := congrArg (List.map String.toList) (pieces_intercalate hs fun s hs => (h s hs).2)
      simpa [Function.comp_def] using this
    rw [htext, splitLast?_append _ hlast]
    simp only [hpieces]
    rw [List.filter_eq_self.2]
    · simp [Function.comp_def]
    · intro w hw
      obtain ⟨s, hs, rfl⟩ := List.mem_map.1 hw
      simpa using (h s hs).1

/-! ### References -/

theorem NameSegments.no_empty {name : Option String} {front : List String}
    (h : NameSegments name front) : ∀ s ∈ front, s ≠ "" ∧ '/' ∉ s.toList := by
  rcases h with ⟨-, rfl⟩ | ⟨-, -, -, h, -⟩
  · simp
  · exact h

theorem isName_append_extension {target e : String} (h : IsName target)
    (he : e = "" ∨ e ∈ referenceExtensions) : IsName (target ++ e) := by
  have hchars : ∀ e ∈ referenceExtensions, 2 < e.length ∧ '/' ∉ e.toList := by decide
  rcases he with rfl | he
  · rwa [String.append_empty]
  · obtain ⟨hlen, hslash⟩ := hchars e he
    exact isName_append h.no_slash hslash hlen

/-- The identifier that a relative specifier means is that of the file it leads to. -/
theorem resolve_specifierTo {front here there : List String} {last target e : String}
    (hfront : ∀ s ∈ front, s ≠ "" ∧ '/' ∉ s.toList) (hhere : ∀ n ∈ here, IsName n)
    (hthere : ∀ n ∈ there, IsName n) (hlast : '/' ∉ last.toList) (htarget : IsName target)
    (hplain : HasNoExtension target) (he : e = "" ∨ e ∈ referenceExtensions) :
    resolve ("/".intercalate (front ++ (here ++ [last]))) (specifierTo target here there ++ e) =
      "/".intercalate (front ++ (there ++ [target])) := by
  obtain ⟨common, up, down, rfl, rfl, hspec⟩ := specifierTo_eq target here there
  have hdirs : ∀ s ∈ front ++ (common ++ up), s ≠ "" ∧ '/' ∉ s.toList := by
    intro s hs
    rcases List.mem_append.1 hs with hs | hs
    · exact hfront s hs
    · exact ⟨(hhere s hs).ne_empty, (hhere s hs).no_slash⟩
  have hdown : ∀ n ∈ down ++ [target ++ e], IsName n := by
    intro n hn
    rcases List.mem_append.1 hn with hn | hn
    · exact hthere n (List.mem_append_right _ hn)
    · rw [List.mem_singleton] at hn; rw [hn]; exact isName_append_extension htarget he
  have hdir : directory ("/".intercalate (front ++ (common ++ up ++ [last]))) =
      front ++ common ++ up := by
    rw [← List.append_assoc, directory_segments hdirs hlast, List.append_assoc]
  have htext : specifierTo target (common ++ up) (common ++ down) ++ e =
      "/".intercalate (wayUp up ++ (down ++ [target ++ e])) := by
    rw [hspec, ← List.append_assoc (wayUp up), ← List.append_assoc (wayUp up),
      intercalate_append_text]
  have hfollow : follow (front ++ common ++ up) ("/".intercalate (wayUp up ++ (down ++ [target ++ e]))) =
      front ++ common ++ (down ++ [target ++ e]) :=
    follow_specifier (fun n hn => hhere n (List.mem_append_right _ hn)) hdown
  unfold resolve
  rw [hdir, htext, hfollow, ← List.append_assoc (front ++ common)]
  split
  · next hnil => simp at hnil
  · rw [intercalate_append_text, (hplain.intercalate _).strip_extension he]
    simp only [List.append_assoc]

/-- The same for the identifiers of two files below a root. -/
theorem resolve_ofPath {rs here there front : List String} {file target suffix e : String}
    {name : Option String} (hp : ∀ n ∈ rs ++ (here ++ [file]), IsName n)
    (hq : ∀ n ∈ rs ++ (there ++ [target ++ suffix]), IsName n) (hname : NameSegments name front)
    (hsuffix : suffix ∈ declarationSuffixes) (htarget : target ∉ ["", ".", ".."])
    (hplain : HasNoExtension target) (he : e = "" ∨ e ∈ referenceExtensions) :
    resolve (ofPath (ofNames (rs ++ (here ++ [file]))) (ofNames rs) name)
        (specifierTo target here there ++ e) =
      ofPath (ofNames (rs ++ (there ++ [target ++ suffix]))) (ofNames rs) name := by
  have hfile : '/' ∉ file.toList := (hp file (by simp)).no_slash
  have hslash : '/' ∉ target.toList := fun hmem =>
    (hq (target ++ suffix) (by simp)).no_slash
      (by rw [String.toList_append]; exact List.mem_append_left _ hmem)
  have hisName : IsName target := by
    simp only [List.mem_cons, List.not_mem_nil, or_false, not_or] at htarget
    exact ⟨htarget.1, htarget.2.1, htarget.2.2, hslash⟩
  have hmodule : suffix ∈ moduleSuffixes := by
    have : ∀ s ∈ declarationSuffixes, s ∈ moduleSuffixes := by decide
    exact this suffix hsuffix
  obtain ⟨stem, hstem, hstrip⟩ := stripSuffix_segments here hfile
  have hstrip_q : stripSuffix ("/".intercalate (there ++ [target ++ suffix])) =
      "/".intercalate (there ++ [target]) := by
    rw [intercalate_append_text, (hplain.intercalate there).stripSuffix_append hmodule]
  rw [ofPath_names hp hname hstem hstrip, ofPath_names hq hname hslash hstrip_q]
  exact resolve_specifierTo hname.no_empty (fun n hn => hp n (by simp [hn]))
    (fun n hn => hq n (by simp [hn])) hstem hisName hplain he

/-- Without a hook, a relative specifier that names no ambient module means an identifier after the
prefix. -/
theorem resolve_undeclared {declared : List String} {idPrefix : Option String}
    {specifier current : String} (hdot : specifier.toList.head? = some '.')
    (h : specifier ∉ declared) :
    (Resolver.mk declared idPrefix none).resolve specifier current =
      some (withIdPrefix idPrefix (resolve current specifier)) := by
  have hplain : (Resolver.mk declared idPrefix none).resolvePlain specifier current =
      some (withIdPrefix idPrefix (resolve current specifier)) := by
    simp [Resolver.resolvePlain, hdot, h]
  exact hplain

/-- **A relative reference means the block of the file it leads to.** The reference stands in the
file `p`, leads to the file `q` without its suffix, and may carry any extension. -/
theorem resolve_relativeSpecifier {root p q : Path} {name idPrefix : Option String}
    {front declared : List String} {target suffix e : String} (hroot : root.IsNormal)
    (hp : p.IsNormal) (hq : q.IsNormal) (hpr : p.IsBelow root) (hqr : q.IsBelow root)
    (hname : NameSegments name front) (hfile : q.fileName? = some (target ++ suffix))
    (hsuffix : suffix ∈ declarationSuffixes) (htarget : target ∉ ["", ".", ".."])
    (hplain : HasNoExtension target) (he : e = "" ∨ e ∈ referenceExtensions)
    (hdeclared : relativeSpecifier p q target ++ e ∉ declared) :
    (Resolver.mk declared idPrefix none).resolve (relativeSpecifier p q target ++ e)
        (ofPath p root name) =
      some (blockId ⟨q, ofPath q root none, ofPath q root name⟩ none idPrefix) := by
  -- both files are lists of names below the names of the root
  obtain ⟨rs, ps, hps, hpn, rfl, rfl⟩ := hpr.exists_names hp hroot
  obtain ⟨rs', qs, hqs, hqn, hrs, rfl⟩ := hqr.exists_names hq hroot
  obtain rfl : rs = rs' := by
    have := congrArg names hrs
    rwa [names_ofNames fun n hn => hpn n (List.mem_append_left _ hn),
      names_ofNames fun n hn => hqn n (List.mem_append_left _ hn)] at this
  obtain ⟨here, file, rfl⟩ : ∃ here file, ps = here ++ [file] :=
    ⟨_, _, (List.dropLast_append_getLast hps).symm⟩
  obtain ⟨there, last, rfl⟩ : ∃ there last, qs = there ++ [last] :=
    ⟨_, _, (List.dropLast_append_getLast hqs).symm⟩
  obtain rfl : last = target ++ suffix := by
    rw [← List.append_assoc, fileName?_ofNames (by rwa [List.append_assoc])] at hfile
    exact Option.some.inj hfile
  -- the names of the root are common to both, so the way between the files leaves them out
  have hspec : relativeSpecifier (ofNames (rs ++ (here ++ [file])))
      (ofNames (rs ++ (there ++ [target ++ suffix]))) target = specifierTo target here there := by
    unfold relativeSpecifier
    rw [names_ofNames hpn, names_ofNames hqn, ← List.append_assoc, ← List.append_assoc,
      List.dropLast_concat, List.dropLast_concat, specifierTo_append]
  rw [hspec] at hdeclared ⊢
  rw [resolve_undeclared (head?_specifierTo target here there e) hdeclared,
    resolve_ofPath hpn hqn hname hsuffix htarget hplain he]
  rfl

/-- `../../util/io.mjs` in the file `a/b/c.d.ts` of a package. -/
theorem resolve_relativeSpecifier_across :
    relativeSpecifier ⟨"/w/src/a/b/c.d.ts"⟩ ⟨"/w/src/util/io.d.mts"⟩ "io" ++ ".mjs" =
        "../../util/io.mjs" ∧
      (Resolver.mk ["fs"] (some "lib") none).resolve
          (relativeSpecifier ⟨"/w/src/a/b/c.d.ts"⟩ ⟨"/w/src/util/io.d.mts"⟩ "io" ++ ".mjs")
          (ofPath ⟨"/w/src/a/b/c.d.ts"⟩ ⟨"/w/src"⟩ (some "acme/kit/")) =
        some (blockId ⟨⟨"/w/src/util/io.d.mts"⟩, ofPath ⟨"/w/src/util/io.d.mts"⟩ ⟨"/w/src"⟩ none,
          ofPath ⟨"/w/src/util/io.d.mts"⟩ ⟨"/w/src"⟩ (some "acme/kit/")⟩ none (some "lib")) := by
  have hname : NameSegments (some "acme/kit/") ["acme", "kit"] :=
    Or.inr ⟨_, rfl, by decide, by decide, by decide⟩
  have hfile : fileName? ⟨"/w/src/util/io.d.mts"⟩ = some ("io" ++ ".d.mts") := by decide
  have hplain : HasNoExtension "io" := by unfold HasNoExtension; decide
  exact ⟨by decide, resolve_relativeSpecifier (by decide) (by decide) (by decide) (by decide)
    (by decide) hname hfile (by decide) (by decide) hplain (Or.inr (by decide)) (by decide)⟩

end AmbientBundle.ModuleId

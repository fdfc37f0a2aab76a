import AmbientBundle.Project.Inputs
import AmbientBundle.Proofs.Descent
import AmbientBundle.Proofs.GlobReading
import AmbientBundle.Proofs.Globs

/-!
# What the patterns of a project match

Each pattern is read together with what it stands for. A pattern that leaves a path out leaves out
all that is below the path. A pattern that names a directory by plain names takes in all that is
below the directory; a dot, which names the directory that the patterns are seen from, takes in
nothing.

* `anyMatch_iff`: **which paths the patterns match.**
* `anyMatch_below`: **what is left out is left out with all that is below it.**
* `NamesPlainly`, `anyMatch_of_namesPlainly`: **a directory that is named by plain names.**
* `IsHere`, `not_isMatch_of_isHere`: a dot matches no path that goes down.
-/

open AmbientBundle.Path

namespace AmbientBundle.Project

open Text Glob

variable {use : PatternUse} {patterns : List String} {globs : List Glob} {path : Path}

/-! ### Reading -/

/-- The patterns that are matched: those that the given ones stand for. -/
theorem mem_readPatterns (h : readPatterns use patterns = .ok globs) {g : Glob} :
    g ∈ globs ↔
      ∃ p ∈ patterns, ∃ e ∈ expandPattern use (trimPattern p), Glob.parse e = .ok g := by
  obtain ⟨parts, hparts, hglobs⟩ := bind_eq_ok.1 h
  obtain rfl := Except.ok.inj hglobs
  rw [List.mem_flatten]
  constructor
  · rintro ⟨part, hpart, hg⟩
    obtain ⟨p, hp, hread⟩ := (mem_mapM_iff hparts).1 hpart
    obtain ⟨e, he, hparse⟩ := (mem_mapM_iff hread).1 hg
    exact ⟨p, hp, e, he, mapError_eq_ok.1 hparse⟩
  · rintro ⟨p, hp, e, he, hparse⟩
    obtain ⟨part, hread⟩ := exists_of_mapM hparts hp
    refine ⟨part, (mem_mapM_iff hparts).2 ⟨p, hp, hread⟩, ?_⟩
    exact (mem_mapM_iff hread).2 ⟨e, he, mapError_eq_ok.2 hparse⟩

/-- What the patterns stand for can be read. -/
theorem exists_parse (h : readPatterns use patterns = .ok globs) {p e : String} (hp : p ∈ patterns)
    (he : e ∈ expandPattern use (trimPattern p)) : ∃ g, Glob.parse e = .ok g := by
  obtain ⟨parts, hparts, -⟩ := bind_eq_ok.1 h
  obtain ⟨part, hread⟩ := exists_of_mapM hparts hp
  obtain ⟨g, hg⟩ := exists_of_mapM hread he
  exact ⟨g, mapError_eq_ok.1 hg⟩

/-- **Which paths the patterns match.** -/
theorem anyMatch_iff (h : readPatterns use patterns = .ok globs) :
    anyMatch globs path = true ↔
      ∃ p ∈ patterns, ∃ e ∈ expandPattern use (trimPattern p), ∃ g, Glob.parse e = .ok g ∧
        g.isMatch path = true := by
  unfold anyMatch
  rw [List.any_eq_true]
  constructor
  · rintro ⟨g, hg, hmatch⟩
    obtain ⟨p, hp, e, he, hparse⟩ := (mem_readPatterns h).1 hg
    exact ⟨p, hp, e, he, g, hparse, hmatch⟩
  · rintro ⟨p, hp, e, he, g, hparse, hmatch⟩
    exact ⟨g, (mem_readPatterns h).2 ⟨p, hp, e, he, hparse⟩, hmatch⟩

/-! ### What is left out -/

theorem getLast?_trimPattern (p : String) : (trimPattern p).toList.getLast? ≠ some '/' := by
  unfold trimPattern
  rw [String.toList_ofList]
  exact getLast?_dropTrailing '/' _

/-- A pattern that ends with everything below matches on, however long a path gets. -/
theorem isMatch_append {g : Glob} {front : List Token} (htokens : g.tokens = front ++ [.allBelow])
    (hmatch : g.isMatch path = true) (more : String) : g.isMatch ⟨path.text ++ more⟩ = true := by
  rw [isMatch_iff] at hmatch ⊢
  refine hmatch.imp_right fun htake => ?_
  rw [htokens] at htake ⊢
  obtain ⟨a, b, hpath, ha, hb⟩ := allTake_append.1 htake
  obtain ⟨below, rfl⟩ := allTake_singleton.1 hb
  rw [String.toList_append, bytes_append, hpath]
  refine allTake_append.2 ⟨a, slash :: (below ++ bytes more.toList), by simp, ha, ?_⟩
  exact allTake_singleton.2 ⟨_, rfl⟩

/-- **A pattern and all below it**: what either matches, the second one matches with all that is
below. -/
theorem isMatch_below {p : String} {g g' : Glob} (hend : p.toList.getLast? ≠ some '/')
    (hg : Glob.parse p = .ok g) (hg' : Glob.parse (p ++ "/**") = .ok g')
    (hmatch : g.isMatch path = true ∨ g'.isMatch path = true) (more : String) :
    g'.isMatch ⟨path.text ++ ("/" ++ more)⟩ = true := by
  rcases parse_append_below hend hg hg' with ⟨htokens, hnot⟩ | ⟨htokens, hends⟩
  · rcases hmatch with hmatch | hmatch
    · -- the first pattern is no double star, so that it takes the path itself
      obtain hall | htake := isMatch_iff.1 hmatch
      · exact absurd (matchesAll_iff.1 hall) hnot
      · refine isMatch_iff.2 (.inr ?_)
        rw [htokens, String.toList_append, bytes_append]
        refine allTake_append.2 ⟨_, _, rfl, htake, allTake_singleton.2 ⟨bytes more.toList, ?_⟩⟩
        rw [String.toList_append, bytes_append]
        rfl
    · exact isMatch_append htokens hmatch _
  · have hsame : g' = g := by
      cases g
      cases g'
      exact congrArg Glob.mk htokens
    subst hsame
    rw [or_self] at hmatch
    rcases hends with hall | ⟨front, hfront⟩
    · exact isMatch_iff.2 (.inl (matchesAll_iff.2 hall))
    · exact isMatch_append hfront hmatch _

/-- **What is left out is left out with all that is below it.** -/
theorem anyMatch_below (h : readPatterns .leaveOut patterns = .ok globs)
    (hmatch : anyMatch globs path = true) (more : String) :
    anyMatch globs ⟨path.text ++ ("/" ++ more)⟩ = true := by
  obtain ⟨p, hp, e, he, g, hparse, hmatch⟩ := (anyMatch_iff h).1 hmatch
  obtain ⟨g₁, hg₁⟩ := exists_parse h hp List.mem_cons_self
  have hmem : trimPattern p ++ "/**" ∈ expandPattern .leaveOut (trimPattern p) :=
    List.mem_cons_of_mem _ List.mem_cons_self
  obtain ⟨g₂, hg₂⟩ := exists_parse h hp hmem
  refine (anyMatch_iff h).2 ⟨p, hp, _, hmem, g₂, hg₂, ?_⟩
  refine isMatch_below (getLast?_trimPattern p) hg₁ hg₂ ?_ more
  rcases List.mem_pair.1 he with rfl | rfl
  · obtain rfl := Except.ok.inj (hparse.symm.trans hg₁)
    exact .inl hmatch
  · obtain rfl := Except.ok.inj (hparse.symm.trans hg₂)
    exact .inr hmatch

/-! ### Directories that are taken in -/

/-- The tokens of plain text take its bytes. -/
theorem allTake_literals {cs : List Char} {u : List UInt8} :
    AllTake (cs.map .literal) u ↔ u = bytes cs := by
  induction cs generalizing u with
  | nil => rfl
  | cons c cs ih =>
    rw [List.map_cons]
    simp only [AllTake, Token.Takes, ih]
    constructor
    · rintro ⟨v, w, rfl, rfl, rfl⟩
      rfl
    · rintro rfl
      exact ⟨_, _, rfl, rfl, rfl⟩

/-- **A directory named by plain names**, of which the last one has no dot. A dot and a slash may
stand before them, and a slash after them. -/
structure NamesPlainly (pattern : String) (ds : List String) : Prop where
  spelled : ∃ front ∈ ["", "./"], ∃ back ∈ ["", "/"], pattern = front ++ "/".intercalate ds ++ back
  ne_nil : ds ≠ []
  isName : ∀ d ∈ ds, IsName d
  plain : ∀ d ∈ ds, ∀ c ∈ d.toList, isPlain c = true
  no_dot : ∀ d ∈ ds.getLast?, '.' ∉ d.toList

variable {pattern : String} {ds ns : List String}

/-- A text that starts with a name does not start with a dot and a slash. -/
theorem dropFronts_names (hne : ds ≠ []) (h : ∀ d ∈ ds, IsName d) {back : String}
    (hback : back = "" ∨ back = "/") (n : Nat) :
    dropFronts ['.', '/'] n ("/".intercalate ds ++ back).toList =
      ("/".intercalate ds ++ back).toList := by
  have hpieces : ∃ more, (Path.mk ("/".intercalate ds ++ back)).pieces = ds ++ more := by
    have hds : (ofPieces ds).pieces = ds := pieces_ofPieces hne fun d hd => (h d hd).isStep
    rcases hback with rfl | rfl
    · exact ⟨[], by rw [String.append_empty, List.append_nil]; exact hds⟩
    · have hslash := pieces_append_slash ("/".intercalate ds) ""
      rw [String.append_empty] at hslash
      exact ⟨_, hslash.trans (congrArg (· ++ _) hds)⟩
  have hcut : cutFront? ['.', '/'] ("/".intercalate ds ++ back).toList = none := by
    cases hcut : cutFront? ['.', '/'] ("/".intercalate ds ++ back).toList with
    | none => rfl
    | some rest =>
      have htext : "/".intercalate ds ++ back = "." ++ "/" ++ String.ofList rest := by
        rw [← String.toList_inj, cutFront?_eq_some.1 hcut]
        simp
      obtain ⟨more, hmore⟩ := hpieces
      obtain ⟨d, rest, rfl⟩ := List.exists_cons_of_ne_nil hne
      rw [htext, pieces_append_slash] at hmore
      have hhere : "." = d := (List.cons.inj hmore).1
      exact absurd hhere.symm (h d List.mem_cons_self).ne_here
  cases n with
  | zero => rfl
  | succ n => rw [dropFronts, hcut]

theorem dropHere_append (s : String) :
    (dropHere ("./" ++ s)).toList = dropFronts ['.', '/'] (s.length + 1) s.toList := by
  have hlength : ("./" ++ s).length = s.length + 1 + 1 := by
    rw [String.length_append, Nat.add_comm]
    rfl
  have hcut : cutFront? ['.', '/'] ("./" ++ s).toList = some s.toList := by
    rw [cutFront?_eq_some, String.toList_append]
    rfl
  unfold dropHere
  rw [String.toList_ofList, hlength, dropFronts, hcut]

theorem getLast?_intercalate_ne_slash (hne : ds ≠ []) (h : ∀ d ∈ ds, IsName d) :
    ("/".intercalate ds).toList.getLast? ≠ some '/' := by
  intro hlast
  have hempty := getLast?_pieces_eq_empty (p := ofPieces ds).2 (.inr hlast)
  rw [pieces_ofPieces hne fun d hd => (h d hd).isStep] at hempty
  exact (h "" (List.mem_of_getLast? hempty)).ne_empty rfl

/-- The names are what is left of the pattern. -/
theorem NamesPlainly.trimPattern_eq (h : NamesPlainly pattern ds) :
    trimPattern pattern = "/".intercalate ds := by
  obtain ⟨front, hfront, back, hback, rfl⟩ := h.spelled
  have hback : back = "" ∨ back = "/" := by simpa using hback
  have hhere : (dropHere (front ++ "/".intercalate ds ++ back)).toList =
      ("/".intercalate ds ++ back).toList := by
    rw [String.append_assoc]
    rcases (by simpa using hfront : front = "" ∨ front = "./") with rfl | rfl
    · rw [String.empty_append, dropHere, String.toList_ofList]
      exact dropFronts_names h.ne_nil h.isName hback _
    · rw [dropHere_append]
      exact dropFronts_names h.ne_nil h.isName hback _
  have hlast := getLast?_intercalate_ne_slash h.ne_nil h.isName
  unfold trimPattern
  rw [hhere]
  rcases hback with rfl | rfl
  · rw [String.append_empty, dropTrailing_of_ne hlast, String.ofList_toList]
  · have hslash : ("/".intercalate ds ++ "/").toList = ("/".intercalate ds).toList ++ ['/'] :=
      String.toList_append
    rw [hslash, dropTrailing_concat, dropTrailing_of_ne hlast, String.ofList_toList]

/-- The pattern seems to name a directory. -/
theorem NamesPlainly.namesDirectory (h : NamesPlainly pattern ds) :
    namesDirectory ("/".intercalate ds) = true := by
  have hsplit : split '/' ("/".intercalate ds).toList = ds.map String.toList := by
    rw [String.toList_intercalate]
    refine split_intercalate (by simpa using h.ne_nil) fun s hs => ?_
    obtain ⟨d, hd, rfl⟩ := List.mem_map.1 hs
    exact (h.isName d hd).no_slash
  unfold Project.namesDirectory
  rw [hsplit, List.getLast?_map]
  cases hlast : ds.getLast? with
  | none => exact absurd (List.getLast?_eq_none_iff.1 hlast) h.ne_nil
  | some d =>
    have hplain := h.plain d (List.mem_of_getLast? hlast)
    have hstar : '*' ∉ d.toList := fun hmem => absurd (hplain _ hmem) (by decide)
    have hmark : '?' ∉ d.toList := fun hmem => absurd (hplain _ hmem) (by decide)
    simp [hstar, hmark, h.no_dot d hlast]

theorem forall_mem_intercalate {P : Char → Prop} (hslash : P '/')
    (h : ∀ d ∈ ds, ∀ c ∈ d.toList, P c) : ∀ c ∈ ("/".intercalate ds).toList, P c := by
  induction ds with
  | nil => simp
  | cons d ds ih =>
    rw [List.forall_mem_cons] at h
    by_cases hne : ds = []
    · subst hne
      rw [String.intercalate_singleton]
      exact h.1
    · rw [String.intercalate_cons_of_ne_nil hne]
      intro c hc
      simp only [String.toList_append, List.mem_append] at hc
      rcases hc with (hc | hc) | hc
      · exact h.1 c hc
      · obtain rfl : c = '/' := List.mem_singleton.1 hc
        exact hslash
      · exact ih h.2 c hc

/-- All that is below plain names is matched by what they stand for. -/
theorem isMatch_names_below (hds : ds ≠ []) (hne : ns ≠ []) (hns : ∀ n ∈ ns, IsName n) :
    Glob.isMatch ⟨("/".intercalate ds).toList.map .literal ++ [.middleDirs, .star]⟩
      (ofPieces (ds ++ ns)) = true := by
  refine isMatch_iff.2 (.inr ?_)
  rcases List.eq_nil_or_concat ns with rfl | ⟨ms, n, rfl⟩
  · exact absurd rfl hne
  · rw [List.concat_eq_append] at hns ⊢
    have hname : slash ∉ bytes n.toList := fun hmem =>
      (hns n (by simp)).no_slash (slash_mem_bytes.1 hmem)
    have hstar : AllTake [.star] (bytes n.toList) := allTake_singleton.2 hname
    unfold ofPieces
    rw [String.intercalate_append_of_ne_nil hds (by simp), String.toList_append,
      String.toList_append, bytes_append, bytes_append, List.append_assoc]
    refine allTake_append.2 ⟨_, _, rfl, allTake_literals.2 rfl, ?_⟩
    by_cases hms : ms = []
    · subst hms
      rw [List.nil_append, String.intercalate_singleton]
      exact ⟨[slash], bytes n.toList, rfl, .inl rfl, hstar⟩
    · rw [String.intercalate_append_of_ne_nil hms (by simp), String.intercalate_singleton,
        String.toList_append, String.toList_append, bytes_append, bytes_append]
      refine ⟨slash :: (bytes ("/".intercalate ms).toList ++ [slash]), bytes n.toList, ?_,
        .inr ⟨_, rfl⟩, hstar⟩
      rfl

/-- **A directory that is named by plain names takes in all that is below it.** -/
theorem anyMatch_of_namesPlainly (h : readPatterns .takeIn patterns = .ok globs)
    (hpattern : pattern ∈ patterns) (hnames : NamesPlainly pattern ds) (hne : ns ≠ [])
    (hns : ∀ n ∈ ns, IsName n) : anyMatch globs (ofPieces (ds ++ ns)) = true := by
  have hplain := forall_mem_intercalate (by decide) hnames.plain
  refine (anyMatch_iff h).2 ⟨pattern, hpattern, "/".intercalate ds ++ "/**/*", ?_, _,
    parse_plain_below hplain, isMatch_names_below hnames.ne_nil hne hns⟩
  rw [hnames.trimPattern_eq, expandPattern, if_pos hnames.namesDirectory]
  simp

/-! ### The directory itself -/

/-- **The directory that patterns are seen from**, as it is written: a dot, with or without a slash
after it. -/
def IsHere (pattern : String) : Prop := pattern = "." ∨ pattern = "./"

/-- A pattern of plain text matches that text only. -/
theorem text_of_isMatch_plain {e : String} {g : Glob} (hplain : ∀ c ∈ e.toList, isPlain c = true)
    (hparse : Glob.parse e = .ok g) (hmatch : g.isMatch path = true) : path.text = e := by
  obtain rfl := Except.ok.inj (hparse.symm.trans (parse_plain hplain))
  rcases isMatch_iff.1 hmatch with hall | htake
  · have htokens : e.toList.map Token.literal = [.leadingDirs] := matchesAll_iff.1 hall
    have hmem : Token.leadingDirs ∈ e.toList.map Token.literal := by
      rw [htokens]
      exact List.mem_singleton_self _
    obtain ⟨c, -, hc⟩ := List.mem_map.1 hmem
    cases hc
  · exact String.toList_inj.1 (bytes_injective (allTake_literals.1 htake))

/-- Bytes that start with a slash are those of an absolute path. -/
theorem isAbsolute_of_bytes {u : List UInt8} (h : bytes path.text.toList = slash :: u) :
    path.isAbsolute = true := by
  unfold isAbsolute
  cases htext : path.text.toList with
  | nil =>
    rw [htext] at h
    cases h
  | cons c cs =>
    obtain ⟨b, more, hc⟩ := List.exists_cons_of_ne_nil (String.utf8EncodeChar_ne_nil (c := c))
    rw [htext, bytes, List.flatMap_cons, hc] at h
    have hslash : slash ∈ String.utf8EncodeChar c := by
      rw [hc, (List.cons.inj h).1]
      exact List.mem_cons_self
    rw [slash_mem_utf8EncodeChar.1 hslash]
    rfl

/-- **A dot takes in nothing that is below the directory.** -/
theorem not_isMatch_of_isHere (hhere : IsHere pattern) {e : String} {g : Glob}
    (he : e ∈ expandPattern .takeIn (trimPattern pattern)) (hparse : Glob.parse e = .ok g)
    (hne : ns ≠ []) (hns : ∀ n ∈ ns, IsName n) : g.isMatch (ofPieces ns) = false := by
  have hsteps : ∀ n ∈ ns, IsStep n := fun n hn => (hns n hn).isStep
  have hpieces : (ofPieces ns).pieces = ns := pieces_ofPieces hne hsteps
  have htext : ∀ s, (Path.mk s).pieces = [s] → ¬ IsName s → (ofPieces ns).text ≠ s := by
    intro s hs hnot heq
    rw [← heq] at hs
    rw [hpieces.symm.trans hs, heq] at hns
    exact hnot (hns s List.mem_cons_self)
  rw [Bool.eq_false_iff]
  intro hmatch
  -- a dot reads as itself, and a dot and a slash as the empty pattern and all below the root
  rcases hhere with rfl | rfl
  · have hexpand : expandPattern .takeIn (trimPattern ".") = ["."] := by decide
    rw [hexpand, List.mem_singleton] at he
    subst he
    exact htext "." (by decide) (fun hname => hname.ne_here rfl)
      (text_of_isMatch_plain (List.all_eq_true.1 (by decide)) hparse hmatch)
  · have hexpand : expandPattern .takeIn (trimPattern "./") = ["", "" ++ "/**/*"] := by decide
    rw [hexpand, List.mem_pair] at he
    rcases he with rfl | rfl
    · exact htext "" (by decide) (fun hname => hname.ne_empty rfl)
        (text_of_isMatch_plain (List.all_eq_true.1 (by decide)) hparse hmatch)
    · have habs : (ofPieces ns).isAbsolute = true := by
        have hplain : ∀ c ∈ "".toList, isPlain c = true := List.all_eq_true.1 (by decide)
        obtain rfl := Except.ok.inj (hparse.symm.trans (parse_plain_below hplain))
        rcases isMatch_iff.1 hmatch with hall | ⟨a, b, hbytes, ha, -⟩
        · exact absurd (matchesAll_iff.1 hall) (by simp)
        · rcases ha with rfl | ⟨v, rfl⟩
          · exact isAbsolute_of_bytes hbytes
          · exact isAbsolute_of_bytes hbytes
      rw [isAbsolute_ofPieces_steps hsteps] at habs
      cases habs

end AmbientBundle.Project

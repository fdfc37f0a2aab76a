import AmbientBundle.Path.Normal
import AmbientBundle.Proofs.Cutting
import Mathlib.Data.List.Induction

/-!
# Absolute paths in normal form

An absolute path in normal form is a list of names: a slash, and the names with slashes between
them.

* `isNormal_iff`: absolute and unchanged by `normalize` says just that.
* `normalize_absolute`, `absolutize_isNormal`: the normal form of an absolute path.
* `components_ofNames`: its components are the root and the names.
* `relativeTo?_ofNames`: the rest of a path below another are the names that are left.
-/

namespace AmbientBundle.Path

open Text

/-- A text that can be a name in a path. -/
structure IsName (s : String) : Prop where
  ne_empty : s ≠ ""
  ne_here : s ≠ "."
  ne_up : s ≠ ".."
  no_slash : '/' ∉ s.toList

theorem isName_iff {s : String} : IsName s ↔ s ≠ "" ∧ s ≠ "." ∧ s ≠ ".." ∧ '/' ∉ s.toList :=
  ⟨fun h => ⟨h.ne_empty, h.ne_here, h.ne_up, h.no_slash⟩, fun ⟨h1, h2, h3, h4⟩ => ⟨h1, h2, h3, h4⟩⟩

instance (s : String) : Decidable (IsName s) := decidable_of_iff _ isName_iff.symm

/-- The absolute path with these names. -/
def ofNames (names : List String) : Path := ⟨"/" ++ "/".intercalate names⟩

/-- **An absolute path in normal form.** -/
structure IsNormal (p : Path) : Prop where
  absolute : p.isAbsolute = true
  normalized : p.normalize = p

instance (p : Path) : Decidable p.IsNormal :=
  decidable_of_iff (p.isAbsolute = true ∧ p.normalize = p)
    ⟨fun ⟨h1, h2⟩ => ⟨h1, h2⟩, fun h => ⟨h.absolute, h.normalized⟩⟩

variable {ns : List String} {p q : Path}

theorem IsName.not_idle {s : String} (h : IsName s) : isIdle s = false := by
  simp [isIdle, h.ne_empty, h.ne_here]

theorem IsName.toList_ne_nil {s : String} (h : IsName s) : s.toList ≠ [] := by
  intro h0
  exact h.ne_empty (by simpa using h0)

/-- A text that is longer than two dots is a name, unless there is a slash in it. -/
theorem isName_append {s e : String} (hs : '/' ∉ s.toList) (he : '/' ∉ e.toList)
    (hlen : 2 < e.length) : IsName (s ++ e) := by
  have hlong : 2 < (s ++ e).length := by rw [String.length_append]; omega
  refine ⟨?_, ?_, ?_, ?_⟩
  · rintro heq; rw [heq] at hlong; exact absurd hlong (by decide)
  · rintro heq; rw [heq] at hlong; exact absurd hlong (by decide)
  · rintro heq; rw [heq] at hlong; exact absurd hlong (by decide)
  · rw [String.toList_append, List.mem_append, not_or]
    exact ⟨hs, he⟩

theorem ofNames_cons (n : String) (ns : List String) :
    ofNames (n :: ns) = ⟨"/".intercalate ("" :: n :: ns)⟩ := by
  simp [ofNames]

theorem isAbsolute_ofNames (ns : List String) : (ofNames ns).isAbsolute = true := by
  simp [ofNames, isAbsolute]

/-! ### Pieces and components -/

theorem pieces_ofNames_nil : (ofNames []).pieces = ["", ""] := by decide

theorem pieces_ofNames {n : String} {ns : List String} (h : ∀ m ∈ n :: ns, IsName m) :
    (ofNames (n :: ns)).pieces = "" :: n :: ns := by
  rw [ofNames_cons]
  refine pieces_intercalate (by simp) ?_
  intro s hs
  rcases List.mem_cons.1 hs with rfl | hs
  · simp
  · exact (h s hs).no_slash

theorem steps_names (h : ∀ n ∈ ns, IsName n) : steps ns = ns.map .name := by
  unfold steps
  rw [List.filter_eq_self.2 fun n hn => by simp [(h n hn).not_idle]]
  refine List.map_congr_left fun n hn => ?_
  simp [Component.ofPiece, (h n hn).ne_up]

/-- **The components of a path with names** are the root and the names. -/
theorem components_ofNames (h : ∀ n ∈ ns, IsName n) :
    (ofNames ns).components = .root :: ns.map .name := by
  cases ns with
  | nil => decide
  | cons n ns =>
    unfold components
    rw [pieces_ofNames h]
    simp only [isAbsolute_ofNames, if_true]
    rw [steps_names h]

/-! ### Joining names -/

theorem text_ofNames_append {ns ms : List String} (hns : ns ≠ []) (hms : ms ≠ []) :
    (ofNames (ns ++ ms)).text = (ofNames ns).text ++ "/" ++ "/".intercalate ms := by
  unfold ofNames
  rw [String.intercalate_append_of_ne_nil hns hms]
  simp only [String.append_assoc]

theorem getLast?_text_ofNames {n : String} (hn : IsName n) (ns : List String) :
    (ofNames (ns ++ [n])).text.toList.getLast? = n.toList.getLast? := by
  have h0 := hn.toList_ne_nil
  by_cases hns : ns = []
  · subst hns
    simp [ofNames, List.getLast?_cons_of_ne_nil h0]
  · rw [text_ofNames_append hns (by simp), String.intercalate_singleton]
    simp [List.getLast?_append, List.getLast?_cons_of_ne_nil h0, List.getLast?_eq_some_getLast h0]

theorem getLast?_ne_slash {n : String} (hn : IsName n) : n.toList.getLast? ≠ some '/' := fun h =>
  hn.no_slash (List.mem_of_getLast? h)

/-- A path that starts with a name is not absolute. -/
theorem isAbsolute_ofPieces {ms : List String} {m : String} (hm : IsName m) :
    (ofPieces (m :: ms)).isAbsolute = false := by
  obtain ⟨c, cs, hcs⟩ := List.exists_cons_of_ne_nil hm.toList_ne_nil
  have hc : c ≠ '/' := by
    rintro rfl
    exact hm.no_slash (by rw [hcs]; exact List.mem_cons_self)
  cases ms with
  | nil => simp [isAbsolute, ofPieces, hcs, hc]
  | cons k ms => simp [isAbsolute, ofPieces, hcs, hc]

/-- **Names after a path with names.** -/
theorem join_ofNames_names (h : ∀ n ∈ ns, IsName n) {ms : List String} (hne : ms ≠ [])
    (hms : ∀ m ∈ ms, IsName m) : (ofNames ns).join (ofPieces ms) = ofNames (ns ++ ms) := by
  have habs : (ofPieces ms).isAbsolute = false := by
    obtain ⟨m, rest, rfl⟩ := List.exists_cons_of_ne_nil hne
    exact isAbsolute_ofPieces (hms m List.mem_cons_self)
  unfold join
  rw [habs, if_neg (by simp)]
  rcases List.eq_nil_or_concat ns with rfl | ⟨front, n, rfl⟩
  · simp [ofNames, ofPieces]
  · rw [List.concat_eq_append] at h ⊢
    have hn : IsName n := h n (by simp)
    have htext : (ofNames (front ++ [n])).text ≠ "" := by simp [ofNames]
    rw [getLast?_text_ofNames hn front, if_neg]
    · rw [ofPieces, ← text_ofNames_append (by simp) hne]
    · simp [htext, getLast?_ne_slash hn]

/-- A name after a path with names. -/
theorem join_ofNames (h : ∀ m ∈ ns, IsName m) {n : String} (hn : IsName n) :
    (ofNames ns).join ⟨n⟩ = ofNames (ns ++ [n]) := by
  have hpath : (⟨n⟩ : Path) = ofPieces [n] := by rw [ofPieces, String.intercalate_singleton]
  rw [hpath]
  exact join_ofNames_names h (by simp) (by simpa using hn)

theorem ofComponents_names (h : ∀ n ∈ ns, IsName n) :
    ofComponents (.root :: ns.map .name) = ofNames ns := by
  induction ns using List.reverseRecOn with
  | nil => decide
  | append_singleton ns n ih =>
    have hns : ∀ m ∈ ns, IsName m := fun m hm => h m (by simp [hm])
    have ih := ih hns
    unfold ofComponents at ih ⊢
    rw [List.map_append, ← List.cons_append, List.foldl_append, ih]
    exact join_ofNames hns (h n (by simp))

/-! ### The normal form -/

/-- The components that a folded absolute path has so far, the last one first. -/
def IsStack (cs : List Component) : Prop :=
  ∃ ns : List String, (∀ n ∈ ns, IsName n) ∧ cs = ns.reverse.map .name ++ [.root]

theorem foldStep_isStack {cs : List Component} (hcs : IsStack cs) {c : Component}
    (hc : c = .here ∨ c = .up ∨ ∃ n, IsName n ∧ c = .name n) : IsStack (foldStep cs c) := by
  obtain ⟨ns, hn, rfl⟩ := hcs
  rcases hc with rfl | rfl | ⟨n, hname, rfl⟩
  · exact ⟨ns, hn, rfl⟩
  · -- a step up takes back the last name, or stays at the root
    rcases List.eq_nil_or_concat ns with rfl | ⟨ms, m, rfl⟩
    · exact ⟨[], by simp, rfl⟩
    · rw [List.concat_eq_append] at hn ⊢
      exact ⟨ms, fun k hk => hn k (by simp [hk]), by simp [foldStep]⟩
  · refine ⟨ns ++ [n], ?_, by simp [foldStep]⟩
    intro k hk
    rcases List.mem_append.1 hk with hk | hk
    · exact hn k hk
    · rw [List.mem_singleton] at hk; rw [hk]; exact hname

theorem foldl_isStack {cs : List Component}
    (h : ∀ c ∈ cs, c = .here ∨ c = .up ∨ ∃ n, IsName n ∧ c = .name n) {done : List Component}
    (hd : IsStack done) : IsStack (cs.foldl foldStep done) := by
  induction cs generalizing done with
  | nil => exact hd
  | cons c cs ih =>
    rw [List.foldl_cons]
    exact ih (fun d hd => h d (List.mem_cons_of_mem _ hd))
      (foldStep_isStack hd (h c List.mem_cons_self))

theorem mem_pieces_no_slash {s : String} (h : s ∈ p.pieces) : '/' ∉ s.toList := by
  obtain ⟨w, hw, rfl⟩ := List.mem_map.1 h
  rw [String.toList_ofList]
  exact not_mem_of_mem_split hw

theorem mem_steps {pieces : List String} (h : ∀ s ∈ pieces, '/' ∉ s.toList) {c : Component}
    (hc : c ∈ steps pieces) : c = .here ∨ c = .up ∨ ∃ n, IsName n ∧ c = .name n := by
  obtain ⟨s, hs, rfl⟩ := List.mem_map.1 hc
  obtain ⟨hs, hidle⟩ := List.mem_filter.1 hs
  simp only [isIdle, Bool.not_eq_true', Bool.or_eq_false_iff, beq_eq_false_iff_ne] at hidle
  by_cases hup : s = ".."
  · exact Or.inr (Or.inl (by simp [Component.ofPiece, hup]))
  · exact Or.inr (Or.inr ⟨s, ⟨hidle.1, hidle.2, hup, h s hs⟩, by simp [Component.ofPiece, hup]⟩)

/-- An absolute path starts with an empty piece. -/
theorem pieces_of_isAbsolute (h : p.isAbsolute = true) : ∃ rest, p.pieces = "" :: rest := by
  unfold isAbsolute at h
  unfold pieces
  cases htext : p.text.toList with
  | nil => simp [htext] at h
  | cons c cs =>
    have hc : c = '/' := by simpa [htext] using h
    exact ⟨(split '/' cs).map String.ofList, by simp [split, hc]⟩

/-- The components of an absolute path are folded to names after the root. -/
theorem fold_absolute (h : p.isAbsolute = true) :
    ∃ ns : List String, (∀ n ∈ ns, IsName n) ∧ fold p.components = .root :: ns.map .name := by
  obtain ⟨rest, hrest⟩ := pieces_of_isAbsolute h
  have hcomponents : p.components = .root :: steps rest := by
    unfold components
    rw [hrest]
    simp only [h, if_true]
  have hstack : IsStack ((steps rest).foldl foldStep [.root]) := by
    refine foldl_isStack (fun c hc => mem_steps (fun s hs => ?_) hc) ⟨[], by simp, rfl⟩
    exact mem_pieces_no_slash (p := p) (by rw [hrest]; exact List.mem_cons_of_mem _ hs)
  obtain ⟨ns, hns, heq⟩ := hstack
  refine ⟨ns, hns, ?_⟩
  unfold fold
  rw [hcomponents, List.foldl_cons, show foldStep [] .root = [.root] from rfl, heq]
  simp

/-- **The normal form of an absolute path** has names only. -/
theorem normalize_absolute (h : p.isAbsolute = true) :
    ∃ ns, (∀ n ∈ ns, IsName n) ∧ p.normalize = ofNames ns := by
  obtain ⟨ns, hns, hfold⟩ := fold_absolute h
  refine ⟨ns, hns, ?_⟩
  unfold normalize
  rw [hfold]
  exact ofComponents_names hns

theorem normalize_ofNames (h : ∀ n ∈ ns, IsName n) : (ofNames ns).normalize = ofNames ns := by
  have hfold : ∀ (ms : List String) (done : List Component),
      (ms.map Component.name).foldl foldStep done = (ms.map Component.name).reverse ++ done := by
    intro ms
    induction ms with
    | nil => intro done; rfl
    | cons m ms ih => intro done; simp [ih, foldStep]
  unfold normalize fold
  rw [components_ofNames h, List.foldl_cons, show foldStep [] .root = [.root] from rfl, hfold]
  simp only [List.reverse_append, List.reverse_reverse, List.reverse_singleton,
    List.singleton_append]
  exact ofComponents_names h

/-- **Absolute paths in normal form are lists of names.** -/
theorem isNormal_iff : p.IsNormal ↔ ∃ ns, (∀ n ∈ ns, IsName n) ∧ p = ofNames ns := by
  constructor
  · rintro ⟨habs, hnorm⟩
    obtain ⟨ns, hns, heq⟩ := normalize_absolute habs
    exact ⟨ns, hns, hnorm.symm.trans heq⟩
  · rintro ⟨ns, hns, rfl⟩
    exact ⟨isAbsolute_ofNames ns, normalize_ofNames hns⟩

/-- An absolute path has a normal form. -/
theorem isNormal_normalize (h : p.isAbsolute = true) : p.normalize.IsNormal :=
  isNormal_iff.2 (normalize_absolute h)

theorem IsNormal.exists_slash (h : p.IsNormal) : ∃ cs, p.text.toList = '/' :: cs := by
  have habs := h.absolute
  exact List.head?_eq_some_iff.1 (by simpa [isAbsolute] using habs)

theorem isAbsolute_join (h : p.isAbsolute = true) : (p.join q).isAbsolute = true := by
  unfold join
  split
  · assumption
  · have hp : p.text.toList.head? = some '/' := by simpa [isAbsolute] using h
    obtain ⟨cs, hcs⟩ : ∃ cs, p.text.toList = '/' :: cs := List.head?_eq_some_iff.1 hp
    split <;> simp [isAbsolute, hcs]

/-! ### Paths below a path -/

/-- The names in a path. -/
def names (p : Path) : List String :=
  p.components.filterMap fun c =>
    match c with
    | .name n => some n
    | _ => none

/-- A path strictly below another. -/
def IsBelow (p base : Path) : Prop := p.startsWith base = true ∧ p ≠ base

instance (p base : Path) : Decidable (p.IsBelow base) :=
  inferInstanceAs (Decidable (_ ∧ _))

theorem names_ofNames {ns : List String} (h : ∀ n ∈ ns, IsName n) : (ofNames ns).names = ns := by
  unfold names
  rw [components_ofNames h, List.filterMap_cons_none rfl, List.filterMap_map]
  exact List.filterMap_some

theorem fileName?_ofNames {ns : List String} {n : String} (h : ∀ m ∈ ns ++ [n], IsName m) :
    (ofNames (ns ++ [n])).fileName? = some n := by
  unfold fileName?
  rw [components_ofNames h]
  simp [List.getLast?_cons_of_ne_nil]

theorem startsWith_ofNames {rs ns : List String} (hr : ∀ n ∈ rs, IsName n)
    (hn : ∀ n ∈ ns, IsName n) : (ofNames ns).startsWith (ofNames rs) = true ↔ rs <+: ns := by
  unfold startsWith
  rw [components_ofNames hr, components_ofNames hn, List.isPrefixOf_iff_prefix,
    List.cons_prefix_cons]
  have hinj : Function.Injective Component.name := fun a b hab => Component.name.inj hab
  simp only [true_and]
  exact List.prefix_map_iff_of_injective hinj

theorem IsBelow.exists_names {base : Path} (hp : p.IsNormal) (hb : base.IsNormal)
    (h : p.IsBelow base) :
    ∃ rs ns, ns ≠ [] ∧ (∀ n ∈ rs ++ ns, IsName n) ∧ base = ofNames rs ∧ p = ofNames (rs ++ ns) := by
  obtain ⟨ms, hm, rfl⟩ := isNormal_iff.1 hp
  obtain ⟨rs, hr, rfl⟩ := isNormal_iff.1 hb
  obtain ⟨ns, rfl⟩ := (startsWith_ofNames hr hm).1 h.1
  refine ⟨rs, ns, ?_, hm, rfl, rfl⟩
  rintro rfl
  exact h.2 (by rw [List.append_nil])

theorem dropSteps_names {rs : List String} (ns : List String) (hr : ∀ n ∈ rs, IsName n) :
    dropSteps rs.length (rs ++ ns) = ns := by
  induction rs with
  | nil => rfl
  | cons r rs ih =>
    have hidle := (hr r List.mem_cons_self).not_idle
    rw [List.length_cons, List.cons_append, dropSteps, List.dropWhile_cons_of_neg (by simp [hidle]),
      List.drop_one, List.tail_cons]
    exact ih fun n hn => hr n (List.mem_cons_of_mem _ hn)

theorem dropWhile_isIdle_names {ns : List String} (h : ∀ n ∈ ns, IsName n) :
    ns.dropWhile isIdle = ns := by
  cases ns with
  | nil => rfl
  | cons n ns =>
    exact List.dropWhile_cons_of_neg (by simp [(h n List.mem_cons_self).not_idle])

theorem trimBack_names {ns : List String} (h : ∀ n ∈ ns, IsName n) : trimBack ns = ns := by
  unfold trimBack
  rw [dropWhile_isIdle_names fun n hn => h n (List.mem_reverse.1 hn), List.reverse_reverse]

theorem trimPieces_names {ns : List String} (hn : ∀ n ∈ ns, IsName n) : trimPieces ns = ns := by
  unfold trimPieces
  rw [dropWhile_isIdle_names hn, trimBack_names hn]

/-- **The rest of a path below another** are the names that are left. -/
theorem relativeTo?_ofNames {rs ns : List String} (hne : ns ≠ []) (h : ∀ n ∈ rs ++ ns, IsName n) :
    (ofNames (rs ++ ns)).relativeTo? (ofNames rs) = some ⟨"/".intercalate ns⟩ := by
  have hr : ∀ n ∈ rs, IsName n := fun n hn => h n (List.mem_append_left _ hn)
  have hpieces : (ofNames (rs ++ ns)).pieces.drop 1 = rs ++ ns := by
    cases hrn : rs ++ ns with
    | nil => exact absurd (List.append_eq_nil_iff.1 hrn).2 hne
    | cons m ms =>
      rw [hrn] at h
      rw [pieces_ofNames h]
      rfl
  have hafter : (ofNames (rs ++ ns)).piecesAfter (rs.length + 1) = ns := by
    unfold piecesAfter
    rw [components_ofNames h, hpieces]
    exact dropSteps_names ns hr
  unfold relativeTo?
  rw [if_pos ((startsWith_ofNames hr h).2 (List.prefix_append rs ns)), components_ofNames hr]
  simp only [List.length_cons, List.length_map]
  rw [hafter, trimPieces_names fun n hn => h n (List.mem_append_right _ hn)]
  rfl

/-! ### Paths read from a directory -/

/-- **A path read from an absolute directory** is absolute and in normal form. -/
theorem absolutize_isNormal (h : q.isAbsolute = true) : (p.absolutize q).IsNormal := by
  unfold absolutize
  split
  · next hp => exact isNormal_normalize hp
  · exact isNormal_normalize (isAbsolute_join h)

/-- A path in normal form is read as it is. -/
theorem absolutize_of_isNormal (h : p.IsNormal) : p.absolutize q = p := by
  rw [absolutize, if_pos h.1, h.2]

end AmbientBundle.Path

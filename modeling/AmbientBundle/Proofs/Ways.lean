import AmbientBundle.Proofs.References

/-!
# Ways

A relative path is a way: some steps up, and then names. Paths and identifiers are folded by
different means, and both come to the way that is left when every step up has taken back the name
before it.

* `foldl_reduced`: whatever takes back a name at a step up can be done along the way that is left.
* `step_cases`: what one piece more does to a way.
* `follow_isWay`, `follow_append`: the way of a specifier, from a directory and from one above it.
* `normalize_join_relative`: the normal form of a relative path is its way.
* `normalize_join_names`: the normal form of an absolute path is where its way leads from the root.
-/

open AmbientBundle.Path

namespace AmbientBundle

open Text

/-! ### What is left of a path -/

namespace ModuleId

theorem step_idle {done : List String} {s : String} (h : isIdle s = true) : step done s = done := by
  unfold isIdle at h
  simp only [step, h, if_true]

theorem step_up_of_ne {last : String} (rest : List String) (h : last ≠ "..") :
    step (last :: rest) ".." = rest := by
  simp [step, h]

theorem step_up_up (rest : List String) : step (".." :: rest) ".." = ".." :: ".." :: rest := by
  simp [step]

theorem step_other {done : List String} {s : String} (hidle : isIdle s = false) (hup : s ≠ "..") :
    step done s = s :: done := by
  unfold isIdle at hidle
  simp [step, hidle, hup]

/-- What is left are steps up and pieces that are not idle. -/
theorem forall_mem_foldl_step {P : String → Prop} (hup : P "..") {pieces done : List String}
    (hpieces : ∀ s ∈ pieces, isIdle s = false → P s) (hdone : ∀ s ∈ done, P s) :
    ∀ s ∈ pieces.foldl step done, P s := by
  induction pieces generalizing done with
  | nil => exact hdone
  | cons piece pieces ih =>
    rw [List.foldl_cons]
    apply ih fun s hs => hpieces s (List.mem_cons_of_mem _ hs)
    intro s hs
    by_cases hidle : isIdle piece = true
    · rw [step_idle hidle] at hs
      exact hdone s hs
    · rw [Bool.not_eq_true] at hidle
      by_cases hpiece : piece = ".."
      · subst hpiece
        -- a step up takes back a piece, or is itself kept
        cases done with
        | nil => rwa [List.mem_singleton.1 hs]
        | cons last rest =>
          by_cases hlast : last = ".."
          · rw [hlast, step_up_up] at hs
            rcases List.mem_cons.1 hs with rfl | hs
            · exact hup
            · exact hdone s (hlast ▸ hs)
          · rw [step_up_of_ne rest hlast] at hs
            exact hdone s (List.mem_cons_of_mem _ hs)
      · rw [step_other hidle hpiece] at hs
        rcases List.mem_cons.1 hs with rfl | hs
        · exact hpieces s List.mem_cons_self hidle
        · exact hdone s hs

/-- **Whatever passes over idle pieces and takes back a name at a step up** can be done along what
is left of the pieces. -/
theorem foldl_reduced {α : Type} {f : α → String → α}
    (hidle : ∀ x s, isIdle s = true → f x s = x)
    (hback : ∀ x s, isIdle s = false → s ≠ ".." → f (f x s) ".." = x) (x : α)
    (pieces : List String) : pieces.foldl f x = (pieces.foldl step []).reverse.foldl f x := by
  induction pieces using List.reverseRecOn with
  | nil => rfl
  | append_singleton pieces piece ih =>
    have hleft : ∀ s ∈ pieces.foldl step [], isIdle s = false :=
      forall_mem_foldl_step (by decide) (fun s _ hs => hs) fun s hs => absurd hs List.not_mem_nil
    rw [List.foldl_append, List.foldl_append, ih]
    simp only [List.foldl_cons, List.foldl_nil]
    by_cases hpiece : isIdle piece = true
    · rw [hidle _ _ hpiece, step_idle hpiece]
    · rw [Bool.not_eq_true] at hpiece
      by_cases hup : piece = ".."
      · subst hup
        cases hdone : pieces.foldl step [] with
        | nil => rfl
        | cons last rest =>
          rw [hdone] at hleft
          by_cases hlast : last = ".."
          · rw [hlast, step_up_up]
            simp only [List.reverse_cons, List.foldl_append, List.foldl_cons, List.foldl_nil]
          · rw [step_up_of_ne rest hlast, List.reverse_cons, List.foldl_append]
            exact hback _ _ (hleft last List.mem_cons_self) hlast
      · rw [step_other hpiece hup, List.reverse_cons, List.foldl_append]
        rfl

/-! ### Ways -/

/-- **A way**: steps up, and then names. -/
def IsWay (way : List String) : Prop :=
  ∃ k names, way = List.replicate k ".." ++ names ∧ ∀ n ∈ names, IsName n

theorem IsWay.of_names {names : List String} (h : ∀ n ∈ names, IsName n) : IsWay names :=
  ⟨0, names, rfl, h⟩

/-- A step up where there is no name to take back. -/
theorem step_ups (k : Nat) : step (List.replicate k "..") ".." = List.replicate (k + 1) ".." := by
  cases k with
  | zero => rfl
  | succ k => rw [List.replicate_succ, step_up_up, ← List.replicate_succ, ← List.replicate_succ]

/-- **What one piece more does to a way**: nothing, a step up more, a name less, or a name more. -/
theorem step_cases {done names : List String} {k : Nat} {s : String}
    (hdone : done.reverse = List.replicate k ".." ++ names) (hnames : ∀ n ∈ names, IsName n)
    (hs : '/' ∉ s.toList) :
    (isIdle s = true ∧ (step done s).reverse = List.replicate k ".." ++ names) ∨
    (s = ".." ∧ names = [] ∧ (step done s).reverse = List.replicate (k + 1) ".." ++ []) ∨
    (s = ".." ∧ ∃ front last, names = front ++ [last] ∧
      (step done s).reverse = List.replicate k ".." ++ front) ∨
    (IsName s ∧ (step done s).reverse = List.replicate k ".." ++ (names ++ [s])) := by
  by_cases hidle : isIdle s = true
  · exact .inl ⟨hidle, by rw [step_idle hidle, hdone]⟩
  rw [Bool.not_eq_true] at hidle
  by_cases hup : s = ".."
  · subst hup
    rcases List.eq_nil_or_concat names with rfl | ⟨front, last, rfl⟩
    · have hups : done = List.replicate k ".." := by
        rw [← List.reverse_reverse done, hdone, List.append_nil, List.reverse_replicate]
      refine .inr (.inl ⟨rfl, rfl, ?_⟩)
      rw [hups, step_ups, List.reverse_replicate, List.append_nil]
    · rw [List.concat_eq_append] at hdone hnames
      have hlast : done = last :: (List.replicate k ".." ++ front).reverse := by
        rw [← List.reverse_reverse done, hdone, ← List.append_assoc, List.reverse_append]
        rfl
      refine .inr (.inr (.inl ⟨rfl, front, last, List.concat_eq_append, ?_⟩))
      rw [hlast, step_up_of_ne _ (hnames last (by simp)).ne_up, List.reverse_reverse]
  · have hname : IsName s := by
      simp only [isIdle, Bool.or_eq_false_iff, beq_eq_false_iff_ne] at hidle
      exact ⟨hidle.1, hidle.2, hup, hs⟩
    refine .inr (.inr (.inr ⟨hname, ?_⟩))
    rw [step_other hidle hup, List.reverse_cons, hdone, List.append_assoc]

/-- One piece more on a way. -/
theorem IsWay.step {done : List String} (h : IsWay done.reverse) {s : String}
    (hs : '/' ∉ s.toList) : IsWay (ModuleId.step done s).reverse := by
  obtain ⟨k, names, hway, hnames⟩ := h
  rcases step_cases hway hnames hs with ⟨-, hstep⟩ | ⟨-, -, hstep⟩ | ⟨-, front, last, rfl, hstep⟩ |
    ⟨hname, hstep⟩
  · exact ⟨k, names, hstep, hnames⟩
  · exact ⟨k + 1, [], hstep, fun n hn => absurd hn List.not_mem_nil⟩
  · exact ⟨k, front, hstep, fun n hn => hnames n (List.mem_append_left _ hn)⟩
  · refine ⟨k, names ++ [s], hstep, fun n hn => ?_⟩
    rcases List.mem_append.1 hn with hn | hn
    · exact hnames n hn
    · rw [List.mem_singleton.1 hn]
      exact hname

theorem IsWay.foldl {pieces done : List String} (h : IsWay done.reverse)
    (hpieces : ∀ s ∈ pieces, '/' ∉ s.toList) :
    IsWay (pieces.foldl ModuleId.step done).reverse := by
  induction pieces generalizing done with
  | nil => exact h
  | cons piece pieces ih =>
    rw [List.foldl_cons]
    apply ih (h.step (hpieces piece List.mem_cons_self))
    exact fun s hs => hpieces s (List.mem_cons_of_mem _ hs)

theorem IsWay.no_slash {way : List String} (h : IsWay way) : ∀ s ∈ way, '/' ∉ s.toList := by
  obtain ⟨k, names, rfl, hnames⟩ := h
  intro s hs
  rcases List.mem_append.1 hs with hs | hs
  · rw [List.eq_of_mem_replicate hs]
    decide
  · exact (hnames s hs).no_slash

theorem IsWay.not_idle {way : List String} (h : IsWay way) : ∀ s ∈ way, isIdle s = false := by
  obtain ⟨k, names, rfl, hnames⟩ := h
  intro s hs
  rcases List.mem_append.1 hs with hs | hs
  · rw [List.eq_of_mem_replicate hs]
    decide
  · exact (hnames s hs).not_idle

theorem IsWay.ne_empty {way : List String} (h : IsWay way) : ∀ s ∈ way, s ≠ "" := by
  rintro s hs rfl
  exact absurd (h.not_idle "" hs) (by decide)

theorem follow_eq (directory : List String) (specifier : String) : follow directory specifier =
    ((Path.mk specifier).pieces.foldl step directory.reverse).reverse := rfl

/-- A way is what is left of itself. -/
theorem IsWay.foldl_self {way : List String} (h : IsWay way) : way.foldl ModuleId.step [] = way.reverse := by
  have hups : ∀ k, (List.replicate k "..").foldl ModuleId.step [] = List.replicate k ".." := by
    intro k
    induction k with
    | zero => rfl
    | succ k ih =>
      rw [List.replicate_succ', List.foldl_append, ih, List.foldl_cons, List.foldl_nil, step_ups,
        List.replicate_succ']
  obtain ⟨k, names, rfl, hnames⟩ := h
  rw [List.foldl_append, hups, foldl_step_names hnames, List.reverse_append, List.reverse_replicate]

/-- **Where a specifier leads is a way.** -/
theorem follow_isWay {here : List String} (hhere : IsWay here) (specifier : String) :
    IsWay (follow here specifier) := by
  rw [follow_eq]
  refine IsWay.foldl ?_ fun s hs => mem_pieces_no_slash hs
  rwa [List.reverse_reverse]

/-- A directory is a way itself, so that a specifier goes on from there. -/
theorem follow_eq_foldl {here : List String} (hhere : IsWay here) (specifier : String) :
    follow here specifier = ((here ++ (Path.mk specifier).pieces).foldl step []).reverse := by
  rw [follow_eq, List.foldl_append, hhere.foldl_self]

/-- **The way of a specifier is followed on from a directory above**, whatever that is. -/
theorem follow_append {here : List String} (front : List String) (hhere : ∀ n ∈ here, IsName n)
    (specifier : String) :
    follow (front ++ here) specifier =
      ((follow here specifier).foldl step front.reverse).reverse := by
  have hback : ∀ (x : List String) s, isIdle s = false → s ≠ ".." → step (step x s) ".." = x := by
    intro x s hs hup
    rw [step_other hs hup, step_up_of_ne x hup]
  rw [follow_eq_foldl (.of_names hhere), ← foldl_reduced (fun x s hs => step_idle hs) hback, follow_eq,
    List.reverse_append, List.foldl_append, foldl_step_names hhere]

end ModuleId

/-! ### The normal form of a path -/

namespace Path

open ModuleId

theorem steps_append (a b : List String) : steps (a ++ b) = steps a ++ steps b := by
  unfold steps
  rw [List.filter_append, List.map_append]

/-- Components are folded as pieces are, as long as there is no root. -/
theorem foldl_foldStep_relative (pieces done : List String) :
    (steps pieces).foldl foldStep (done.map Component.ofPiece) =
      (pieces.foldl step done).map Component.ofPiece := by
  induction pieces generalizing done with
  | nil => rfl
  | cons piece pieces ih =>
    rw [List.foldl_cons, ← ih]
    by_cases hidle : isIdle piece = true
    · rw [step_idle hidle, steps, List.filter_cons_of_neg (by simp [hidle])]
      rfl
    · rw [Bool.not_eq_true] at hidle
      rw [steps, List.filter_cons_of_pos (by simp [hidle]), List.map_cons, List.foldl_cons]
      have hstep : foldStep (done.map Component.ofPiece) (Component.ofPiece piece) =
          (step done piece).map Component.ofPiece := by
        by_cases hup : piece = ".."
        · subst hup
          cases done with
          | nil => rfl
          | cons last rest =>
            by_cases hlast : last = ".."
            · rw [hlast, step_up_up]
              rfl
            · rw [step_up_of_ne rest hlast]
              simp [Component.ofPiece, foldStep, hlast]
        · rw [step_other hidle hup]
          simp [Component.ofPiece, foldStep, hup]
      rw [hstep]
      rfl

/-- One piece after names from the root on: a step up at the root stays there. -/
def descend (names : List String) (piece : String) : List String :=
  if isIdle piece then names else if piece == ".." then names.dropLast else names ++ [piece]

theorem descend_names {ns : List String} (h : ∀ n ∈ ns, IsName n) (names : List String) :
    ns.foldl descend names = names ++ ns := by
  induction ns generalizing names with
  | nil => rw [List.append_nil]; rfl
  | cons n ns ih =>
    have hn := h n List.mem_cons_self
    have hstep : descend names n = names ++ [n] := by
      simp [descend, hn.not_idle, hn.ne_up]
    rw [List.foldl_cons, hstep, ih fun m hm => h m (List.mem_cons_of_mem _ hm), List.append_assoc]
    rfl

theorem descend_ups (k : Nat) (names : List String) :
    (List.replicate k "..").foldl descend names = names.take (names.length - k) := by
  induction k generalizing names with
  | zero => simp
  | succ k ih =>
    have hstep : descend names ".." = names.dropLast := rfl
    rw [List.replicate_succ, List.foldl_cons, hstep, ih, List.length_dropLast,
      List.dropLast_eq_take,
      List.take_take]
    congr 1
    omega

/-- Components are folded from the root on as names are. -/
theorem foldl_foldStep_names (pieces names : List String) :
    (steps pieces).foldl foldStep (names.reverse.map Component.name ++ [.root]) =
      (pieces.foldl descend names).reverse.map Component.name ++ [.root] := by
  induction pieces generalizing names with
  | nil => rfl
  | cons piece pieces ih =>
    rw [List.foldl_cons, ← ih]
    by_cases hidle : isIdle piece = true
    · rw [steps, List.filter_cons_of_neg (by simp [hidle]), descend, if_pos hidle]
      rfl
    · rw [Bool.not_eq_true] at hidle
      rw [steps, List.filter_cons_of_pos (by simp [hidle]), List.map_cons, List.foldl_cons]
      have hstep : foldStep (names.reverse.map Component.name ++ [.root])
          (Component.ofPiece piece) =
            (descend names piece).reverse.map Component.name ++ [.root] := by
        rw [descend, if_neg (by simp [hidle])]
        by_cases hup : piece = ".."
        · subst hup
          rcases List.eq_nil_or_concat names with rfl | ⟨front, last, rfl⟩
          · rfl
          · simp [Component.ofPiece, foldStep]
        · simp [Component.ofPiece, foldStep, hup]
      rw [hstep]
      rfl

/-- What passes over a leading dot does the same with the components of a path that is not absolute
as with the steps of its pieces. -/
theorem foldl_components_relative {α : Type} {f : α → Component → α} (hhere : ∀ x, f x .here = x)
    {p : Path} (h : p.isAbsolute = false) (x : α) :
    p.components.foldl f x = (steps p.pieces).foldl f x := by
  unfold components
  split
  · next rest hpieces =>
    rw [h, if_neg (by simp), hpieces, steps, steps, List.filter_cons_of_neg (by decide)]
  · next rest hpieces =>
    rw [hpieces, List.foldl_cons, hhere, steps, steps, List.filter_cons_of_neg (by decide)]
  · rfl

/-- The components of a relative path are folded to a way. -/
theorem fold_relative {p : Path} (h : p.isAbsolute = false) :
    ∃ way, IsWay way ∧ fold p.components = way.map Component.ofPiece := by
  have hway : IsWay (p.pieces.foldl step []).reverse :=
    IsWay.foldl (.of_names (by simp)) fun s hs => mem_pieces_no_slash hs
  have hsteps := foldl_foldStep_relative p.pieces []
  rw [List.map_nil] at hsteps
  refine ⟨_, hway, ?_⟩
  unfold fold
  rw [foldl_components_relative (fun _ => rfl) h, hsteps, List.map_reverse]

/-! ### A relative path after another -/

theorem pieces_append_slash (before after : String) :
    (Path.mk (before ++ "/" ++ after)).pieces =
      (Path.mk before).pieces ++ (Path.mk after).pieces := by
  unfold pieces
  rw [String.toList_append, String.toList_append, List.append_assoc,
    show ("/" : String).toList = ['/'] from rfl, List.singleton_append, split_append_sep,
    List.map_append]

theorem isAbsolute_of_no_slash {s : String} (h : '/' ∉ s.toList) :
    (Path.mk s).isAbsolute = false := by
  have hhead : s.toList.head? ≠ some '/' := fun hs => h (List.mem_of_head? hs)
  simp [isAbsolute, hhead]

/-- A path that ends with a piece that is not empty is continued after a slash. -/
theorem join_ofPieces {front : List String} {n s : String} (hn : n ≠ "") (hslash : '/' ∉ n.toList)
    (hs : (Path.mk s).isAbsolute = false) :
    (ofPieces (front ++ [n])).join ⟨s⟩ = ⟨(ofPieces (front ++ [n])).text ++ "/" ++ s⟩ := by
  have hne : n.toList ≠ [] := fun h => hn (by simpa using h)
  have hend : (ofPieces (front ++ [n])).text.toList.getLast? = n.toList.getLast? := by
    unfold ofPieces
    by_cases hfront : front = []
    · simp [hfront]
    · rw [String.intercalate_append_of_ne_nil hfront (by simp), String.intercalate_singleton]
      simp [List.getLast?_append, List.getLast?_eq_some_getLast hne,
        List.getLast?_cons_of_ne_nil hne]
  have hnoslash : n.toList.getLast? ≠ some '/' := fun h => hslash (List.mem_of_getLast? h)
  have htext : (ofPieces (front ++ [n])).text ≠ "" := by
    intro hempty
    rw [hempty] at hend
    exact hne (List.getLast?_eq_none_iff.1 hend.symm)
  unfold join
  rw [hs, if_neg (by simp), hend, if_neg]
  rw [Bool.or_eq_true, beq_iff_eq, beq_iff_eq, not_or]
  exact ⟨htext, hnoslash⟩

theorem pieces_join_ofPieces {front : List String} {n s : String} (hn : n ≠ "")
    (hslash : ∀ m ∈ front ++ [n], '/' ∉ m.toList) (hs : (Path.mk s).isAbsolute = false) :
    ((ofPieces (front ++ [n])).join ⟨s⟩).pieces = front ++ [n] ++ (Path.mk s).pieces := by
  rw [join_ofPieces hn (hslash n (by simp)) hs, pieces_append_slash]
  exact congrArg (· ++ _) (pieces_intercalate (by simp) hslash)

/-- **One piece after others**, none of which is empty. -/
theorem join_ofPieces_piece {ns : List String} (hne : ∀ n ∈ ns, n ≠ "")
    (hslash : ∀ n ∈ ns, '/' ∉ n.toList) {s : String} (hs : '/' ∉ s.toList) :
    (ofPieces ns).join ⟨s⟩ = ofPieces (ns ++ [s]) := by
  have habs := isAbsolute_of_no_slash hs
  rcases List.eq_nil_or_concat ns with rfl | ⟨front, n, rfl⟩
  · simp [ofPieces, join, habs]
  · rw [List.concat_eq_append] at hne hslash ⊢
    rw [join_ofPieces (hne n (by simp)) (hslash n (by simp)) habs]
    have hsome : front ++ [n] ≠ [] := List.append_ne_nil_of_right_ne_nil _ (by simp)
    unfold ofPieces
    rw [String.intercalate_append_of_ne_nil hsome (by simp), String.intercalate_singleton]

/-- The path with the components of a way. -/
theorem ofComponents_way {way : List String} (hslash : ∀ s ∈ way, '/' ∉ s.toList)
    (hidle : ∀ s ∈ way, isIdle s = false) :
    ofComponents (way.map Component.ofPiece) = ofPieces way := by
  have htext : ∀ s : String, (Component.ofPiece s).text = s := by
    intro s
    by_cases hup : s = ".."
    · rw [hup]; rfl
    · simp [Component.ofPiece, hup, Component.text]
  induction way using List.reverseRecOn with
  | nil => rfl
  | append_singleton way last ih =>
    have ih := ih (fun s hs => hslash s (List.mem_append_left _ hs))
      fun s hs => hidle s (List.mem_append_left _ hs)
    have hne : ∀ s ∈ way, s ≠ "" := by
      rintro s hs rfl
      exact absurd (hidle "" (List.mem_append_left _ hs)) (by decide)
    unfold ofComponents at ih ⊢
    rw [List.map_append, List.foldl_append, ih, List.map_singleton, List.foldl_cons, List.foldl_nil,
      htext]
    exact join_ofPieces_piece hne (fun s hs => hslash s (List.mem_append_left _ hs))
      (hslash last (by simp))

/-- The pieces of a path with names that a relative path goes on from. -/
theorem pieces_join_names {ns : List String} (hns : ∀ n ∈ ns, IsName n) {s : String}
    (hs : (Path.mk s).isAbsolute = false) :
    ((ofNames ns).join ⟨s⟩).pieces = "" :: (ns ++ (Path.mk s).pieces) := by
  rcases List.eq_nil_or_concat ns with rfl | ⟨front, n, rfl⟩
  · have htext : (ofNames []).join ⟨s⟩ = ⟨"" ++ "/" ++ s⟩ := by simp [ofNames, join, hs]
    rw [htext, pieces_append_slash]
    rfl
  · rw [List.concat_eq_append] at hns ⊢
    have hpath : ofNames (front ++ [n]) = ofPieces ("" :: front ++ [n]) := by
      unfold ofNames ofPieces
      rw [List.cons_append, String.intercalate_cons_of_ne_nil (by simp), String.empty_append]
    have hslash : ∀ m ∈ "" :: front ++ [n], '/' ∉ m.toList := by
      intro m hm
      rcases List.mem_cons.1 hm with rfl | hm
      · decide
      · exact (hns m hm).no_slash
    rw [hpath, pieces_join_ofPieces (hns n (by simp)).ne_empty hslash hs]
    rfl

/-- **The normal form of a relative path read from an absolute one** is where it leads from
there. -/
theorem normalize_join_names {ns : List String} (hns : ∀ n ∈ ns, IsName n) {s : String}
    (hs : (Path.mk s).isAbsolute = false) :
    ((ofNames ns).join ⟨s⟩).normalize = ofNames ((Path.mk s).pieces.foldl descend ns) := by
  have habs : ((ofNames ns).join ⟨s⟩).isAbsolute = true := isAbsolute_join (isAbsolute_ofNames ns)
  have hpieces := pieces_join_names hns hs
  have hcomponents : ((ofNames ns).join ⟨s⟩).components =
      .root :: (steps ns ++ steps (Path.mk s).pieces) := by
    unfold components
    rw [hpieces]
    simp only [habs, if_true]
    rw [steps_append]
  -- all names that are left come from the names so far or are pieces of the path
  have hleft : ∀ n ∈ (Path.mk s).pieces.foldl descend ns, IsName n := by
    have hsteps : ∀ c ∈ steps (Path.mk s).pieces,
        c = .here ∨ c = .up ∨ ∃ n, IsName n ∧ c = .name n :=
      fun c hc => mem_steps (fun t ht => mem_pieces_no_slash ht) hc
    have hstack := foldl_isStack hsteps ⟨ns, hns, rfl⟩
    rw [foldl_foldStep_names] at hstack
    obtain ⟨ks, hks, heq⟩ := hstack
    have hinj : Function.Injective Component.name := fun a b hab => Component.name.inj hab
    have : (Path.mk s).pieces.foldl descend ns = ks :=
      List.reverse_injective (List.map_injective_iff.2 hinj (List.append_cancel_right heq))
    rw [this]
    exact hks
  have hnames : (steps ns).foldl foldStep [.root] = ns.reverse.map Component.name ++ [.root] := by
    have := foldl_foldStep_names ns []
    rwa [descend_names hns, List.nil_append] at this
  have hfold : fold ((ofNames ns).join ⟨s⟩).components =
      .root :: ((Path.mk s).pieces.foldl descend ns).map .name := by
    unfold fold
    rw [hcomponents, List.foldl_cons, show foldStep [] .root = [.root] from rfl, List.foldl_append,
      hnames, foldl_foldStep_names]
    simp
  unfold normalize
  rw [hfold]
  exact ofComponents_names hleft

/-- A step up takes back a name, also from the root on. -/
theorem foldl_descend_reduced (pieces names : List String) :
    pieces.foldl descend names = (pieces.foldl step []).reverse.foldl descend names := by
  refine foldl_reduced (fun x s hs => ?_) (fun x s hs hup => ?_) names pieces
  · rw [descend, if_pos hs]
  · have hstep : descend x s = x ++ [s] := by simp [descend, hs, hup]
    rw [hstep]
    exact List.dropLast_concat

/-- **A relative path in a directory below a root leads to where its way leads from the root**: up
from the root as far as there is something above it, and down from there. -/
theorem normalize_join_way {rs here : List String} (h : ∀ n ∈ rs ++ here, IsName n) {s : String}
    (hs : (Path.mk s).isAbsolute = false) {k : Nat} {names : List String}
    (hway : follow here s = List.replicate k ".." ++ names) (hnames : ∀ n ∈ names, IsName n) :
    ((ofNames (rs ++ here)).join ⟨s⟩).normalize = ofNames (rs.take (rs.length - k) ++ names) := by
  have hhere : ∀ n ∈ here, IsName n := fun n hn => h n (List.mem_append_right _ hn)
  rw [normalize_join_names h hs, ← descend_names hhere rs, ← List.foldl_append,
    foldl_descend_reduced, ← follow_eq_foldl (.of_names hhere), hway, List.foldl_append, descend_ups,
    descend_names hnames]

/-- **The normal form of a relative path** is its way, and a dot if it leads nowhere. -/
theorem normalize_join_relative {here : List String} (hhere : IsWay here) {s : String}
    (hs : (Path.mk s).isAbsolute = false) :
    ((ofPieces here).join ⟨s⟩).normalize =
      if follow here s = [] then ⟨"."⟩ else ofPieces (follow here s) := by
  have hpieces : ((ofPieces here).join ⟨s⟩).pieces = here ++ (Path.mk s).pieces := by
    rcases List.eq_nil_or_concat here with rfl | ⟨front, n, rfl⟩
    · simp [ofPieces, join, hs]
    · rw [List.concat_eq_append] at hhere ⊢
      exact pieces_join_ofPieces (hhere.ne_empty n (by simp)) hhere.no_slash hs
  have habs : ((ofPieces here).join ⟨s⟩).isAbsolute = false := by
    cases here with
    | nil => simp [ofPieces, join, hs]
    | cons n here =>
      -- the first piece is not empty, and that of an absolute path is
      rw [← Bool.not_eq_true]
      intro htrue
      obtain ⟨rest, hrest⟩ := pieces_of_isAbsolute htrue
      rw [hpieces] at hrest
      exact hhere.ne_empty n List.mem_cons_self (List.cons.inj hrest).1
  have hfold : fold ((ofPieces here).join ⟨s⟩).components =
      (follow here s).map Component.ofPiece := by
    have hrelative := foldl_foldStep_relative (here ++ (Path.mk s).pieces) []
    rw [List.map_nil] at hrelative
    unfold fold
    rw [foldl_components_relative (fun _ => rfl) habs, hpieces, hrelative, ← List.map_reverse,
      ← follow_eq_foldl hhere]
  have hway := follow_isWay hhere s
  unfold normalize
  rw [hfold]
  cases hcase : follow here s with
  | nil => rfl
  | cons piece way =>
    rw [hcase] at hway
    exact ofComponents_way hway.no_slash hway.not_idle

/-! ### The directory of a path -/

theorem trimEnd_ofNames {ns : List String} (h : ∀ n ∈ ns, IsName n) :
    (ofNames ns).trimEnd = ofNames ns := by
  cases ns with
  | nil => decide
  | cons n ns =>
    unfold trimEnd
    rw [pieces_ofNames h]
    simp only [isAbsolute_ofNames, if_true]
    rw [trimBack_names h]
    rfl

/-- **The rest of a path below another**, or of the path itself. -/
theorem relativeTo?_names {rs ns : List String} (h : ∀ n ∈ rs ++ ns, IsName n) :
    (ofNames (rs ++ ns)).relativeTo? (ofNames rs) = some (ofPieces ns) := by
  by_cases hne : ns = []
  · subst hne
    rw [List.append_nil] at h ⊢
    have hidle : trimPieces ((ofNames rs).piecesAfter (rs.length + 1)) = [] := by
      unfold piecesAfter
      rw [components_ofNames h]
      cases rs with
      | nil => decide
      | cons r rs =>
        have hdrop := dropSteps_names [] h
        rw [List.append_nil] at hdrop
        rw [pieces_ofNames h]
        exact congrArg trimPieces hdrop
    unfold relativeTo?
    rw [if_pos ((startsWith_ofNames h h).2 List.prefix_rfl), components_ofNames h]
    simp only [List.length_cons, List.length_map]
    rw [hidle]
  · exact relativeTo?_ofNames hne h

/-- **The directory of a path with names.** -/
theorem parent?_ofNames {ns : List String} {n : String} (h : ∀ m ∈ ns ++ [n], IsName m) :
    (ofNames (ns ++ [n])).parent? = some (ofNames ns) := by
  have hpieces : (ofNames (ns ++ [n])).pieces = "" :: (ns ++ [n]) := by
    cases ns with
    | nil => exact pieces_ofNames h
    | cons m ns => exact pieces_ofNames h
  have hlast : (ofNames (ns ++ [n])).components.getLast? = some (.name n) := by
    rw [components_ofNames h]
    simp [List.getLast?_cons_of_ne_nil]
  unfold parent?
  rw [hlast, hpieces]
  simp only [isAbsolute_ofNames, if_true]
  rw [trimBack_names h, List.dropLast_concat]
  exact congrArg some (trimEnd_ofNames fun m hm => h m (List.mem_append_left _ hm))

/-- **A file below a root**, by the names of the root, of its directory from there, and its own. -/
theorem IsBelow.exists_file {p base here : Path} (hp : p.IsNormal) (hb : base.IsNormal)
    (h : p.IsBelow base) (hhere : p.parent? = some here) :
    ∃ dirs file, (∀ n ∈ base.names ++ (dirs ++ [file]), IsName n) ∧ base = ofNames base.names ∧
      p = ofNames (base.names ++ (dirs ++ [file])) ∧ here = ofNames (base.names ++ dirs) ∧
      p.fileName? = some file := by
  obtain ⟨rs, ns, hne, hnames, rfl, rfl⟩ := h.exists_names hp hb
  obtain ⟨dirs, file, rfl⟩ : ∃ dirs file, ns = dirs ++ [file] :=
    ⟨_, _, (List.dropLast_append_getLast hne).symm⟩
  have hbase : (ofNames rs).names = rs :=
    names_ofNames fun n hn => hnames n (List.mem_append_left _ hn)
  have hassoc : ∀ n ∈ rs ++ dirs ++ [file], IsName n := by rwa [List.append_assoc]
  rw [← List.append_assoc, parent?_ofNames hassoc] at hhere
  refine ⟨dirs, file, ?_, ?_, ?_, ?_, ?_⟩
  · rwa [hbase]
  · rw [hbase]
  · rw [hbase]
  · rw [hbase]
    exact (Option.some.inj hhere).symm
  · rw [← List.append_assoc]
    exact fileName?_ofNames hassoc

end Path

end AmbientBundle

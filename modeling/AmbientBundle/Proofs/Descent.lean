import AmbientBundle.Proofs.Ways

/-!
# Paths below a directory

A path that continues another has the pieces of both. So its components are those of the one and
then those of the other, and what is left of it below a directory that the first one lies in is what
is left of the first one, and then the second one.

* `stem`, `pieces_join`: the pieces of a path before those that continue it.
* `components_join`: the components of a path that is continued.
* `relativeTo?_join`, `relativeTo?_join_self`: **what is left of a path that is continued.**
* `into`: a path continued by names; `normalize_into`: its normal form.
-/

namespace AmbientBundle.Path

open Text

variable {p q base : Path} {pieces ns ms : List String} {s : String}

/-- A piece that is a step: a name, or the step up. -/
structure IsStep (s : String) : Prop where
  not_idle : isIdle s = false
  no_slash : '/' ∉ s.toList

theorem IsName.isStep (h : IsName s) : IsStep s := ⟨h.not_idle, h.no_slash⟩

theorem IsStep.ne_empty (h : IsStep s) : s ≠ "" := by
  rintro rfl
  exact absurd h.not_idle (by decide)

theorem IsStep.ne_here (h : IsStep s) : s ≠ "." := by
  rintro rfl
  exact absurd h.not_idle (by decide)

/-! ### Pieces -/

/-- A path is told by its pieces. -/
theorem ofPieces_pieces (p : Path) : ofPieces p.pieces = p := by
  have htext : "/".intercalate p.pieces = p.text := by
    rw [← String.toList_inj, String.toList_intercalate]
    unfold Path.pieces
    rw [List.map_map, split_eq_splitOn]
    have hid : String.toList ∘ String.ofList = id := funext fun _ => String.toList_ofList
    rw [hid, List.map_id]
    exact List.intercalate_splitOn '/'
  unfold ofPieces
  rw [htext]

theorem pieces_ofPieces (hne : ns ≠ []) (h : ∀ n ∈ ns, IsStep n) : (ofPieces ns).pieces = ns :=
  pieces_intercalate hne fun n hn => (h n hn).no_slash

theorem isAbsolute_ofPieces_steps (h : ∀ n ∈ ns, IsStep n) : (ofPieces ns).isAbsolute = false := by
  cases ns with
  | nil => decide
  | cons n ns =>
    have hn := h n List.mem_cons_self
    by_contra habs
    obtain ⟨rest, hrest⟩ := pieces_of_isAbsolute (Bool.not_eq_false _ ▸ habs)
    rw [pieces_ofPieces (List.cons_ne_nil n ns) h] at hrest
    exact hn.ne_empty (List.cons.inj hrest).1

theorem pieces_ne_nil (p : Path) : p.pieces ≠ [] := by
  unfold Path.pieces
  simp [split_ne_nil]

/-- **The pieces of a path before those of one that continues it**: an empty piece at its end is a
slash that is there already. -/
def stem (p : Path) : List String :=
  if p.pieces.getLast? = some "" then p.pieces.dropLast else p.pieces

/-- Where a path ends with an empty piece. -/
theorem getLast?_pieces_eq_empty :
    p.pieces.getLast? = some "" ↔ p.text = "" ∨ p.text.toList.getLast? = some '/' := by
  constructor
  · intro h
    obtain ⟨front, hfront⟩ := List.getLast?_eq_some_iff.1 h
    have hp := ofPieces_pieces p
    rw [hfront] at hp
    rw [← hp]
    unfold ofPieces
    by_cases hnil : front = []
    · exact .inl (by simp [hnil])
    · refine .inr ?_
      rw [String.intercalate_append_of_ne_nil hnil (by simp)]
      simp
  · rintro (h | h)
    · have hp : p = ⟨""⟩ := by rw [← h]
      rw [hp]
      decide
    · obtain ⟨front, hfront⟩ := List.getLast?_eq_some_iff.1 h
      have hp : p = ⟨String.ofList front ++ "/" ++ ""⟩ := by
        rw [Path.mk.injEq, ← String.toList_inj, hfront]
        simp
      rw [hp, pieces_append_slash]
      simp [Path.pieces, split]

/-- **The pieces of a path that is continued.** -/
theorem pieces_join (h : q.isAbsolute = false) : (p.join q).pieces = p.stem ++ q.pieces := by
  unfold join stem
  rw [h, if_neg (by simp)]
  by_cases hempty : p.text = ""
  · have hp : p = ⟨""⟩ := by rw [← hempty]
    rw [if_pos (by simp [hempty]), if_pos (getLast?_pieces_eq_empty.2 (.inl hempty)), hp]
    simp [Path.pieces, split]
  · by_cases hslash : p.text.toList.getLast? = some '/'
    · rw [if_pos (by simp [hslash]), if_pos (getLast?_pieces_eq_empty.2 (.inr hslash))]
      obtain ⟨front, hfront⟩ := List.getLast?_eq_some_iff.1 hslash
      have htext : p.text = String.ofList front ++ "/" := by
        rw [← String.toList_inj, hfront]
        simp
      have hp : p = ⟨String.ofList front ++ "/" ++ ""⟩ := by
        rw [String.append_empty, ← htext]
      have hpieces : p.pieces = (Path.mk (String.ofList front)).pieces ++ [""] := by
        rw [hp, pieces_append_slash]
        simp [Path.pieces, split]
      rw [hpieces, List.dropLast_concat, htext, pieces_append_slash]
    · have hlast : ¬ p.pieces.getLast? = some "" := by
        rw [getLast?_pieces_eq_empty]
        exact not_or.2 ⟨hempty, hslash⟩
      rw [if_neg (by simp [hempty, hslash]), if_neg hlast, pieces_append_slash]

/-- The stem of a path that ends with a step are all of its pieces. -/
theorem stem_join (hne : ns ≠ []) (h : ∀ n ∈ ns, IsStep n) :
    (p.join (ofPieces ns)).stem = p.stem ++ ns := by
  have hpieces := pieces_join (p := p) (isAbsolute_ofPieces_steps h)
  rw [pieces_ofPieces hne h] at hpieces
  unfold stem
  rw [hpieces, if_neg]
  · rfl
  · rcases List.eq_nil_or_concat ns with rfl | ⟨front, n, rfl⟩
    · exact absurd rfl hne
    · rw [List.concat_eq_append] at h ⊢
      rw [← List.append_assoc, List.getLast?_append, List.getLast?_singleton]
      intro hlast
      exact (h n (by simp)).ne_empty (Option.some.inj hlast)

/-! ### Components -/

/-- The components that pieces give, where an empty first piece is the root. -/
def stepsOf : List String → List Component
  | "" :: rest => .root :: steps rest
  | "." :: rest => .here :: steps rest
  | all => steps all

theorem stepsOf_cons_of_ne {rest : List String} (hempty : s ≠ "") (hhere : s ≠ ".") :
    stepsOf (s :: rest) = steps (s :: rest) := by
  unfold stepsOf
  split
  · next heq => exact absurd (List.cons.inj heq).1 hempty
  · next heq => exact absurd (List.cons.inj heq).1 hhere
  · rfl

theorem stepsOf_append (hne : pieces ≠ []) (more : List String) :
    stepsOf (pieces ++ more) = stepsOf pieces ++ steps more := by
  obtain ⟨s, rest, rfl⟩ := List.exists_cons_of_ne_nil hne
  rw [List.cons_append]
  by_cases hempty : s = ""
  · subst hempty
    exact congrArg (Component.root :: ·) (steps_append rest more)
  · by_cases hhere : s = "."
    · subst hhere
      exact congrArg (Component.here :: ·) (steps_append rest more)
    · rw [stepsOf_cons_of_ne hempty hhere, stepsOf_cons_of_ne hempty hhere, ← List.cons_append,
        steps_append]

theorem steps_of_isStep (h : ∀ n ∈ ns, IsStep n) : steps ns = ns.map Component.ofPiece := by
  unfold steps
  rw [List.filter_eq_self.2 fun n hn => by simp [(h n hn).not_idle]]

/-- An empty piece with more after it is a slash at the front. -/
theorem isAbsolute_of_pieces {rest : List String} (hne : rest ≠ []) (h : p.pieces = "" :: rest) :
    p.isAbsolute = true := by
  have hp := ofPieces_pieces p
  rw [h] at hp
  rw [← hp]
  unfold ofPieces isAbsolute
  rw [String.intercalate_cons_of_ne_nil hne]
  simp

/-- The components are those that the pieces give, the empty path apart. -/
theorem components_eq_stepsOf (h : p.pieces ≠ [""]) : p.components = stepsOf p.pieces := by
  obtain ⟨s, rest, hrest⟩ := List.exists_cons_of_ne_nil (pieces_ne_nil p)
  unfold components
  rw [hrest] at h ⊢
  by_cases hempty : s = ""
  · subst hempty
    have hne : rest ≠ [] := by
      rintro rfl
      exact h rfl
    simp only [isAbsolute_of_pieces hne hrest, if_true]
    rfl
  · by_cases hhere : s = "."
    · subst hhere
      rfl
    · rw [stepsOf_cons_of_ne hempty hhere]
      split
      · next heq => exact absurd (List.cons.inj heq).1 hempty
      · next heq => exact absurd (List.cons.inj heq).1 hhere
      · rfl

/-- **The components of a path** are those of its stem. -/
theorem components_eq (p : Path) : p.components = stepsOf p.stem := by
  unfold stem
  split
  · next hlast =>
    -- the piece after the last slash is no step
    obtain ⟨front, hfront⟩ := List.getLast?_eq_some_iff.1 hlast
    by_cases hnil : front = []
    · subst hnil
      have hp := ofPieces_pieces p
      rw [hfront] at hp
      rw [← hp]
      decide
    · rw [components_eq_stepsOf (by rw [hfront]; simp [hnil]), hfront, List.dropLast_concat,
        stepsOf_append hnil]
      exact List.append_nil _
  · next hlast =>
    refine components_eq_stepsOf fun hpieces => hlast ?_
    rw [hpieces]
    rfl

/-- **The components of a path that is continued by steps.** -/
theorem components_join (hne : ns ≠ []) (h : ∀ n ∈ ns, IsStep n) :
    (p.join (ofPieces ns)).components = p.components ++ ns.map Component.ofPiece := by
  rw [components_eq, components_eq, stem_join hne h, ← steps_of_isStep h]
  by_cases hstem : p.stem = []
  · obtain ⟨n, rest, rfl⟩ := List.exists_cons_of_ne_nil hne
    have hn := h n List.mem_cons_self
    rw [hstem]
    exact stepsOf_cons_of_ne hn.ne_empty hn.ne_here
  · exact stepsOf_append hstem ns

/-! ### What is left of a path -/

theorem steps_dropWhile (pieces : List String) :
    steps (pieces.dropWhile isIdle) = steps pieces := by
  induction pieces with
  | nil => rfl
  | cons s rest ih =>
    by_cases hidle : isIdle s = true
    · rw [List.dropWhile_cons_of_pos hidle, ih]
      unfold steps
      rw [List.filter_cons_of_neg (by simp [hidle])]
    · rw [List.dropWhile_cons_of_neg hidle]

/-- The pieces from the first step on. -/
theorem steps_eq_cons {rest : List String} (h : pieces.dropWhile isIdle = s :: rest) :
    steps pieces = Component.ofPiece s :: steps rest := by
  have hidle : isIdle s = false := by
    have hhead := List.head_dropWhile_not (p := isIdle) (l := pieces) (by rw [h]; simp)
    simpa [h] using hhead
  rw [← steps_dropWhile, h]
  unfold steps
  rw [List.filter_cons_of_pos (by simp [hidle]), List.map_cons]

theorem dropWhile_eq_nil_of_steps (h : steps pieces = []) : pieces.dropWhile isIdle = [] := by
  cases hdrop : pieces.dropWhile isIdle with
  | nil => rfl
  | cons s rest =>
    rw [steps_eq_cons hdrop] at h
    cases h

theorem exists_dropWhile_eq (h : steps pieces ≠ []) :
    ∃ s rest, pieces.dropWhile isIdle = s :: rest := by
  refine List.exists_cons_of_ne_nil fun hdrop => h ?_
  rw [← steps_dropWhile, hdrop]
  rfl

theorem dropSteps_append {n : Nat} (hn : n ≤ (steps pieces).length) (more : List String) :
    dropSteps n (pieces ++ more) = dropSteps n pieces ++ more := by
  induction n generalizing pieces with
  | zero => rfl
  | succ n ih =>
    have hne : steps pieces ≠ [] := List.ne_nil_of_length_pos (by omega)
    obtain ⟨s, rest, hdrop⟩ := exists_dropWhile_eq hne
    have hsteps := steps_eq_cons hdrop
    rw [hsteps, List.length_cons] at hn
    have hmore : (pieces ++ more).dropWhile isIdle = s :: rest ++ more := by
      rw [List.dropWhile_append, hdrop]
      rfl
    rw [dropSteps, dropSteps, hmore, hdrop]
    exact ih (by omega)

theorem steps_dropSteps {n : Nat} (hn : n ≤ (steps pieces).length) :
    steps (dropSteps n pieces) = (steps pieces).drop n := by
  induction n generalizing pieces with
  | zero => rfl
  | succ n ih =>
    have hne : steps pieces ≠ [] := List.ne_nil_of_length_pos (by omega)
    obtain ⟨s, rest, hdrop⟩ := exists_dropWhile_eq hne
    have hsteps := steps_eq_cons hdrop
    rw [hsteps, List.length_cons] at hn
    rw [dropSteps, hdrop, hsteps, List.drop_succ_cons]
    exact ih (by simpa using hn)

/-- The pieces after the first `n` components, for `n` at least one. -/
def tailAfter (n : Nat) : List String → List String
  | "" :: rest => dropSteps (n - 1) rest
  | "." :: rest => dropSteps (n - 1) rest
  | all => dropSteps n all

theorem tailAfter_cons_of_ne {n : Nat} {rest : List String} (hempty : s ≠ "") (hhere : s ≠ ".") :
    tailAfter n (s :: rest) = dropSteps n (s :: rest) := by
  unfold tailAfter
  split
  · next heq => exact absurd (List.cons.inj heq).1 hempty
  · next heq => exact absurd (List.cons.inj heq).1 hhere
  · rfl

/-- **What is left of pieces that go on** is what is left of them, and then those that go on. The
steps of what is left are those that were not passed. -/
theorem tailAfter_append {n : Nat} (hpos : 0 < n) (hn : n ≤ (stepsOf pieces).length)
    (more : List String) :
    tailAfter n (pieces ++ more) = tailAfter n pieces ++ more ∧
      steps (tailAfter n pieces) = (stepsOf pieces).drop n := by
  obtain ⟨n, rfl⟩ := Nat.exists_eq_add_of_lt hpos
  rw [Nat.zero_add] at hn ⊢
  cases pieces with
  | nil => exact absurd hn (by simp [stepsOf, steps])
  | cons s rest =>
    rw [List.cons_append]
    by_cases hempty : s = ""
    · subst hempty
      have hlen : n ≤ (steps rest).length := Nat.le_of_succ_le_succ hn
      exact ⟨dropSteps_append hlen more, steps_dropSteps hlen⟩
    · by_cases hhere : s = "."
      · subst hhere
        have hlen : n ≤ (steps rest).length := Nat.le_of_succ_le_succ hn
        exact ⟨dropSteps_append hlen more, steps_dropSteps hlen⟩
      · rw [stepsOf_cons_of_ne hempty hhere] at hn ⊢
        rw [tailAfter_cons_of_ne hempty hhere, tailAfter_cons_of_ne hempty hhere,
          ← List.cons_append]
        exact ⟨dropSteps_append hn more, steps_dropSteps hn⟩

/-- The pieces after components, of a path that is not empty. -/
theorem piecesAfter_eq (h : p.pieces ≠ [""]) (n : Nat) :
    p.piecesAfter n = tailAfter n p.pieces := by
  obtain ⟨s, rest, hrest⟩ := List.exists_cons_of_ne_nil (pieces_ne_nil p)
  unfold piecesAfter
  rw [components_eq_stepsOf h, hrest]
  by_cases hempty : s = ""
  · subst hempty
    rfl
  · by_cases hhere : s = "."
    · subst hhere
      rfl
    · have hnot : ∀ c cs, (c = .root ∨ c = .here) → steps (s :: rest) ≠ c :: cs := by
        intro c cs hc hsteps
        have hmem : c ∈ steps (s :: rest) := hsteps ▸ List.mem_cons_self
        obtain ⟨t, -, rfl⟩ := List.mem_map.1 hmem
        unfold Component.ofPiece at hc
        split at hc <;> simp at hc
      rw [tailAfter_cons_of_ne hempty hhere, stepsOf_cons_of_ne hempty hhere]
      split
      · next hsteps => exact absurd hsteps (hnot _ _ (.inl rfl))
      · next hsteps => exact absurd hsteps (hnot _ _ (.inr rfl))
      · rfl

theorem trimBack_of_getLast? (hs : isIdle s = false) (h : pieces.getLast? = some s) :
    trimBack pieces = pieces := by
  obtain ⟨front, rfl⟩ := List.getLast?_eq_some_iff.1 h
  unfold trimBack
  rw [List.reverse_concat, List.dropWhile_cons_of_neg (by simp [hs]), ← List.reverse_concat,
    List.reverse_reverse]

/-- A path that ends with a step has nothing to trim. -/
theorem trimEnd_of_getLast? (hs : isIdle s = false) (h : p.pieces.getLast? = some s) :
    p.trimEnd = p := by
  -- an idle first piece is not the last one
  have htail : ∀ first rest, isIdle first = true → p.pieces = first :: rest →
      rest.getLast? = some s := by
    intro first rest hfirst hrest
    rw [hrest, List.getLast?_cons] at h
    cases hlast : rest.getLast? with
    | none =>
      rw [hlast] at h
      rw [← Option.some.inj h, Option.getD_none, hfirst] at hs
      cases hs
    | some t =>
      rw [hlast] at h
      exact h
  have hp := ofPieces_pieces p
  unfold trimEnd
  split
  · next rest hrest =>
    have hlast := htail "" rest (by decide) hrest
    have hne : rest ≠ [] := by
      rintro rfl
      cases hlast
    rw [if_pos (isAbsolute_of_pieces hne hrest), trimBack_of_getLast? hs hlast]
    rw [hrest] at hp
    unfold trimEnd.ofRooted
    rw [← hp, ofPieces, String.intercalate_cons_of_ne_nil hne, String.empty_append]
  · next rest hrest =>
    rw [trimBack_of_getLast? hs (htail "." rest (by decide) hrest), ← hrest, hp]
  · rw [trimBack_of_getLast? hs h, hp]

/-- Pieces that end with steps are trimmed at their front only. -/
theorem trimPieces_append (hne : ns ≠ []) (h : ∀ n ∈ ns, IsStep n) (pieces : List String) :
    trimPieces (pieces ++ ns) = pieces.dropWhile isIdle ++ ns := by
  have hdrop : (pieces ++ ns).dropWhile isIdle = pieces.dropWhile isIdle ++ ns := by
    rw [List.dropWhile_append]
    split
    · next hempty =>
      obtain ⟨n, rest, rfl⟩ := List.exists_cons_of_ne_nil hne
      rw [List.isEmpty_iff.1 hempty, List.nil_append,
        List.dropWhile_cons_of_neg (by simp [(h n List.mem_cons_self).not_idle])]
    · rfl
  unfold trimPieces
  rw [hdrop]
  rcases List.eq_nil_or_concat ns with rfl | ⟨front, n, rfl⟩
  · exact absurd rfl hne
  · rw [List.concat_eq_append] at h ⊢
    refine trimBack_of_getLast? (h n (by simp)).not_idle ?_
    rw [← List.append_assoc, List.getLast?_append, List.getLast?_singleton]
    rfl

/-- The pieces of a path that are left below a directory of `n` components. -/
def remainder (p : Path) (n : Nat) : List String :=
  if n = 0 then p.stem else (tailAfter n p.stem).dropWhile isIdle

theorem startsWith_join (hne : ns ≠ []) (h : ∀ n ∈ ns, IsStep n) (hp : p.startsWith base = true) :
    (p.join (ofPieces ns)).startsWith base = true := by
  unfold startsWith at hp ⊢
  rw [components_join hne h, List.isPrefixOf_iff_prefix]
  exact (List.isPrefixOf_iff_prefix.1 hp).trans (List.prefix_append _ _)

theorem pieces_join_steps (hne : ns ≠ []) (h : ∀ n ∈ ns, IsStep n) :
    (p.join (ofPieces ns)).pieces = p.stem ++ ns := by
  rw [pieces_join (isAbsolute_ofPieces_steps h), pieces_ofPieces hne h]

/-- **What is left of a path that is continued** below a directory that the path lies in is what is
left of the path, continued in the same way. -/
theorem relativeTo?_join (hne : ns ≠ []) (h : ∀ n ∈ ns, IsStep n)
    (hp : p.startsWith base = true) :
    (p.join (ofPieces ns)).relativeTo? base =
      some (ofPieces (p.remainder base.components.length ++ ns)) := by
  have hpieces := pieces_join_steps (p := p) hne h
  obtain ⟨s, hs, hlast⟩ : ∃ s, isIdle s = false ∧
      (p.join (ofPieces ns)).pieces.getLast? = some s := by
    rcases List.eq_nil_or_concat ns with rfl | ⟨front, n, rfl⟩
    · exact absurd rfl hne
    · rw [List.concat_eq_append] at h hpieces ⊢
      refine ⟨n, (h n (by simp)).not_idle, ?_⟩
      rw [hpieces, ← List.append_assoc, List.getLast?_append, List.getLast?_singleton]
      rfl
  have hnot : (p.join (ofPieces ns)).pieces ≠ [""] := by
    intro heq
    rw [heq] at hlast
    rw [← Option.some.inj hlast] at hs
    exact absurd hs (by decide)
  have hlen : base.components.length ≤ (stepsOf p.stem).length := by
    rw [← components_eq]
    exact (List.isPrefixOf_iff_prefix.1 hp).length_le
  unfold relativeTo? remainder
  rw [if_pos (startsWith_join hne h hp)]
  split
  · next hzero =>
    rw [hzero, if_pos rfl, trimEnd_of_getLast? hs hlast, ← hpieces, ofPieces_pieces]
  · next n hpos =>
    have hpos : 0 < base.components.length := Nat.pos_of_ne_zero hpos
    rw [if_neg (by omega), piecesAfter_eq hnot, hpieces, (tailAfter_append hpos hlen ns).1,
      trimPieces_append hne h]

/-- Nothing is left of a path below itself. -/
theorem remainder_self (p : Path) : p.remainder p.components.length = [] := by
  unfold remainder
  rw [components_eq]
  split
  · next hzero =>
    cases hstem : p.stem with
    | nil => rfl
    | cons s more =>
      rw [hstem] at hzero
      unfold stepsOf at hzero
      split at hzero
      · cases hzero
      · cases hzero
      · next hempty hhere =>
        have hidle : isIdle s = false := by
          unfold isIdle
          simp only [Bool.or_eq_false_iff, beq_eq_false_iff_ne]
          exact ⟨fun hs => hempty more (by rw [hs]), fun hs => hhere more (by rw [hs])⟩
        rw [steps_eq_cons (List.dropWhile_cons_of_neg (by simp [hidle]))] at hzero
        cases hzero
  · next hpos =>
    refine dropWhile_eq_nil_of_steps ?_
    rw [(tailAfter_append (Nat.pos_of_ne_zero hpos) (Nat.le_refl _) []).2, List.drop_length]

theorem startsWith_self (p : Path) : p.startsWith p = true :=
  List.isPrefixOf_iff_prefix.2 (List.prefix_refl _)

/-- **What is left of a path below the one that it continues.** -/
theorem relativeTo?_join_self (hne : ns ≠ []) (h : ∀ n ∈ ns, IsStep n) :
    (p.join (ofPieces ns)).relativeTo? p = some (ofPieces ns) := by
  rw [relativeTo?_join hne h (startsWith_self p), remainder_self, List.nil_append]

/-! ### Paths continued by names -/

/-- **A path continued by names**, one after the other. -/
def into (p : Path) (names : List String) : Path := names.foldl (fun p n => p.join ⟨n⟩) p

theorem into_append (p : Path) (ns ms : List String) : p.into (ns ++ ms) = (p.into ns).into ms :=
  List.foldl_append

theorem into_concat (p : Path) (ns : List String) (n : String) :
    p.into (ns ++ [n]) = (p.into ns).join ⟨n⟩ := by
  rw [into_append]
  rfl

theorem ofPieces_singleton (n : String) : ofPieces [n] = ⟨n⟩ := by
  rw [ofPieces, String.intercalate_singleton]

theorem stem_into (h : ∀ n ∈ ns, IsStep n) : (p.into ns).stem = p.stem ++ ns := by
  induction ns generalizing p with
  | nil => rw [List.append_nil]; rfl
  | cons n ns ih =>
    have hn : ∀ m ∈ [n], IsStep m := by
      simpa using h n List.mem_cons_self
    have hstep : (p.join ⟨n⟩).stem = p.stem ++ [n] := by
      rw [← ofPieces_singleton, stem_join (List.cons_ne_nil _ _) hn]
    have hrest := ih (p := p.join ⟨n⟩) fun m hm => h m (List.mem_cons_of_mem _ hm)
    rw [hstep, List.append_assoc] at hrest
    exact hrest

/-- The names can be joined at once. -/
theorem into_eq_join (hne : ns ≠ []) (h : ∀ n ∈ ns, IsStep n) :
    p.into ns = p.join (ofPieces ns) := by
  rcases List.eq_nil_or_concat ns with rfl | ⟨front, n, rfl⟩
  · exact absurd rfl hne
  · rw [List.concat_eq_append] at hne h ⊢
    have hn : ∀ m ∈ [n], IsStep m := by
      simpa using h n (by simp)
    have hfront : (p.into front).stem = p.stem ++ front :=
      stem_into fun m hm => h m (List.mem_append_left _ hm)
    rw [into_concat, ← ofPieces_pieces ((p.into front).join ⟨n⟩),
      ← ofPieces_pieces (p.join (ofPieces (front ++ [n]))), pieces_join_steps hne h,
      ← ofPieces_singleton, pieces_join_steps (List.cons_ne_nil _ _) hn, hfront,
      List.append_assoc]

theorem components_into (h : ∀ n ∈ ns, IsName n) :
    (p.into ns).components = p.components ++ ns.map .name := by
  by_cases hne : ns = []
  · subst hne
    exact (List.append_nil _).symm
  · have hsteps : ∀ n ∈ ns, IsStep n := fun n hn => (h n hn).isStep
    rw [into_eq_join hne hsteps, components_join hne hsteps, ← steps_of_isStep hsteps,
      steps_names h]

/-- What is left of a path that is continued by names. -/
theorem relativeTo?_into (hbase : p.startsWith base = true) (hne : ns ≠ [])
    (h : ∀ n ∈ ns, IsName n) :
    (p.into ns).relativeTo? base =
      some (ofPieces (p.remainder base.components.length ++ ns)) := by
  have hsteps : ∀ n ∈ ns, IsStep n := fun n hn => (h n hn).isStep
  rw [into_eq_join hne hsteps, relativeTo?_join hne hsteps hbase]

theorem relativeTo?_into_self (hne : ns ≠ []) (h : ∀ n ∈ ns, IsName n) :
    (p.into ns).relativeTo? p = some (ofPieces ns) := by
  rw [relativeTo?_into (startsWith_self p) hne h, remainder_self, List.nil_append]

theorem fileName?_into {n : String} (h : ∀ m ∈ ns ++ [n], IsName m) :
    (p.into (ns ++ [n])).fileName? = some n := by
  unfold fileName?
  rw [components_into h, List.map_append, ← List.append_assoc, List.map_singleton,
    List.getLast?_concat]

/-- Different names lead to different paths. -/
theorem into_injective (hns : ∀ n ∈ ns, IsName n) (hms : ∀ n ∈ ms, IsName n)
    (h : p.into ns = p.into ms) : ns = ms := by
  have hcomponents := congrArg components h
  rw [components_into hns, components_into hms] at hcomponents
  exact List.map_injective_iff.2 (fun _ _ heq => Component.name.inj heq)
    (List.append_cancel_left hcomponents)

/-- **The normal form of a path continued by names** is that of the path, continued by them. -/
theorem normalize_into (hne : ns ≠ []) (h : ∀ n ∈ ns, IsName n) :
    (p.into ns).normalize = (ofComponents (fold p.components)).into ns := by
  have hnames : ∀ (ns : List String) (done : List Component),
      (ns.map Component.name).foldl foldStep done = (ns.map Component.name).reverse ++ done := by
    intro ns
    induction ns with
    | nil => exact fun _ => rfl
    | cons n ns ih =>
      intro done
      rw [List.map_cons, List.foldl_cons, ih, List.reverse_cons, List.append_assoc]
      rfl
  have hfold : fold (p.into ns).components = fold p.components ++ ns.map .name := by
    unfold fold
    rw [components_into h, List.foldl_append, hnames, List.reverse_append, List.reverse_reverse]
  unfold normalize
  rw [hfold]
  split
  · next hnil => exact absurd (List.append_eq_nil_iff.1 hnil).2 (by simpa using hne)
  · rw [ofComponents, List.foldl_append, List.foldl_map]
    rfl

end AmbientBundle.Path

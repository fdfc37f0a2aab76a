import AmbientBundle.Text.Blank
import AmbientBundle.Text.Cut
import Mathlib.Data.List.Basic
import Mathlib.Data.List.DropRight
import Mathlib.Data.List.TakeWhile

/-!
# Cutting and joining texts

What the cuts of `Text` give, said by the texts that they put together again.

* `split_eq_splitOn`: splitting at a character is the library's; `split_intercalate`: it undoes
  joining.
* `cutFront?_eq_some`, `cutBack?_eq_some`: a front or a back is taken off exactly where it stands.
* `getLast?_dropTrailing`, `dropTrailing_of_ne`: a character is taken off the end up to another one.
* `splitFirst?_eq_some`, `splitLast?_eq_some`: the first separator is the one that no other comes
  before, the last one the one that no other comes after.
* `mem_occurrences`, `occurrences_pairwise`: all places where a text stands, from left to right;
  `splitFirst?_eq_some_iff`, `splitFirst?_eq_none_iff`: the first of them.
* `trimEnd_append_cons`, `exists_blanks`: blanks are taken off the end up to another character.
* `pieces_intercalate`: segments without slashes, joined by slashes, are the pieces of the text.
-/

namespace AmbientBundle.Text

variable {c : Char} {cs : List Char}

theorem split_eq_splitOn (c : Char) : ∀ cs : List Char, split c cs = cs.splitOn c := by
  intro cs
  induction cs with
  | nil => rfl
  | cons d ds ih =>
    rw [split, ih, List.splitOn_cons_eq_if_modifyHead]
    by_cases h : d = c
    · rw [if_pos h, if_pos (beq_iff_eq.2 h)]
    · rw [if_neg h, if_neg (by simpa using h)]
      cases hs : ds.splitOn c with
      | nil => exact absurd hs (List.splitOn_ne_nil c ds)
      | cons w ws => rfl

theorem split_ne_nil (c : Char) (cs : List Char) : split c cs ≠ [] := by
  rw [split_eq_splitOn]
  exact List.splitOn_ne_nil c cs

/-- No piece holds the separator. -/
theorem not_mem_of_mem_split {w : List Char} (hw : w ∈ split c cs) : c ∉ w := by
  induction cs generalizing w with
  | nil => simp_all [split]
  | cons d ds ih =>
    rw [split] at hw
    by_cases h : d = c
    · rw [if_pos h] at hw
      rcases List.mem_cons.1 hw with rfl | hw
      · simp
      · exact ih hw
    · rw [if_neg h] at hw
      cases hs : split c ds with
      | nil => exact absurd hs (split_ne_nil c ds)
      | cons v vs =>
        rw [hs] at hw ih
        rcases List.mem_cons.1 hw with rfl | hw
        · rw [List.mem_cons, not_or]
          exact ⟨Ne.symm h, ih List.mem_cons_self⟩
        · exact ih (List.mem_cons_of_mem _ hw)

/-- A piece holds characters of the text only. -/
theorem mem_of_mem_split {w : List Char} {d : Char} (hw : w ∈ split c cs) (hd : d ∈ w) : d ∈ cs := by
  induction cs generalizing w with
  | nil => simp_all [split]
  | cons e es ih =>
    rw [split] at hw
    by_cases h : e = c
    · rw [if_pos h] at hw
      rcases List.mem_cons.1 hw with rfl | hw
      · exact absurd hd List.not_mem_nil
      · exact List.mem_cons_of_mem _ (ih hw hd)
    · rw [if_neg h] at hw
      cases hs : split c es with
      | nil => exact absurd hs (split_ne_nil c es)
      | cons v vs =>
        rw [hs] at hw ih
        rcases List.mem_cons.1 hw with rfl | hw
        · rcases List.mem_cons.1 hd with rfl | hd
          · exact List.mem_cons_self
          · exact List.mem_cons_of_mem _ (ih List.mem_cons_self hd)
        · exact List.mem_cons_of_mem _ (ih (List.mem_cons_of_mem _ hw) hd)

theorem split_append_sep (before after : List Char) :
    split c (before ++ c :: after) = split c before ++ split c after := by
  induction before with
  | nil => simp [split]
  | cons d ds ih =>
    rw [List.cons_append, split, split, ih]
    by_cases h : d = c
    · rw [if_pos h, if_pos h]
      rfl
    · rw [if_neg h, if_neg h]
      cases hs : split c ds with
      | nil => exact absurd hs (split_ne_nil c ds)
      | cons w ws => rfl

theorem split_intercalate {segments : List (List Char)} (hne : segments ≠ [])
    (h : ∀ s ∈ segments, c ∉ s) : split c ([c].intercalate segments) = segments := by
  rw [split_eq_splitOn, List.splitOn_intercalate c h hne]

theorem cutFront?_eq_some {front rest : List Char} :
    cutFront? front cs = some rest ↔ cs = front ++ rest := by
  induction front generalizing cs with
  | nil => simp [cutFront?, eq_comm]
  | cons p ps ih =>
    cases cs with
    | nil => simp [cutFront?]
    | cons d ds =>
      by_cases h : p = d
      · subst h; simp [cutFront?, ih]
      · simp [cutFront?, h, Ne.symm h]

theorem cutBack?_eq_some {back rest : List Char} :
    cutBack? back cs = some rest ↔ cs = rest ++ back := by
  unfold cutBack?
  rw [Option.map_eq_some_iff]
  constructor
  · rintro ⟨r, hr, rfl⟩
    rw [cutFront?_eq_some] at hr
    rw [← List.reverse_reverse cs, hr]
    simp
  · rintro rfl
    exact ⟨rest.reverse, cutFront?_eq_some.2 (by simp), List.reverse_reverse _⟩

theorem cutBack?_eq_none {back : List Char} : cutBack? back cs = none ↔ ¬ back <:+ cs := by
  rw [Option.eq_none_iff_forall_not_mem]
  constructor
  · rintro h ⟨rest, rfl⟩
    exact h rest (cutBack?_eq_some.2 rfl)
  · intro h rest hrest
    exact h ⟨rest, (cutBack?_eq_some.1 hrest).symm⟩

theorem endsWith_iff {back : List Char} : endsWith back cs = true ↔ back <:+ cs := by
  unfold endsWith
  rw [Option.isSome_iff_exists]
  exact exists_congr fun front => by rw [cutBack?_eq_some, eq_comm]

theorem dropTrailing_concat (c : Char) (cs : List Char) :
    dropTrailing c (cs ++ [c]) = dropTrailing c cs :=
  List.rdropWhile_concat_pos _ _ _ (beq_self_eq_true c)

theorem dropTrailing_of_ne (h : cs.getLast? ≠ some c) : dropTrailing c cs = cs := by
  refine List.rdropWhile_eq_self_iff.2 fun hne hlast => h ?_
  rw [List.getLast?_eq_some_getLast hne, beq_iff_eq.1 hlast]

theorem getLast?_dropTrailing (c : Char) (cs : List Char) :
    (dropTrailing c cs).getLast? ≠ some c := by
  change (cs.rdropWhile (· == c)).getLast? ≠ some c
  intro hlast
  have hne : cs.rdropWhile (· == c) ≠ [] := by
    intro hnil
    rw [hnil] at hlast
    cases hlast
  rw [List.getLast?_eq_some_getLast hne, Option.some.injEq] at hlast
  exact List.rdropWhile_last_not (· == c) cs hne (beq_iff_eq.2 hlast)

theorem splitFirst?_append {before : List Char} (h : c ∉ before) (after : List Char) :
    splitFirst? [c] (before ++ c :: after) = some (before, after) := by
  induction before with
  | nil => simp [splitFirst?, cutFront?]
  | cons d ds ih =>
    rw [List.mem_cons, not_or] at h
    simp [splitFirst?, cutFront?, h.1, ih h.2]

theorem splitFirst?_eq_some {before after : List Char} :
    splitFirst? [c] cs = some (before, after) ↔ cs = before ++ c :: after ∧ c ∉ before := by
  refine ⟨fun h => ?_, fun ⟨hcs, h⟩ => hcs ▸ splitFirst?_append h after⟩
  induction cs generalizing before with
  | nil => simp [splitFirst?] at h
  | cons d ds ih =>
    by_cases hd : c = d
    · simp only [splitFirst?, cutFront?, hd, if_true, Option.some.injEq, Prod.mk.injEq] at h
      obtain ⟨rfl, rfl⟩ := h
      simp [hd]
    · simp only [splitFirst?, cutFront?, hd, if_false, Option.map_eq_some_iff, Prod.mk.injEq] at h
      obtain ⟨⟨front, after⟩, hrest, rfl, rfl⟩ := h
      obtain ⟨rfl, hfront⟩ := ih hrest
      simp [hd, hfront]

theorem splitLast?_eq_none (h : c ∉ cs) : splitLast? c cs = none := by
  induction cs with
  | nil => rfl
  | cons d ds ih =>
    rw [List.mem_cons, not_or] at h
    simp [splitLast?, ih h.2, Ne.symm h.1]

theorem splitLast?_append (before : List Char) {after : List Char} (h : c ∉ after) :
    splitLast? c (before ++ c :: after) = some (before, after) := by
  induction before with
  | nil => simp [splitLast?, splitLast?_eq_none h]
  | cons d ds ih => simp [splitLast?, ih]

theorem not_mem_of_splitLast? (h : splitLast? c cs = none) : c ∉ cs := by
  induction cs with
  | nil => exact List.not_mem_nil
  | cons d ds ih =>
    rw [splitLast?] at h
    cases hlater : splitLast? c ds with
    | some parts => rw [hlater] at h; cases h
    | none =>
      rw [hlater] at h
      have hd : d ≠ c := by
        rintro rfl
        simp at h
      exact List.not_mem_cons_of_ne_of_not_mem hd.symm (ih hlater)

theorem splitLast?_eq_some {before after : List Char} :
    splitLast? c cs = some (before, after) ↔ cs = before ++ c :: after ∧ c ∉ after := by
  refine ⟨fun h => ?_, fun ⟨hcs, h⟩ => hcs ▸ splitLast?_append before h⟩
  induction cs generalizing before with
  | nil => cases h
  | cons d ds ih =>
    rw [splitLast?] at h
    cases hlater : splitLast? c ds with
    | some parts =>
      rw [hlater] at h
      cases h
      obtain ⟨hds, hafter⟩ := ih hlater
      exact ⟨by rw [hds]; rfl, hafter⟩
    | none =>
      rw [hlater] at h
      dsimp only at h
      split at h
      · next hd =>
        cases h
        exact ⟨by rw [hd]; rfl, not_mem_of_splitLast? hlater⟩
      · cases h

/-! ### All places -/

theorem occurrences_cons (sep : List Char) (d : Char) (ds : List Char) :
    occurrences sep (d :: ds) = ((cutFront? sep (d :: ds)).toList.map fun rest => ([], rest)) ++
      (occurrences sep ds).map fun place => (d :: place.1, place.2) := by
  rw [occurrences]
  cases cutFront? sep (d :: ds) <;> rfl

theorem mem_occurrences {sep before after : List Char} (hsep : sep ≠ []) :
    (before, after) ∈ occurrences sep cs ↔ cs = before ++ sep ++ after := by
  induction cs generalizing before with
  | nil => simp [occurrences, hsep]
  | cons d ds ih =>
    have hhere : (before, after) ∈ ((cutFront? sep (d :: ds)).toList.map fun rest =>
        (([] : List Char), rest)) ↔ before = [] ∧ d :: ds = sep ++ after := by
      rw [← cutFront?_eq_some]
      simp [eq_comm, and_comm]
    have hlater : (before, after) ∈ ((occurrences sep ds).map fun place =>
        (d :: place.1, place.2)) ↔ ∃ front, before = d :: front ∧ ds = front ++ sep ++ after := by
      simp only [List.mem_map, Prod.exists, Prod.mk.injEq]
      constructor
      · rintro ⟨front, back, hmem, rfl, rfl⟩
        exact ⟨front, rfl, ih.1 hmem⟩
      · rintro ⟨front, rfl, hds⟩
        exact ⟨front, after, ih.2 hds, rfl, rfl⟩
    rw [occurrences_cons, List.mem_append, hhere, hlater]
    cases before with
    | nil => simp
    | cons e front => simp [eq_comm, and_assoc]

/-- Places come from left to right. -/
theorem occurrences_pairwise (sep cs : List Char) :
    (occurrences sep cs).Pairwise fun place later => place.1.length < later.1.length := by
  induction cs with
  | nil => exact .nil
  | cons d ds ih =>
    have hlater : ((occurrences sep ds).map fun place => (d :: place.1, place.2)).Pairwise
        fun place later => place.1.length < later.1.length := by
      refine List.pairwise_map.2 (ih.imp ?_)
      intro place later hlt
      simpa using hlt
    rw [occurrences_cons]
    cases cutFront? sep (d :: ds) with
    | none => exact hlater
    | some rest =>
      refine List.pairwise_cons.2 ⟨?_, hlater⟩
      intro place hplace
      obtain ⟨place, -, rfl⟩ := List.mem_map.1 hplace
      simp

/-- The first cut is at the first place. -/
theorem splitFirst?_eq_head? {sep : List Char} (hsep : sep ≠ []) (cs : List Char) :
    splitFirst? sep cs = (occurrences sep cs).head? := by
  induction cs with
  | nil => simp [splitFirst?, occurrences, hsep]
  | cons d ds ih =>
    rw [splitFirst?, occurrences]
    cases cutFront? sep (d :: ds) with
    | some rest => rfl
    | none =>
      dsimp only
      rw [ih, List.head?_map]

/-- **The first cut** is the one with the least before it. -/
theorem splitFirst?_eq_some_iff {sep before after : List Char} (hsep : sep ≠ []) :
    splitFirst? sep cs = some (before, after) ↔ cs = before ++ sep ++ after ∧
      ∀ front back, cs = front ++ sep ++ back → before.length ≤ front.length := by
  have hpairwise := occurrences_pairwise sep cs
  rw [splitFirst?_eq_head? hsep]
  constructor
  · intro h
    obtain ⟨later, hplaces⟩ := List.head?_eq_some_iff.1 h
    refine ⟨(mem_occurrences hsep).1 (hplaces ▸ List.mem_cons_self), fun front back hcs => ?_⟩
    have hmem := (mem_occurrences hsep).2 hcs
    rw [hplaces] at hmem hpairwise
    rcases List.mem_cons.1 hmem with heq | hlater
    · cases heq
      exact le_rfl
    · exact Nat.le_of_lt (List.rel_of_pairwise_cons hpairwise hlater)
  · rintro ⟨hcs, hfirst⟩
    have hmem := (mem_occurrences hsep).2 hcs
    cases hplaces : occurrences sep cs with
    | nil =>
      rw [hplaces] at hmem
      cases hmem
    | cons place later =>
      have hplace := (mem_occurrences hsep).1 (hplaces ▸ List.mem_cons_self : place ∈ _)
      have hle := hfirst place.1 place.2 hplace
      rw [hplaces] at hmem hpairwise
      rcases List.mem_cons.1 hmem with heq | hlater
      · rw [heq, List.head?_cons]
      · have hlt := List.rel_of_pairwise_cons hpairwise hlater
        dsimp only at hlt
        omega

/-- There is no cut where the text does not stand. -/
theorem splitFirst?_eq_none_iff {sep : List Char} (hsep : sep ≠ []) :
    splitFirst? sep cs = none ↔ ¬ sep <:+: cs := by
  rw [splitFirst?_eq_head? hsep, List.head?_eq_none_iff, List.eq_nil_iff_forall_not_mem]
  constructor
  · rintro h ⟨before, after, hcs⟩
    exact h (before, after) ((mem_occurrences hsep).2 hcs.symm)
  · rintro h ⟨before, after⟩ hmem
    exact h ⟨before, after, ((mem_occurrences hsep).1 hmem).symm⟩

/-! ### Blanks -/

/-- Blanks are taken off the end up to the last other character. -/
theorem trimEnd_append_cons (before : List Char) (h : isBlank c = false) (after : List Char) :
    trimEnd (before ++ c :: after) = before ++ c :: trimEnd after := by
  have hstop : ∀ back : List Char, (after.reverse ++ c :: back).dropWhile isBlank =
      after.reverse.dropWhile isBlank ++ c :: back := by
    intro back
    generalize after.reverse = front
    induction front with
    | nil => simp [h]
    | cons d ds ih =>
      cases hd : isBlank d <;> simp [hd, ih]
  unfold trimEnd
  rw [List.reverse_append, List.reverse_cons, List.append_assoc, List.singleton_append, hstop]
  simp

theorem trimEnd_trimEnd (cs : List Char) : trimEnd (trimEnd cs) = trimEnd cs :=
  List.rdropWhile_idempotent isBlank cs

theorem trimEnd_cons (c : Char) (cs : List Char) :
    trimEnd (c :: cs) = if trimEnd cs = [] then trimEnd [c] else c :: trimEnd cs := by
  unfold trimEnd
  rw [List.reverse_cons, List.dropWhile_append]
  by_cases h : cs.reverse.dropWhile isBlank = []
  · simp [h]
  · simp [h]

theorem trimEnd_blanks {blanks : List Char} (h : ∀ b ∈ blanks, isBlank b = true) :
    trimEnd blanks = [] :=
  List.rdropWhile_eq_nil_iff.2 h

theorem trimEnd_append_blanks {word blanks : List Char} (hword : ∀ c ∈ word, isBlank c = false)
    (hblanks : ∀ b ∈ blanks, isBlank b = true) : trimEnd (word ++ blanks) = word := by
  rcases List.eq_nil_or_concat word with rfl | ⟨front, c, rfl⟩
  · exact trimEnd_blanks hblanks
  · rw [List.concat_eq_append, List.append_assoc, List.singleton_append,
      trimEnd_append_cons front (hword c (by simp)), trimEnd_blanks hblanks]

/-- What is taken off the end is blank. -/
theorem exists_blanks (cs : List Char) :
    ∃ blanks, cs = trimEnd cs ++ blanks ∧ ∀ b ∈ blanks, isBlank b = true := by
  refine ⟨(cs.reverse.takeWhile isBlank).reverse, ?_, fun b hb => ?_⟩
  · unfold trimEnd
    rw [← List.reverse_append, List.takeWhile_append_dropWhile, List.reverse_reverse]
  · exact List.mem_takeWhile_imp (List.mem_reverse.1 hb)

/-! ### Pieces -/

/-- **The pieces of joined segments** are the segments. -/
theorem pieces_intercalate {segments : List String} (hne : segments ≠ [])
    (h : ∀ s ∈ segments, '/' ∉ s.toList) :
    (split '/' ("/".intercalate segments).toList).map String.ofList = segments := by
  have hs : ∀ l ∈ segments.map String.toList, '/' ∉ l := by
    intro l hl
    obtain ⟨s, hs, rfl⟩ := List.mem_map.1 hl
    exact h s hs
  rw [String.toList_intercalate, show "/".toList = ['/'] from rfl,
    split_intercalate (by simpa using hne) hs]
  simp [Function.comp_def]

end AmbientBundle.Text

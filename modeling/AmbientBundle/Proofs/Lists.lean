import Mathlib.Data.List.Perm.Basic

/-!
# Lists taken apart

* `flatMap_filter_perm`: **grouping by different keys** keeps what has one of the keys.
* `eraseDups_pairwise`: **a list without its repetitions stands in the order of first appearance.**
* `Gains`: one more element somewhere in a list.
* `exists_sides`, `eq_append_of_zipIdx`: what stands on either side of an element.
-/

namespace AmbientBundle

variable {α β : Type} {l : List α}

/-! ### Groups -/

/-- What two conditions select that never hold together. -/
theorem filter_append_filter_perm {p q : α → Bool} (h : ∀ x, p x = true → q x = false) :
    (l.filter p ++ l.filter q).Perm (l.filter fun x => p x || q x) := by
  induction l with
  | nil => exact .nil
  | cons x l ih =>
    cases hp : p x with
    | true =>
      have hq := h x hp
      simp only [List.filter_cons, hp, hq, Bool.true_or, if_true, Bool.false_eq_true, if_false]
      exact ih.cons x
    | false =>
      cases hq : q x with
      | true =>
        simp only [List.filter_cons, hp, hq, Bool.or_true, if_true, Bool.false_eq_true, if_false]
        exact List.perm_middle.trans (ih.cons x)
      | false =>
        simp only [List.filter_cons, hp, hq, Bool.or_false, Bool.false_eq_true, if_false]
        exact ih

/-- **Grouping by different keys** keeps what has one of the keys. -/
theorem flatMap_filter_perm [BEq β] [LawfulBEq β] (key : α → Option β) {keys : List β}
    (h : keys.Nodup) (l : List α) :
    (keys.flatMap fun k => l.filter fun x => key x == some k).Perm
      (l.filter fun x => (key x).any keys.contains) := by
  induction keys with
  | nil =>
    rw [List.filter_eq_nil_iff.2 fun x _ => by cases key x <;> simp]
    exact .nil
  | cons k keys ih =>
    obtain ⟨hk, hkeys⟩ := List.nodup_cons.1 h
    -- an element has one key, so that it is in no other group
    have hdisjoint : ∀ x, (key x == some k) = true → (key x).any keys.contains = false := by
      intro x hx
      rw [eq_of_beq hx]
      simpa using hk
    rw [List.flatMap_cons]
    refine ((ih hkeys).append_left _).trans ((filter_append_filter_perm hdisjoint).trans ?_)
    refine List.Perm.of_eq (List.filter_congr fun x _ => ?_)
    cases key x with
    | none => rfl
    | some b => by_cases hb : b = k <;> simp [hb]

/-! ### One element more -/

/-- One more element somewhere in a list. -/
def Gains (x : α) (before after : List α) : Prop :=
  ∃ l r, before = l ++ r ∧ after = l ++ x :: r

theorem Gains.between {x : α} {before after : List α} (h : Gains x before after) (l r : List α) :
    Gains x (l ++ (before ++ r)) (l ++ (after ++ r)) := by
  obtain ⟨a, b, rfl, rfl⟩ := h
  exact ⟨l ++ a, b ++ r, by simp, by simp⟩

/-! ### Repetitions -/

section Repetitions

variable [BEq α] [LawfulBEq α]

/-- The order of first appearance among elements that satisfy a condition. -/
theorem idxOf_lt_of_filter {p : α → Bool} {a b : α} (ha : p a = true) (hb : p b = true)
    (h : (l.filter p).idxOf a < (l.filter p).idxOf b) : l.idxOf a < l.idxOf b := by
  induction l with
  | nil => simp at h
  | cons x l ih =>
    by_cases hxb : x = b
    · subst hxb
      rw [List.filter_cons_of_pos hb, List.idxOf_cons_self] at h
      omega
    rw [List.idxOf_cons_ne l hxb]
    by_cases hxa : x = a
    · subst hxa
      rw [List.idxOf_cons_self]
      omega
    rw [List.idxOf_cons_ne l hxa]
    have hlt : l.idxOf a < l.idxOf b := by
      apply ih
      by_cases hx : p x = true
      · rw [List.filter_cons_of_pos hx, List.idxOf_cons_ne _ hxa, List.idxOf_cons_ne _ hxb] at h
        omega
      · rwa [List.filter_cons_of_neg hx] at h
    omega

/-- **A list without its repetitions stands in the order of first appearance.** -/
theorem eraseDups_pairwise (l : List α) :
    l.eraseDups.Pairwise fun a b => l.idxOf a < l.idxOf b := by
  -- by the length, since what is left after the first element is filtered
  induction hn : l.length using Nat.strongRecOn generalizing l with
  | _ n ih =>
    cases l with
    | nil => simp
    | cons x l =>
      have hlength := List.length_filter_le (fun b => !b == x) l
      have htail := ih _ (by rw [← hn, List.length_cons]; omega) (l.filter fun b => !b == x) rfl
      rw [List.eraseDups_cons, List.pairwise_cons]
      have hne : ∀ b ∈ (l.filter fun b => !b == x).eraseDups, b ≠ x := by
        intro b hb
        rw [List.mem_eraseDups, List.mem_filter] at hb
        simpa using hb.2
      constructor
      · intro b hb
        rw [List.idxOf_cons_self, List.idxOf_cons_ne l (hne b hb).symm]
        omega
      · refine htail.imp_of_mem ?_
        intro a b ha hb hlt
        have hlt := idxOf_lt_of_filter (by simpa using hne a ha) (by simpa using hne b hb) hlt
        rw [List.idxOf_cons_ne l (hne a ha).symm, List.idxOf_cons_ne l (hne b hb).symm]
        omega

theorem eraseDups_nodup (l : List α) : l.eraseDups.Nodup := by
  refine (eraseDups_pairwise l).imp ?_
  rintro a b hlt rfl
  omega

/-- Nothing is erased from a list without repetitions. -/
theorem eraseDups_of_nodup (h : l.Nodup) : l.eraseDups = l := by
  induction l with
  | nil => rfl
  | cons x l ih =>
    rw [List.nodup_cons] at h
    have hkeep : l.filter (fun y => !y == x) = l := by
      rw [List.filter_eq_self]
      intro y hy
      have hne : y ≠ x := fun heq => h.1 (heq ▸ hy)
      simpa using hne
    rw [List.eraseDups_cons, hkeep, ih h.2]

/-- An element that is there already is no news. -/
theorem eraseDups_gains {x : α} {given found found' : List α} (hgiven : x ∈ given)
    (h : Gains x found found') : (given ++ found').eraseDups = (given ++ found).eraseDups := by
  obtain ⟨l, r, rfl, rfl⟩ := h
  have hremove : (l ++ x :: r).removeAll given = (l ++ r).removeAll given := by
    unfold List.removeAll
    rw [List.filter_append, List.filter_append, List.filter_cons_of_neg (by simpa using hgiven)]
  rw [List.eraseDups_append, List.eraseDups_append, hremove]

end Repetitions

/-! ### Sides -/

open List in
/-- A list around an element of a part of it: each side of the part is in that side of the list. -/
theorem exists_sides {front back whole : List α} {x : α} (h : front ++ x :: back <+ whole) :
    ∃ before after, whole = before ++ x :: after ∧ front <+ before ∧ back <+ after := by
  obtain ⟨start, tail, rfl, hfront, htail⟩ := append_sublist_iff.1 h
  obtain ⟨around, rest, rfl, hmem, hrest⟩ := cons_sublist_iff.1 htail
  obtain ⟨left, right, rfl⟩ := append_of_mem hmem
  refine ⟨start ++ left, right ++ rest, by simp only [append_assoc, cons_append], ?_, ?_⟩
  · exact hfront.trans (sublist_append_left start left)
  · exact hrest.trans (sublist_append_right right rest)

/-- The position of an element is the number of elements before it. -/
theorem eq_append_of_zipIdx {before after : List (α × Nat)} {x : α} {i : Nat}
    (h : l.zipIdx = before ++ (x, i) :: after) :
    l = before.map Prod.fst ++ x :: after.map Prod.fst ∧ before.length = i := by
  constructor
  · rw [← List.zipIdx_map_fst 0 l, h, List.map_append, List.map_cons]
  · have hget : l.zipIdx[before.length]? = some (x, i) := by
      rw [h, List.getElem?_append_right (Nat.le_refl _), Nat.sub_self, List.getElem?_cons_zero]
    rw [List.getElem?_zipIdx] at hget
    obtain ⟨y, -, hy⟩ := Option.map_eq_some_iff.1 hget
    have hi := congrArg Prod.snd hy
    dsimp only at hi
    omega

end AmbientBundle

import AmbientBundle.Text.Offset
import Mathlib.Data.List.Basic

/-!
# Offsets that fall between characters

A byte offset cuts a text if it is the length of a front of it. Fronts of one text are told apart by
their lengths, so a cut is unique.

* `splitAtByte?_eq_some`, `dropBytes?_eq_some`, `slice?_eq_some`: what the cuts of a text give.
* `front_le`: of two fronts of a text, the one that is not longer is a front of the other.
* `IsBoundary`: offsets that cut a text.
* `splitAtByte?_append`, `slice?_append`: cuts of a text that comes after another.
-/

namespace AmbientBundle.Text

variable {a a' b b' cs : List Char} {n m : Nat}

@[simp]
theorem byteLength_append (a b : List Char) :
    byteLength (a ++ b) = byteLength a + byteLength b := by
  induction a with
  | nil => simp [byteLength]
  | cons c a ih => simp only [List.cons_append, byteLength, ih]; omega

theorem byteLength_pos (h : a ≠ []) : 0 < byteLength a := by
  obtain ⟨c, cs, rfl⟩ := List.exists_cons_of_ne_nil h
  have := c.utf8Size_pos
  simp only [byteLength]
  omega

/-- Of two fronts of a text, the one that is not longer is a front of the other. -/
theorem front_le (h : a ++ b = a' ++ b') (hle : byteLength a ≤ byteLength a') :
    ∃ m, a' = a ++ m ∧ b = m ++ b' := by
  rcases List.append_eq_append_iff.1 h with ⟨m, ha', hb⟩ | ⟨m, ha, hb'⟩
  · exact ⟨m, ha', hb⟩
  · have hm : m = [] := by
      by_contra hne
      have := byteLength_pos hne
      rw [ha, byteLength_append] at hle
      omega
    subst hm
    exact ⟨[], by simpa using ha.symm, by simpa using hb'.symm⟩

/-- Fronts of one text are told apart by their lengths. -/
theorem front_eq (h : a ++ b = a' ++ b') (heq : byteLength a = byteLength a') :
    a = a' ∧ b = b' := by
  obtain ⟨m, rfl, rfl⟩ := front_le h (Nat.le_of_eq heq)
  have hm : m = [] := by
    by_contra hne
    have := byteLength_pos hne
    rw [byteLength_append] at heq
    omega
  subst hm
  simp

theorem splitAtByte?_eq_some : splitAtByte? n cs = some (a, b) ↔ cs = a ++ b ∧ byteLength a = n := by
  constructor
  · intro h
    fun_induction splitAtByte? n cs generalizing a with
    | case1 cs => cases h; exact ⟨rfl, rfl⟩
    | case2 => cases h
    | case3 n c cs hle ih =>
      obtain ⟨⟨x, y⟩, hsplit, heq⟩ := Option.map_eq_some_iff.1 h
      cases heq
      obtain ⟨rfl, hlen⟩ := ih hsplit
      exact ⟨rfl, by simp only [byteLength, hlen]; omega⟩
    | case4 => cases h
  · rintro ⟨rfl, rfl⟩
    induction a with
    | nil => cases b <;> rfl
    | cons c a ih =>
      have hpos := c.utf8Size_pos
      obtain ⟨k, hk⟩ : ∃ k, byteLength (c :: a) = k + 1 := ⟨byteLength (c :: a) - 1, by
        simp only [byteLength]; omega⟩
      have hrest : k + 1 - c.utf8Size = byteLength a := by
        rw [← hk]
        simp [byteLength]
      rw [hk, List.cons_append, splitAtByte?, if_pos (by rw [← hk]; simp [byteLength]), hrest, ih]
      rfl

theorem dropBytes?_eq_some : dropBytes? n cs = some b ↔ ∃ a, cs = a ++ b ∧ byteLength a = n := by
  unfold dropBytes?
  rw [Option.map_eq_some_iff]
  constructor
  · rintro ⟨⟨a, b⟩, h, rfl⟩
    exact ⟨a, splitAtByte?_eq_some.1 h⟩
  · rintro ⟨a, h⟩
    exact ⟨(a, b), splitAtByte?_eq_some.2 h, rfl⟩

theorem slice?_eq_some : slice? n m cs = some b ↔
    ∃ before after, cs = before ++ b ++ after ∧ byteLength before = n ∧
      byteLength (before ++ b) = m := by
  unfold slice?
  constructor
  · intro h
    split at h
    · cases h
    · next hle =>
      obtain ⟨⟨x, y⟩, hxy, h⟩ := Option.bind_eq_some_iff.1 h
      obtain ⟨⟨z, w⟩, hzw, h⟩ := Option.bind_eq_some_iff.1 h
      cases h
      obtain ⟨rfl, hx⟩ := splitAtByte?_eq_some.1 hxy
      obtain ⟨hy, hz⟩ := splitAtByte?_eq_some.1 hzw
      subst hy
      exact ⟨x, w, by simp, hx, by rw [byteLength_append, hx, hz]; omega⟩
  · rintro ⟨before, after, rfl, rfl, rfl⟩
    rw [if_neg (by simp), byteLength_append, Nat.add_sub_cancel_left, List.append_assoc,
      splitAtByte?_eq_some.2 ⟨rfl, rfl⟩]
    simp only [Option.bind_eq_bind, Option.bind_some]
    rw [splitAtByte?_eq_some.2 ⟨rfl, rfl⟩]
    rfl

/-- An offset that cuts a text. -/
def IsBoundary (text : List Char) (n : Nat) : Prop :=
  ∃ before after, text = before ++ after ∧ byteLength before = n

theorem isBoundary_iff {text : List Char} {n : Nat} :
    IsBoundary text n ↔ (splitAtByte? n text).isSome = true := by
  rw [Option.isSome_iff_exists]
  constructor
  · rintro ⟨before, after, htext, hlength⟩
    exact ⟨(before, after), splitAtByte?_eq_some.2 ⟨htext, hlength⟩⟩
  · rintro ⟨⟨before, after⟩, hsplit⟩
    exact ⟨before, after, splitAtByte?_eq_some.1 hsplit⟩

instance (text : List Char) (n : Nat) : Decidable (IsBoundary text n) :=
  decidable_of_iff _ isBoundary_iff.symm

theorem isBoundary_zero (text : List Char) : IsBoundary text 0 := ⟨[], text, rfl, rfl⟩

/-! ### Texts behind a front -/

section Behind

variable (front text : List Char)

theorem splitAtByte?_append (n : Nat) :
    splitAtByte? (byteLength front + n) (front ++ text) =
      (splitAtByte? n text).map fun parts => (front ++ parts.1, parts.2) := by
  refine Option.ext fun ⟨a, b⟩ => ?_
  rw [splitAtByte?_eq_some, Option.map_eq_some_iff]
  constructor
  · rintro ⟨htext, hlength⟩
    obtain ⟨a', rfl, rfl⟩ := front_le htext (by omega)
    rw [byteLength_append] at hlength
    exact ⟨(a', b), splitAtByte?_eq_some.2 ⟨rfl, by omega⟩, rfl⟩
  · rintro ⟨⟨a', b'⟩, hsplit, heq⟩
    obtain ⟨rfl, hlength⟩ := splitAtByte?_eq_some.1 hsplit
    obtain ⟨rfl, rfl⟩ := Prod.mk.inj heq
    exact ⟨(List.append_assoc _ _ _).symm, by rw [byteLength_append, hlength]⟩

theorem dropBytes?_append (n : Nat) :
    dropBytes? (byteLength front + n) (front ++ text) = dropBytes? n text := by
  rw [dropBytes?, splitAtByte?_append, Option.map_map]
  rfl

theorem slice?_append (n m : Nat) :
    slice? (byteLength front + n) (byteLength front + m) (front ++ text) = slice? n m text := by
  refine Option.ext fun b => ?_
  rw [slice?_eq_some, slice?_eq_some]
  constructor
  · rintro ⟨before, after, htext, hbefore, hlength⟩
    rw [List.append_assoc] at htext
    obtain ⟨before', rfl, rfl⟩ := front_le htext (by omega)
    simp only [byteLength_append] at hbefore hlength
    refine ⟨before', after, (List.append_assoc _ _ _).symm, by omega, ?_⟩
    rw [byteLength_append]
    omega
  · rintro ⟨before, after, rfl, hbefore, hlength⟩
    refine ⟨front ++ before, after, by simp only [List.append_assoc], ?_, ?_⟩
    · rw [byteLength_append, hbefore]
    · rw [List.append_assoc, byteLength_append, hlength]

/-- What stands before an offset behind a front, with the front. -/
theorem slice?_zero_append (m : Nat) :
    slice? 0 (byteLength front + m) (front ++ text) = (slice? 0 m text).map (front ++ ·) := by
  refine Option.ext fun b => ?_
  rw [slice?_eq_some, Option.map_eq_some_iff]
  have hnil : ∀ before : List Char, byteLength before = 0 → before = [] := by
    intro before hzero
    by_contra hne
    have hpos := byteLength_pos hne
    omega
  constructor
  · rintro ⟨before, after, htext, hbefore, hlength⟩
    obtain rfl := hnil before hbefore
    rw [List.nil_append] at htext hlength
    obtain ⟨b', rfl, rfl⟩ := front_le htext (by omega)
    rw [byteLength_append] at hlength
    exact ⟨b', slice?_eq_some.2 ⟨[], after, rfl, rfl, by rw [List.nil_append]; omega⟩, rfl⟩
  · rintro ⟨b', hslice, rfl⟩
    obtain ⟨before, after, rfl, hbefore, hlength⟩ := slice?_eq_some.1 hslice
    obtain rfl := hnil before hbefore
    rw [List.nil_append] at hlength
    refine ⟨[], after, by simp only [List.nil_append, List.append_assoc], rfl, ?_⟩
    rw [List.nil_append, byteLength_append, hlength]

end Behind

end AmbientBundle.Text

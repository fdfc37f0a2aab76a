/-!
# Computations that may fail

When computations that are put together succeed, and with what, and where they fail.

* `bind_eq_ok`, `bind_eq_error`: one computation after the other.
* `foldlM_invariant`: **what the steps of a fold keep is kept by the fold**; `foldlM_eq_error`: a
  fold fails at the first of its steps that does.
* `mem_mapM_iff`, `mapM_eq_error`: one computation for each element.
-/

namespace AmbientBundle

variable {ε ε' α β : Type} {x : Except ε α} {a : α} {b : β} {e : ε}

/-! ### One after the other -/

theorem map_eq_ok {f : α → β} : x.map f = .ok b ↔ ∃ a, x = .ok a ∧ f a = b := by
  cases x <;> simp [Except.map]

theorem map_eq_error {f : α → β} : x.map f = .error e ↔ x = .error e := by
  cases x <;> simp [Except.map]

theorem bind_eq_ok {f : α → Except ε β} : x >>= f = .ok b ↔ ∃ a, x = .ok a ∧ f a = .ok b := by
  cases x <;> simp [bind, Except.bind]

theorem bind_eq_error {f : α → Except ε β} :
    x >>= f = .error e ↔ x = .error e ∨ ∃ a, x = .ok a ∧ f a = .error e := by
  cases x <;> simp [bind, Except.bind]

theorem mapError_eq_ok {f : ε → ε'} : x.mapError f = .ok a ↔ x = .ok a := by
  cases x with
  | error e => exact ⟨nofun, nofun⟩
  | ok b =>
    constructor
    · exact fun h => congrArg Except.ok (Except.ok.inj h)
    · exact fun h => congrArg Except.ok (Except.ok.inj h)

theorem mapError_eq_error {f : ε → ε'} {e' : ε'} :
    x.mapError f = .error e' ↔ ∃ e, x = .error e ∧ f e = e' := by
  cases x with
  | error e =>
    constructor
    · exact fun h => ⟨e, rfl, Except.error.inj h⟩
    · rintro ⟨_, hx, rfl⟩
      cases hx
      rfl
  | ok b =>
    constructor
    · exact nofun
    · rintro ⟨_, hx, -⟩
      cases hx

/-! ### Folds -/

/-- What a fold that succeeds comes to, if each of its steps would come to the same. -/
theorem foldlM_of_steps {f g : β → α → Except ε β} {xs : List α} {r : β}
    (h : ∀ x ∈ xs, ∀ b r, f b x = .ok r → g b x = .ok r) (hf : xs.foldlM f b = .ok r) :
    xs.foldlM g b = .ok r := by
  induction xs generalizing b with
  | nil => exact hf
  | cons x xs ih =>
    rw [List.foldlM_cons] at hf ⊢
    cases hstep : f b x with
    | error e => rw [hstep] at hf; cases hf
    | ok next =>
      rw [hstep] at hf
      rw [h x List.mem_cons_self b next hstep]
      exact ih (fun y hy => h y (List.mem_cons_of_mem _ hy)) hf

/-- What a fold that succeeds keeps, if each of its steps does. -/
theorem foldlM_invariant {f : β → α → Except ε β} {P : β → Prop} {xs : List α}
    {r : β} (h : ∀ x ∈ xs, ∀ b r, P b → f b x = .ok r → P r) (hb : P b)
    (hf : xs.foldlM f b = .ok r) : P r := by
  induction xs generalizing b with
  | nil => exact Except.ok.inj hf ▸ hb
  | cons x xs ih =>
    rw [List.foldlM_cons] at hf
    cases hstep : f b x with
    | error e => rw [hstep] at hf; cases hf
    | ok next =>
      rw [hstep] at hf
      exact ih (fun y hy => h y (List.mem_cons_of_mem _ hy))
        (h x List.mem_cons_self b next hb hstep) hf

/-- A fold fails at the first of its steps that does. -/
theorem foldlM_eq_error {f : β → α → Except ε β} {xs : List α} :
    xs.foldlM f b = .error e ↔ ∃ before x after mid, xs = before ++ x :: after ∧
      before.foldlM f b = .ok mid ∧ f mid x = .error e := by
  induction xs generalizing b with
  | nil =>
    constructor
    · intro h; cases h
    · rintro ⟨before, x, after, mid, h, -⟩
      simp at h
  | cons y xs ih =>
    rw [List.foldlM_cons, bind_eq_error]
    constructor
    · rintro (hy | ⟨next, hnext, h⟩)
      · exact ⟨[], y, xs, b, rfl, rfl, hy⟩
      · obtain ⟨before, x, after, mid, rfl, hbefore, hx⟩ := ih.1 h
        refine ⟨y :: before, x, after, mid, rfl, ?_, hx⟩
        rw [List.foldlM_cons]
        exact bind_eq_ok.2 ⟨next, hnext, hbefore⟩
    · rintro ⟨before, x, after, mid, h, hbefore, hx⟩
      cases before with
      | nil =>
        obtain ⟨rfl, rfl⟩ := List.cons.inj h
        obtain rfl := Except.ok.inj hbefore
        exact .inl hx
      | cons z before =>
        obtain ⟨rfl, rfl⟩ := List.cons.inj h
        rw [List.foldlM_cons, bind_eq_ok] at hbefore
        obtain ⟨next, hnext, hrest⟩ := hbefore
        exact .inr ⟨next, hnext, ih.2 ⟨before, x, after, mid, rfl, hrest, hx⟩⟩

/-! ### One for each element -/

theorem mem_mapM_iff {f : α → Except ε β} {xs : List α} {ys : List β}
    (h : xs.mapM f = .ok ys) {y : β} : y ∈ ys ↔ ∃ x ∈ xs, f x = .ok y := by
  induction xs generalizing ys with
  | nil =>
    obtain rfl := Except.ok.inj h
    simp
  | cons x xs ih =>
    rw [List.mapM_cons] at h
    obtain ⟨z, hz, h⟩ := bind_eq_ok.1 h
    obtain ⟨zs, hzs, h⟩ := bind_eq_ok.1 h
    obtain rfl := Except.ok.inj h
    rw [List.mem_cons, ih hzs]
    simp [hz, eq_comm]

theorem exists_of_mapM {f : α → Except ε β} {xs : List α} {ys : List β}
    (h : xs.mapM f = .ok ys) {x : α} (hx : x ∈ xs) : ∃ y, f x = .ok y := by
  induction xs generalizing ys with
  | nil => cases hx
  | cons first xs ih =>
    rw [List.mapM_cons] at h
    obtain ⟨z, hz, h⟩ := bind_eq_ok.1 h
    obtain ⟨zs, hzs, -⟩ := bind_eq_ok.1 h
    rcases List.mem_cons.1 hx with rfl | hx
    · exact ⟨z, hz⟩
    · exact ih hzs hx

theorem mapM_eq_error {f : α → Except ε β} {x : Option α} :
    x.mapM f = .error e ↔ ∃ a, x = some a ∧ f a = .error e := by
  cases x with
  | none => simp [pure, Except.pure]
  | some a =>
    cases h : f a <;> simp [h, Except.map, Functor.map]

theorem exists_mapM_eq_ok {f : α → Except ε β} {x : Option α} :
    (∃ y, x.mapM f = .ok y) ↔ ∀ a, x = some a → ∃ b, f a = .ok b := by
  cases x with
  | none => simp [pure, Except.pure]
  | some a =>
    cases h : f a <;> simp [h, Except.map, Functor.map]

end AmbientBundle

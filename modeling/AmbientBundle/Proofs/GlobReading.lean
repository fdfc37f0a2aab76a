import AmbientBundle.Glob.Basic
import AmbientBundle.Proofs.Computations

/-!
# Reading patterns

A pattern is read one character at a time, and what has been read so far decides what the stars
after it stand for. A pattern that is read up to its end can go on with a slash and two stars, which
stand for everything below what it stands for.

* `State.IsSound`: which directories can stand where in a pattern that is being read;
  `step_isSound`, `foldlM_isSound`: reading keeps to that.
* `parse_eq_ok`: what reading a pattern comes to.
* `parse_append_below`: **a pattern with a slash and two stars after it.**
* `parse_plain`, `parse_plain_below`: patterns without special characters.
-/

namespace AmbientBundle.Glob

/-- Tokens of a branch that is still being read: what stands for everything below comes at the end
of a branch only, and directories at the front come at the front only. -/
structure AreUnfinished (tokens : List Token) : Prop where
  below : .allBelow ∉ tokens
  leading : .leadingDirs ∉ tokens.tail

namespace AreUnfinished

variable {tokens : List Token} {token : Token}

theorem nil : AreUnfinished [] := ⟨List.not_mem_nil, List.not_mem_nil⟩

theorem push (h : AreUnfinished tokens) (hbelow : token ≠ .allBelow)
    (hleading : token ≠ .leadingDirs) : AreUnfinished (tokens ++ [token]) := by
  refine ⟨?_, ?_⟩
  · rw [List.mem_append, List.mem_singleton, not_or]
    exact ⟨h.below, hbelow.symm⟩
  · cases tokens with
    | nil => exact List.not_mem_nil
    | cons first rest =>
      rw [List.cons_append, List.tail_cons, List.mem_append, List.mem_singleton, not_or]
      exact ⟨h.leading, hleading.symm⟩

theorem dropLast (h : AreUnfinished tokens) : AreUnfinished tokens.dropLast := by
  refine ⟨fun hmem => h.below (List.dropLast_subset _ hmem), fun hmem => h.leading ?_⟩
  cases tokens with
  | nil => exact hmem
  | cons first rest =>
    cases rest with
    | nil => cases hmem
    | cons second rest => exact List.dropLast_subset _ hmem

end AreUnfinished

namespace State

variable {s s' : State} {c : Char}

/-! ### What is kept along the way -/

/-- **A reader whose branches are unfinished**, that which is being read and those around it. -/
structure IsSound (s : State) : Prop where
  tokens : AreUnfinished s.tokens
  groups : ∀ group ∈ s.groups, AreUnfinished group.outer

theorem isSound_start : start.IsSound := ⟨.nil, fun _ hgroup => nomatch hgroup⟩

theorem IsSound.push (h : s.IsSound) {token : Token} (hbelow : token ≠ .allBelow)
    (hleading : token ≠ .leadingDirs) : (s.push token).IsSound :=
  ⟨h.tokens.push hbelow hleading, h.groups⟩

theorem IsSound.pushStar (h : s.IsSound) : (s.push .star).IsSound := h.push nofun nofun

theorem IsSound.pushStars (h : s.IsSound) : s.pushStars.IsSound := h.pushStar.pushStar

theorem IsSound.absorb_middleDirs (h : s.IsSound) : (s.absorb .middleDirs).IsSound := by
  unfold absorb
  split
  · exact h
  · exact h
  · exact ⟨h.tokens.dropLast.push nofun nofun, h.groups⟩

/-- A branch that ends need not be unfinished. -/
theorem plainStep_close (hgroups : ∀ group ∈ s.groups, AreUnfinished group.outer)
    (hne : s.groups ≠ []) (hc : c = ',' ∨ c = '\x7d') (hs : s.plainStep c = .ok s') :
    s'.IsSound := by
  obtain ⟨group, groups, hgroup⟩ := List.exists_cons_of_ne_nil hne
  rw [hgroup] at hgroups
  obtain ⟨houter, hothers⟩ := List.forall_mem_cons.1 hgroups
  unfold plainStep at hs
  rw [hgroup] at hs
  rcases hc with rfl | rfl
  · obtain rfl := Except.ok.inj hs
    exact ⟨.nil, List.forall_mem_cons.2 ⟨houter, hothers⟩⟩
  · obtain rfl := Except.ok.inj hs
    exact ⟨houter.push nofun nofun, hothers⟩

theorem plainStep_isSound (h : s.IsSound) (hs : s.plainStep c = .ok s') : s'.IsSound := by
  by_cases hclose : s.groups ≠ [] ∧ (c = ',' ∨ c = '\x7d')
  · exact plainStep_close h.groups hclose.1 hclose.2 hs
  unfold plainStep at hs
  dsimp only at hs
  split at hs
  · obtain rfl := Except.ok.inj hs
    exact ⟨h.tokens.push nofun nofun, h.groups⟩
  · obtain rfl := Except.ok.inj hs
    exact ⟨h.tokens, h.groups⟩
  · obtain rfl := Except.ok.inj hs
    exact ⟨h.tokens, h.groups⟩
  · obtain rfl := Except.ok.inj hs
    exact ⟨.nil, List.forall_mem_cons.2 ⟨h.tokens, h.groups⟩⟩
  · split at hs
    · cases hs
    · next group groups hgroup => exact absurd ⟨by simp [hgroup], .inr rfl⟩ hclose
  · split at hs
    · obtain rfl := Except.ok.inj hs
      exact ⟨h.tokens.push nofun nofun, h.groups⟩
    · next group groups hgroup => exact absurd ⟨by simp [hgroup], .inl rfl⟩ hclose
  · obtain rfl := Except.ok.inj hs
    exact ⟨h.tokens.push nofun nofun, h.groups⟩

theorem baseStep_isSound (h : s.IsSound) (hs : s.baseStep c = .ok s') : s'.IsSound := by
  unfold baseStep at hs
  split at hs
  · obtain rfl := Except.ok.inj hs
    exact ⟨h.tokens, h.groups⟩
  · exact plainStep_isSound h hs

theorem starsStep_isSound (h : s.IsSound) {before : Option Char}
    (hs : s.starsStep before c = .ok s') : s'.IsSound := by
  unfold starsStep at hs
  dsimp only at hs
  split at hs
  · next hempty =>
    split at hs
    · obtain rfl := Except.ok.inj hs
      have hnil : s.tokens = [] := List.isEmpty_iff.1 hempty
      refine ⟨⟨?_, ?_⟩, h.groups⟩ <;> simp [State.push, hnil]
    · exact baseStep_isSound h.pushStars hs
  split at hs
  · exact baseStep_isSound h.pushStars hs
  split at hs
  · obtain rfl := Except.ok.inj hs
    exact ⟨h.absorb_middleDirs.tokens, h.absorb_middleDirs.groups⟩
  split at hs
  · next hgroup =>
    -- the branch ends right after the stars
    rw [Bool.and_eq_true, Bool.or_eq_true, beq_iff_eq, beq_iff_eq] at hgroup
    have habsorb : (s.absorb .allBelow).groups = s.groups := by
      unfold absorb
      split <;> rfl
    have hne : s.groups ≠ [] := by simpa [inGroup] using hgroup.1
    have hstar : c ≠ '*' := by rintro rfl; simp at hgroup
    rw [baseStep, if_neg hstar] at hs
    exact plainStep_close (habsorb ▸ h.groups) (habsorb ▸ hne) hgroup.2 hs
  · exact baseStep_isSound h.pushStars hs

theorem classStep_isSound (h : s.IsSound) {k : ClassState} (hs : s.classStep k c = .ok s') :
    s'.IsSound := by
  unfold classStep at hs
  dsimp only at hs
  split at hs
  · obtain rfl := Except.ok.inj hs
    exact ⟨h.tokens.push nofun nofun, h.groups⟩
  · obtain rfl := Except.ok.inj hs
    exact ⟨h.tokens, h.groups⟩
  · split at hs
    · cases hs
    · obtain rfl := Except.ok.inj hs
      exact ⟨h.tokens, h.groups⟩
  · obtain rfl := Except.ok.inj hs
    exact ⟨h.tokens, h.groups⟩

/-- **Reading one character keeps a reader sound.** -/
theorem step_isSound (h : s.IsSound) (hs : s.step c = .ok s') : s'.IsSound := by
  unfold step at hs
  split at hs
  · exact baseStep_isSound h hs
  · obtain rfl := Except.ok.inj hs
    exact ⟨h.tokens.push nofun nofun, h.groups⟩
  · split at hs
    · obtain rfl := Except.ok.inj hs
      exact ⟨h.tokens, h.groups⟩
    · exact baseStep_isSound h.pushStar hs
  · exact starsStep_isSound h hs
  · split at hs
    · obtain rfl := Except.ok.inj hs
      exact ⟨h.tokens, h.groups⟩
    · obtain rfl := Except.ok.inj hs
      exact ⟨h.tokens, h.groups⟩
  · obtain rfl := Except.ok.inj hs
    exact ⟨h.tokens, h.groups⟩
  · exact classStep_isSound h hs

/-- **Reading a text keeps a reader sound.** -/
theorem foldlM_isSound {cs : List Char} (h : s.IsSound) (hs : cs.foldlM step s = .ok s') :
    s'.IsSound :=
  foldlM_invariant (fun _ _ _ _ hsound hstep => step_isSound hsound hstep) h hs

/-! ### Directories alone -/

/-- A token after others makes more than directories. -/
theorem append_ne_leadingDirs {tokens : List Token} {token : Token} (h : token ≠ .leadingDirs) :
    tokens ++ [token] ≠ [.leadingDirs] := by
  intro heq
  have hlast := congrArg List.getLast? heq
  rw [List.getLast?_append, List.getLast?_singleton] at hlast
  exact h (Option.some.inj hlast)

/-- A character that is read by itself leaves no directories as all that there is. -/
theorem plainStep_tokens (hs : s.plainStep c = .ok s') (hmode : s'.mode = .plain) :
    s'.tokens ≠ [.leadingDirs] := by
  unfold plainStep at hs
  dsimp only at hs
  split at hs
  · obtain rfl := Except.ok.inj hs
    exact append_ne_leadingDirs nofun
  · obtain rfl := Except.ok.inj hs
    cases hmode
  · obtain rfl := Except.ok.inj hs
    cases hmode
  · obtain rfl := Except.ok.inj hs
    nofun
  · split at hs
    · cases hs
    · obtain rfl := Except.ok.inj hs
      exact append_ne_leadingDirs nofun
  · split at hs
    · obtain rfl := Except.ok.inj hs
      exact append_ne_leadingDirs nofun
    · obtain rfl := Except.ok.inj hs
      nofun
  · obtain rfl := Except.ok.inj hs
    exact append_ne_leadingDirs nofun

theorem baseStep_tokens (hs : s.baseStep c = .ok s') (hmode : s'.mode = .plain) :
    s'.tokens ≠ [.leadingDirs] := by
  unfold baseStep at hs
  split at hs
  · obtain rfl := Except.ok.inj hs
    cases hmode
  · exact plainStep_tokens hs hmode

/-- Directories are all that there is only right after the slash that belongs to them. -/
theorem step_tokens (hs : s.step c = .ok s') (hmode : s'.mode = .plain) (hc : c ≠ '/') :
    s'.tokens ≠ [.leadingDirs] := by
  unfold step at hs
  split at hs
  · exact baseStep_tokens hs hmode
  · obtain rfl := Except.ok.inj hs
    exact append_ne_leadingDirs nofun
  · split at hs
    · obtain rfl := Except.ok.inj hs
      cases hmode
    · exact baseStep_tokens hs hmode
  · unfold starsStep at hs
    simp only [if_neg hc] at hs
    split at hs
    · exact baseStep_tokens hs hmode
    split at hs
    · exact baseStep_tokens hs hmode
    split at hs
    · exact baseStep_tokens hs hmode
    · exact baseStep_tokens hs hmode
  · split at hs
    · obtain rfl := Except.ok.inj hs
      cases hmode
    · obtain rfl := Except.ok.inj hs
      cases hmode
  · obtain rfl := Except.ok.inj hs
    cases hmode
  · unfold classStep at hs
    dsimp only at hs
    split at hs
    · obtain rfl := Except.ok.inj hs
      exact append_ne_leadingDirs nofun
    · obtain rfl := Except.ok.inj hs
      cases hmode
    · split at hs
      · cases hs
      · obtain rfl := Except.ok.inj hs
        cases hmode
    · obtain rfl := Except.ok.inj hs
      cases hmode

/-- A text that does not end with a slash leaves more than directories. -/
theorem foldlM_tokens {cs : List Char} (hs : cs.foldlM step start = .ok s)
    (hend : cs.getLast? ≠ some '/') (hmode : s.mode = .plain) : s.tokens ≠ [.leadingDirs] := by
  rcases List.eq_nil_or_concat cs with rfl | ⟨front, c, rfl⟩
  · obtain rfl := Except.ok.inj hs
    nofun
  · rw [List.concat_eq_append] at hs hend
    rw [List.getLast?_append, List.getLast?_singleton] at hend
    rw [List.foldlM_append] at hs
    obtain ⟨before, -, hlast⟩ := bind_eq_ok.1 hs
    rw [List.foldlM_cons] at hlast
    obtain ⟨after, hstep, hafter⟩ := bind_eq_ok.1 hlast
    obtain rfl := Except.ok.inj hafter
    refine step_tokens hstep hmode ?_
    rintro rfl
    exact hend rfl

/-! ### A slash after a pattern -/

/-- Directories are put in the place of the last token, unless others are all that there is. -/
theorem absorb_cases (h : s.IsSound) :
    (s.tokens = [.leadingDirs] ∧ ∀ token, s.absorb token = s) ∨
      ∀ token, s.absorb token = { s with tokens := s.tokens.dropLast ++ [token] } := by
  unfold absorb
  split
  · next hlast =>
    refine .inl ⟨?_, fun _ => rfl⟩
    obtain ⟨front, htokens⟩ := List.getLast?_eq_some_iff.1 hlast
    have hleading := h.tokens.leading
    rw [htokens] at hleading ⊢
    cases front with
    | nil => rfl
    | cons first rest => exact absurd (by simp) hleading
  · next hlast => exact absurd (List.mem_of_getLast? hlast) h.tokens.below
  · exact .inr fun _ => rfl

/-- What a slash makes of a reader that could stop: the slash comes after the tokens, unless they
end with directories that it belongs to. -/
theorem step_slash (h : s.IsSound) (hmore : s.mode = .plain → s.tokens ≠ [.leadingDirs])
    {tokens : List Token} (hsettle : s.settle = .ok tokens) (hgroups : s.groups = []) :
    ∃ ts, s.step '/' = .ok ⟨[], ts, .plain, some '/'⟩ ∧
      (ts = tokens ++ [.literal '/'] ∧ tokens ≠ [.leadingDirs] ∨
        ts = [.leadingDirs] ∧ tokens = [.leadingDirs] ∨
        ∃ front, ts = front ++ [.middleDirs] ∧ tokens = front ++ [.allBelow]) := by
  obtain ⟨groups, ts, mode, last⟩ := s
  obtain rfl : groups = [] := hgroups
  cases mode with
  | plain =>
    obtain rfl := Except.ok.inj hsettle
    exact ⟨_, rfl, .inl ⟨rfl, hmore rfl⟩⟩
  | escape => cases hsettle
  | oneStar before =>
    obtain rfl := Except.ok.inj hsettle
    exact ⟨_, rfl, .inl ⟨rfl, append_ne_leadingDirs nofun⟩⟩
  | twoStars before =>
    simp only [settle] at hsettle
    simp only [step, starsStep]
    split at hsettle
    · next hempty =>
      obtain rfl := Except.ok.inj hsettle
      obtain rfl : ts = [] := List.isEmpty_iff.1 hempty
      exact ⟨_, rfl, .inr (.inl ⟨rfl, rfl⟩)⟩
    · next hempty =>
      rw [if_neg hempty]
      split at hsettle
      · next hopens =>
        obtain rfl := Except.ok.inj hsettle
        rw [hopens, if_neg (by simp), if_pos trivial]
        rcases absorb_cases h with ⟨htokens, habsorb⟩ | habsorb
        · rw [habsorb, habsorb]
          exact ⟨_, rfl, .inr (.inl ⟨htokens, htokens⟩)⟩
        · rw [habsorb, habsorb]
          exact ⟨_, rfl, .inr (.inr ⟨_, rfl, rfl⟩)⟩
      · next hopens =>
        obtain rfl := Except.ok.inj hsettle
        rw [Bool.not_eq_true] at hopens
        rw [hopens, if_pos (by rfl)]
        exact ⟨_, rfl, .inl ⟨rfl, append_ne_leadingDirs nofun⟩⟩
  | classStart => cases hsettle
  | classFirst negated => cases hsettle
  | classRest k => cases hsettle

/-- Two stars after a slash, at the end of a pattern. -/
theorem settle_stars {ts : List Token} (hne : ts ≠ []) :
    ∃ s', ['*', '*'].foldlM step ⟨[], ts, .plain, some '/'⟩ = .ok s' ∧ s'.tokens = ts ∧
      s'.settle = .ok (s'.absorb .allBelow).tokens := by
  refine ⟨⟨[], ts, .twoStars (some '/'), some '*'⟩, rfl, rfl, ?_⟩
  have hempty : ts.isEmpty = false := by simpa using hne
  simp only [settle, hempty, opensComponent]
  rfl

end State

/-! ### Whole patterns -/

variable {p : String} {g g' : Glob}

/-- **What reading a pattern comes to.** -/
theorem parse_eq_ok : parse p = .ok g ↔
    ∃ s, p.toList.foldlM State.step .start = .ok s ∧ s.groups = [] ∧ s.settle = .ok g.tokens := by
  have hfinish : ∀ (s : State) (tokens : List Token),
      s.finish = .ok tokens ↔ s.groups = [] ∧ s.settle = .ok tokens := by
    intro s tokens
    unfold State.finish State.inGroup
    rw [bind_eq_ok]
    cases s.groups with
    | nil => simp
    | cons group groups => simp
  unfold parse
  simp only [bind_eq_ok, hfinish, pure, Except.pure, Except.ok.injEq]
  constructor
  · rintro ⟨s, hs, tokens, hsettle, rfl⟩
    exact ⟨s, hs, hsettle⟩
  · rintro ⟨s, hs, hsettle⟩
    exact ⟨s, hs, g.tokens, hsettle, rfl⟩

/-- **A pattern with a slash and two stars after it** stands for everything below what the pattern
stands for, unless the pattern stands for that already. -/
theorem parse_append_below (hend : p.toList.getLast? ≠ some '/') (h : parse p = .ok g)
    (h' : parse (p ++ "/**") = .ok g') :
    g'.tokens = g.tokens ++ [.allBelow] ∧ g.tokens ≠ [.leadingDirs] ∨
      g'.tokens = g.tokens ∧
        (g.tokens = [.leadingDirs] ∨ ∃ front, g.tokens = front ++ [.allBelow]) := by
  obtain ⟨s, hs, hgroups, hsettle⟩ := parse_eq_ok.1 h
  obtain ⟨s', hs', -, hsettle'⟩ := parse_eq_ok.1 h'
  obtain ⟨ts, hslash, hts⟩ := State.step_slash (State.foldlM_isSound State.isSound_start hs)
    (State.foldlM_tokens hs hend) hsettle hgroups
  have hne : ts ≠ [] := by
    rcases hts with ⟨rfl, -⟩ | ⟨rfl, -⟩ | ⟨front, rfl, -⟩ <;> simp
  obtain ⟨s'', hstars, hread, hsettled⟩ := State.settle_stars hne
  -- the longer text is read as the shorter one, and then from there on
  have hsame : s' = s'' := by
    have htext : (p ++ "/**").toList = p.toList ++ '/' :: ['*', '*'] := String.toList_append
    rw [htext, List.foldlM_append, hs] at hs'
    simp only [bind, Except.bind] at hs'
    rw [List.foldlM_cons, hslash] at hs'
    simp only [bind, Except.bind] at hs'
    exact Except.ok.inj (hs'.symm.trans hstars)
  rw [hsame, hsettled] at hsettle'
  have htokens : g'.tokens = (s''.absorb .allBelow).tokens := (Except.ok.inj hsettle').symm
  unfold State.absorb at htokens
  rw [hread] at htokens
  rcases hts with ⟨rfl, hmore⟩ | ⟨rfl, hleading⟩ | ⟨front, rfl, hbelow⟩
  · exact .inl ⟨by simpa using htokens, hmore⟩
  · exact .inr ⟨by simpa [hleading, hread] using htokens, .inl hleading⟩
  · exact .inr ⟨by simpa [hbelow] using htokens, .inr ⟨front, hbelow⟩⟩

/-! ### Patterns without special characters -/

/-- A character that stands for itself in a pattern. -/
def isPlain (c : Char) : Bool := ! (['*', '?', '[', '\\', '\x7b', '\x7d'].contains c)

theorem plain_step {c : Char} (hc : isPlain c = true) (ts : List Token) (last : Option Char) :
    State.step ⟨[], ts, .plain, last⟩ c = .ok ⟨[], ts ++ [.literal c], .plain, some c⟩ := by
  simp [isPlain] at hc
  obtain ⟨h1, h2, h3, h4, h5, h6⟩ := hc
  simp only [State.step, State.baseStep, if_neg h1]
  unfold State.plainStep
  split <;> simp_all [State.push]

theorem foldlM_plain {cs : List Char} (h : ∀ c ∈ cs, isPlain c = true) (ts : List Token)
    (last : Option Char) :
    ∃ last', cs.foldlM State.step ⟨[], ts, .plain, last⟩ =
      .ok ⟨[], ts ++ cs.map .literal, .plain, last'⟩ := by
  induction cs generalizing ts last with
  | nil => exact ⟨last, by simp [pure, Except.pure]⟩
  | cons c cs ih =>
    obtain ⟨hc, hcs⟩ := List.forall_mem_cons.1 h
    obtain ⟨last', hlast⟩ := ih hcs (ts ++ [.literal c]) (some c)
    refine ⟨last', ?_⟩
    rw [List.foldlM_cons, plain_step hc]
    simp only [bind, Except.bind]
    rw [hlast]
    simp

/-- **A pattern without special characters** stands for its text. -/
theorem parse_plain (h : ∀ c ∈ p.toList, isPlain c = true) :
    parse p = .ok ⟨p.toList.map .literal⟩ := by
  obtain ⟨last, hread⟩ := foldlM_plain h [] none
  exact parse_eq_ok.2 ⟨_, hread, rfl, by simp [State.settle]⟩

/-- **What is below a pattern without special characters**: its text, any directories, and a
name. -/
theorem parse_plain_below (h : ∀ c ∈ p.toList, isPlain c = true) :
    parse (p ++ "/**/*") = .ok ⟨p.toList.map .literal ++ [.middleDirs, .star]⟩ := by
  obtain ⟨last, hread⟩ := foldlM_plain h [] none
  have hbelow : ∀ ts, "/**/*".toList.foldlM State.step ⟨[], ts, .plain, last⟩ =
      .ok ⟨[], ts ++ [.middleDirs], .oneStar (some '/'), some '*'⟩ := by
    intro ts
    have htext : "/**/*".toList = ['/'] ++ ['*', '*', '/', '*'] := by decide
    rw [htext, List.foldlM_append, List.foldlM_cons, plain_step (by decide)]
    simp [State.step, State.baseStep, State.starsStep, State.opensComponent, State.absorb, bind,
      Except.bind, pure, Except.pure]
  refine parse_eq_ok.2 ⟨⟨[], p.toList.map .literal ++ [.middleDirs], .oneStar (some '/'), some '*'⟩,
    ?_, rfl, by simp [State.settle, State.push]⟩
  rw [String.toList_append, List.foldlM_append, State.start, hread]
  exact hbelow _

end AmbientBundle.Glob

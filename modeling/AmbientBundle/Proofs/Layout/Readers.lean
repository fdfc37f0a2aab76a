import AmbientBundle.Proofs.Layout.Basic

/-!
# The machinery of readers keeps references in order

* `Moves` for the readers that look at tokens and move past them.
* `Moves` and `Lays` for repetition, for conditions, and for the ways to go on after a fault.
-/

namespace AmbientBundle.Source

open Laid Reading

variable {text : List Char} {α β : Type} {acc : List Span}

/-! ### Steps -/

theorem Reading.start_run (mode : Mode) (s : Place) : start mode s = .ok s.front s := rfl

theorem Reading.fault_stops (mode : Mode) (s : Place) :
    ∃ f, (fault : Reading α) mode s = .error f s := ⟨⟨s.current.span.start⟩, rfl⟩

theorem Reading.unexpected_stops (mode : Mode) (s : Place) :
    ∃ fault, (unexpected : Reading α) mode s = .error fault s := by
  obtain ⟨⟨token, span, line⟩, after, stop, arrow⟩ := s
  cases token <;> exact ⟨_, rfl⟩

namespace Moves

/-- A reader that stays where it is. -/
theorem ofStill {p : Reading α} (h : ∀ mode s, ∃ a, p mode s = .ok a s) : Moves text p := by
  constructor
  intro mode s hs
  obtain ⟨a, ha⟩ := h mode s
  rw [ha]
  exact ⟨hs, .refl s, trivial⟩

/-- A reader that stops where it is. -/
theorem ofFault {p : Reading α} (h : ∀ mode s, ∃ fault, p mode s = .error fault s) :
    Moves text p := by
  constructor
  intro mode s hs
  obtain ⟨fault, hfault⟩ := h mode s
  rw [hfault]
  exact ⟨hs, .refl s⟩

instance bind {p : Reading α} {q : α → Reading β} [h : Moves text p] [k : ∀ a, Moves text (q a)] :
    Moves text (p >>= q) :=
  ⟨fun mode s hs => (h.moves mode s hs).bind fun a t ht _ _ => (k a).moves mode t ht⟩

instance pure (a : α) : Moves text (Pure.pure a : Reading α) := ofStill fun _ _ => ⟨a, rfl⟩

instance ite {c : Prop} [Decidable c] {p q : Reading α} [h : Moves text p] [k : Moves text q] :
    Moves text (if c then p else q) := by
  split
  · exact h
  · exact k

instance both {p q : Reading Bool} [h : Moves text p] [k : Moves text q] : Moves text (p <&&> q) := by
  refine bind (k := fun b => ?_)
  cases b
  · exact pure false
  · exact k

instance either {p q : Reading Bool} [h : Moves text p] [k : Moves text q] :
    Moves text (p <||> q) := by
  refine bind (k := fun b => ?_)
  cases b
  · exact k
  · exact pure true

instance get : Moves text (MonadState.get : Reading Place) := ofStill fun _ s => ⟨s, rfl⟩

instance read : Moves text (MonadReader.read : Reading Mode) := ofStill fun mode _ => ⟨mode, rfl⟩

instance token : Moves text token := ofStill fun _ s => ⟨s.current.token, rfl⟩

instance start : Moves text start := ofStill fun _ s => ⟨s.current.span.start, rfl⟩

instance afterLine : Moves text afterLine := ofStill fun _ s => ⟨s.current.afterLine, rfl⟩

instance spanFrom (n : Nat) : Moves text (spanFrom n) := ofStill fun _ s => ⟨⟨n, s.lastStop⟩, rfl⟩

instance peekLexeme : Moves text peekLexeme :=
  ofStill fun mode s => ⟨(nextLexeme mode.inType false s.after).1, rfl⟩

instance fuel : Moves text fuel := ofStill fun _ s => ⟨s.after.rest.length + 2, rfl⟩

/-- Where an arrow function may start is not a matter of places. -/
instance setArrowStart (f : Place → Option Nat) :
    Moves text (modify fun s => { s with arrowStart := f s } : Reading Unit) := by
  constructor
  intro mode s hs
  refine ⟨?_, ⟨Nat.le_refl _, fun _ => .inl ⟨rfl, rfl⟩, id⟩, trivial⟩
  exact ⟨hs.after_at, hs.after_boundary, hs.stop_eq, hs.lastStop_le, hs.start_le,
    hs.lastStop_boundary, hs.front_boundary, hs.width, hs.respelled, hs.reread, hs.origin⟩

instance advance : Moves text advance := by
  constructor
  intro mode s hs
  obtain ⟨hvalid, hreaches⟩ := hs.advanced mode.inType
  exact ⟨hvalid, hreaches, trivial⟩

instance faultAt (offset : Nat) : Moves text (faultAt offset : Reading α) :=
  ofFault fun _ _ => ⟨⟨offset⟩, rfl⟩

instance fault : Moves text (fault : Reading α) := ofFault fault_stops

instance unexpected : Moves text (unexpected : Reading α) := ofFault unexpected_stops

end Moves

namespace After

variable [Laid text α]

/-- A reader that stops where it is. -/
theorem ofFault {p : Reading α} (h : ∀ mode s, ∃ fault, p mode s = .error fault s) :
    After text acc p := by
  intro mode s lo hs _
  obtain ⟨fault, hfault⟩ := h mode s
  rw [hfault]
  exact ⟨hs, .refl s⟩

/-- What follows a fault is not reached. -/
theorem ofFaultThen {p : Reading β} {q : β → Reading α}
    (h : ∀ mode s, ∃ fault, p mode s = .error fault s) : After text acc (p >>= q) := by
  refine ofFault fun mode s => ?_
  obtain ⟨fault, hfault⟩ := h mode s
  exact ⟨fault, by simp only [Bind.bind, ReaderT.bind, EStateM.bind, hfault]⟩

theorem faultAt (offset : Nat) : After text acc (faultAt offset : Reading α) :=
  ofFault fun _ _ => ⟨⟨offset⟩, rfl⟩

theorem fault : After text acc (fault : Reading α) := ofFault fault_stops

theorem unexpected : After text acc (unexpected : Reading α) := ofFault unexpected_stops

end After

/-! ### Tokens -/

/-- A token that may be there is passed if it is. -/
theorem Reading.eatToken_run (t : Token) (mode : Mode) (s : Place) : eatToken t mode s =
    if s.current.token = t then .ok true (s.advanced mode.inType) else .ok false s := by
  have hrun : eatToken t mode s = (if (s.current.token == t) = true then
      (do advance; return true) else return false : Reading Bool) mode s := rfl
  rw [hrun]
  by_cases ht : s.current.token = t
  · rw [if_pos (beq_iff_eq.2 ht), if_pos ht]
    rfl
  · rw [if_neg (by simpa using ht), if_neg ht]
    rfl

/-- A token that must be there is passed. -/
theorem Reading.expectToken_run (t : Token) (mode : Mode) (s : Place) :
    (do unless ← eatToken t do fault : Reading Unit) mode s =
      if s.current.token = t then .ok () (s.advanced mode.inType) else .error ⟨s.front⟩ s := by
  by_cases ht : s.current.token = t
  · simp only [Bind.bind, ReaderT.bind, EStateM.bind, eatToken_run, if_pos ht]
    rfl
  · simp only [Bind.bind, ReaderT.bind, EStateM.bind, eatToken_run, if_neg ht]
    rfl

namespace Moves

instance peek : Moves text peek := inferInstanceAs (Moves text (Reading.peekLexeme >>= _))

instance isToken (t : Token) : Moves text (isToken t) := by unfold Reading.isToken; infer_instance

instance is (m : Mark) : Moves text (is m) := isToken _

instance isWord (w : String) : Moves text (isWord w) := isToken _

instance peekIs (m : Mark) : Moves text (peekIs m) := by unfold Reading.peekIs; infer_instance

instance peekIsWord (w : String) : Moves text (peekIsWord w) := by
  unfold Reading.peekIsWord; infer_instance

instance peekIsWordHere (w : String) : Moves text (peekIsWordHere w) := by
  unfold Reading.peekIsWordHere; infer_instance

instance eatToken (t : Token) : Moves text (eatToken t) := by unfold Reading.eatToken; infer_instance

instance eat (m : Mark) : Moves text (eat m) := eatToken _

instance eatWord (w : String) : Moves text (eatWord w) := eatToken _

instance expect (m : Mark) : Moves text (expect m) := by unfold Reading.expect; infer_instance

instance expectWord (w : String) : Moves text (expectWord w) := by
  unfold Reading.expectWord; infer_instance

instance atEnd : Moves text atEnd := by
  unfold Reading.atEnd
  refine bind (k := fun token => ?_)
  split <;> infer_instance

instance eatEnd : Moves text eatEnd := by unfold Reading.eatEnd; infer_instance

instance expectEnd : Moves text expectEnd := by unfold Reading.expectEnd; infer_instance

end Moves

/-- A reader that yields a known value where it is, or stops there. -/
def Settles (p : Reading α) (a : α) : Prop :=
  ∀ mode s, p mode s = .ok a s ∨ ∃ fault, p mode s = .error fault s

namespace Settles

theorem pure (a : α) : Settles (Pure.pure a : Reading α) a := fun _ _ => .inl rfl

theorem fault {p : Reading α} {a : α} (h : ∀ mode s, ∃ fault, p mode s = .error fault s) :
    Settles p a := fun mode s => .inr (h mode s)

theorem bind {p : Reading α} {q : α → Reading β} {a : α} {b : β} (hp : Settles p a)
    (hq : Settles (q a) b) : Settles (p >>= q) b := by
  intro mode s
  rcases hp mode s with h | ⟨fault, h⟩
  · simp only [Bind.bind, ReaderT.bind, EStateM.bind, h]
    exact hq mode s
  · exact .inr ⟨fault, by simp only [Bind.bind, ReaderT.bind, EStateM.bind, h]⟩

end Settles

theorem After.settled [Laid text α] {p : Reading β} {q : β → Reading α} {b : β} (hp : Settles p b)
    (hq : After text acc (q b)) : After text acc (p >>= q) := by
  intro mode s lo hs hfits
  have hends : Ends text s (fun b' t => b' = b ∧ t = s) (p mode s) := by
    rcases hp mode s with h | ⟨fault, h⟩ <;> rw [h]
    · exact ⟨hs, .refl s, rfl, rfl⟩
    · exact ⟨hs, .refl s⟩
  refine hends.bind ?_
  rintro _ _ - - ⟨rfl, rfl⟩
  exact hq mode _ lo hs hfits

/-- A reader that yields something, or stops. -/
class Yields (p : Reading (Option α)) : Prop where
  yields : ∀ mode s t, p mode s ≠ .ok none t

/-- A reader that yields nothing only where it started. -/
def Stays (p : Reading (Option α)) : Prop := ∀ mode s t, p mode s = .ok none t → t = s

namespace Yields

instance some (a : α) : Yields (Pure.pure (Option.some a) : Reading (Option α)) :=
  ⟨fun _ _ _ h => nomatch h⟩

instance bind {p : Reading β} {q : β → Reading (Option α)} [h : ∀ b, Yields (q b)] :
    Yields (p >>= q) := by
  constructor
  intro mode s t hrun
  simp only [Bind.bind, ReaderT.bind, EStateM.bind] at hrun
  split at hrun
  · exact (h _).yields mode _ t hrun
  · cases hrun

instance ite {c : Prop} [Decidable c] {p q : Reading (Option α)} [h : Yields p] [k : Yields q] :
    Yields (if c then p else q) := by
  split
  · exact h
  · exact k

end Yields

namespace Stays

theorem ofYields {p : Reading (Option α)} [h : Yields p] : Stays p :=
  fun mode s t hrun => absurd hrun (h.yields mode s t)

theorem none : Stays (Pure.pure Option.none : Reading (Option α)) := by
  rintro mode s t ⟨⟩
  rfl

theorem look {p : Reading β} {q : β → Reading (Option α)} (hp : ∀ mode s, ∃ b, p mode s = .ok b s)
    (hq : ∀ b, Stays (q b)) : Stays (p >>= q) := by
  intro mode s t hrun
  obtain ⟨b, hb⟩ := hp mode s
  simp only [Bind.bind, ReaderT.bind, EStateM.bind, hb] at hrun
  exact hq b mode s t hrun

theorem ite {c : Prop} [Decidable c] {p q : Reading (Option α)} (hp : Stays p) (hq : Stays q) :
    Stays (if c then p else q) := by
  split
  · exact hp
  · exact hq

end Stays

/-! ### Modes and faults -/

section Faults

variable {p : Reading α} {o : Reading (Option α)}

instance Moves.within (change : Mode → Mode) [h : Moves text p] : Moves text (within change p) :=
  ⟨fun mode s hs => h.moves (change mode) s hs⟩

instance Moves.attempt [h : Moves text o] : Moves text (attempt o) := by
  constructor
  intro mode s hs
  have ho := h.moves mode s hs
  unfold Reading.attempt
  cases hr : o mode s with
  | ok a t =>
    rw [hr] at ho
    cases a with
    | none => exact ⟨hs, .refl s, trivial⟩
    | some a => exact ho
  | error fault t => exact ⟨hs, .refl s, trivial⟩

instance Moves.recover [h : Moves text p] : Moves text (recover p) := by
  constructor
  intro mode s hs
  have hp := h.moves mode s hs
  unfold Reading.recover
  cases hr : p mode s with
  | ok a t => rw [hr] at hp; exact hp
  | error fault t => rw [hr] at hp; exact ⟨hp.1, hp.2, trivial⟩

instance Moves.lookAhead (q : Reading Bool) : Moves text (lookAhead q) := by
  constructor
  intro mode s hs
  unfold Reading.lookAhead
  cases q mode s with
  | ok b t => exact ⟨hs, .refl s, trivial⟩
  | error fault t => exact ⟨hs, .refl s, trivial⟩

variable [Laid text α]

theorem After.within (change : Mode → Mode) (h : After text acc p) :
    After text acc (within change p) :=
  fun mode s lo hs hfits => h (change mode) s lo hs hfits

theorem After.inType (h : After text acc p) : After text acc (inType p) := h.within _

instance Lays.within (change : Mode → Mode) [h : Lays text p] : Lays text (within change p) :=
  ⟨h.after.within change⟩

instance Lays.inType [h : Lays text p] : Lays text (inType p) := Lays.within _

/-- A fault that is taken back leaves what was read before. -/
theorem After.attempt (h : After text acc o) : After text acc (attempt o) := by
  intro mode s lo hs hfits
  have ho := h mode s lo hs hfits
  unfold Reading.attempt
  cases hr : o mode s with
  | ok a t =>
    rw [hr] at ho
    cases a with
    | none => exact ⟨hs, .refl s, hfits.le, trivial⟩
    | some a => exact ho
  | error fault t => exact ⟨hs, .refl s, hfits.le, trivial⟩

instance Lays.attempt [h : Lays text o] : Lays text (attempt o) := ⟨h.after.attempt⟩

instance Lays.recover [h : Lays text p] : Lays text (recover p) := by
  constructor
  intro mode s lo hs hfits
  have hp := h.after mode s lo hs hfits
  unfold Reading.recover
  cases hr : p mode s with
  | ok a t =>
    rw [hr] at hp
    refine ⟨hp.1, hp.2.1, ?_, hp.2.2.2⟩
    simp only [spans_option, Option.toList_some, List.flatMap_singleton]
    exact hp.2.2.1
  | error fault t =>
    rw [hr] at hp
    exact ⟨hp.1, hp.2, Nat.le_trans hfits.le hp.2.front_le, trivial⟩

end Faults

/-! ### Repetition and conditions -/

section Repetition

variable {p : Reading α} {step : Reading (Option α)} {condition : Reading Bool}

theorem Moves.repeatUpTo [h : Moves text step] (n : Nat) : Moves text (repeatUpTo step n) := by
  induction n with
  | zero => exact Moves.fault
  | succ n ih =>
    unfold Reading.repeatUpTo
    refine bind (k := fun a => ?_)
    cases a <;> infer_instance

instance Moves.collect [h : Moves text step] : Moves text (collect step) :=
  Moves.bind (k := Moves.repeatUpTo)

instance Moves.commaList {stop : Reading Bool} [Moves text stop] [Moves text p] :
    Moves text (commaList stop p) := by
  unfold Reading.commaList
  infer_instance

instance Moves.optional [Moves text condition] [Moves text p] : Moves text (optional condition p) := by
  unfold Reading.optional
  infer_instance

variable [Laid text α]

theorem Lays.repeatUpTo [h : Lays text step] (n : Nat) : Lays text (repeatUpTo step n) := by
  induction n with
  | zero => exact ⟨.fault⟩
  | succ n ih =>
    constructor
    unfold Reading.repeatUpTo
    refine .take fun a _ => ?_
    cases a with
    | none => exact .pure (by simp)
    | some a => exact .take fun as _ => .pure (by simp)

instance Lays.collect [h : Lays text step] : Lays text (collect step) :=
  ⟨.step fun n => (Lays.repeatUpTo n).after⟩

instance Lays.commaList {stop : Reading Bool} [Moves text stop] [Lays text p] :
    Lays text (commaList stop p) := by
  unfold Reading.commaList
  refine Lays.collect (h := ⟨?_⟩)
  refine .step fun _ => .ite (.pure (by simp)) ?_
  exact .take fun a ha => .step fun _ => .stepUnless (.pure (by simp) ha)

instance Lays.optional [Moves text condition] [Lays text p] : Lays text (optional condition p) where
  after := .step fun _ => .ite (.take fun a ha => .pure (by simp) ha) (.pure (by simp))

instance Lays.treesIf {q : Reading (List Tree)} [Moves text condition] [k : Lays text q] :
    Lays text (treesIf condition q) where
  after := .step fun _ => .ite .tail (.pure (by simp))

end Repetition

/-! ### Readers that depend on the current token -/

/-- `After`, from places at a given token. -/
def AfterAt (text : List Char) [Laid text α] (token : Token) (acc : List Span) (p : Reading α) : Prop :=
  ∀ mode s lo, s.Valid text → s.current.token = token → Fits text lo acc s.front →
    Ends text s (fun a t => Fits text lo (spans text a) t.front ∧ Sound text a) (p mode s)

section AfterAt

variable [Laid text α] {p : Reading α}

theorem After.at (h : After text acc p) (t : Token) : AfterAt text t acc p :=
  fun mode s lo hs _ hfits => h mode s lo hs hfits

theorem After.token {q : Token → Reading α} (h : ∀ t, AfterAt text t acc (q t)) :
    After text acc (token >>= q) :=
  fun mode s lo hs hfits => h s.current.token mode s lo hs rfl hfits

theorem After.isToken {t : Token} {q : Bool → Reading α} (htrue : AfterAt text t acc (q true))
    (hfalse : ∀ t', t' ≠ t → AfterAt text t' acc (q false)) : After text acc (isToken t >>= q) := by
  intro mode s lo hs hfits
  have hrun : (Reading.isToken t >>= q) mode s = q (s.current.token == t) mode s := rfl
  rw [hrun]
  cases htoken : s.current.token == t with
  | true => exact htrue mode s lo hs (by simpa using htoken) hfits
  | false => exact hfalse _ (by simpa using htoken) mode s lo hs rfl hfits

theorem AfterAt.token {t : Token} {q : Token → Reading α} (h : AfterAt text t acc (q t)) :
    AfterAt text t acc (Reading.token >>= q) := by
  rintro mode s lo hs rfl hfits
  exact h mode s lo hs rfl hfits

/-- A step that does not move on. -/
theorem AfterAt.look {t : Token} {p : Reading β} {q : β → Reading α}
    (hp : ∀ mode s, ∃ b, p mode s = .ok b s) (hq : ∀ b, AfterAt text t acc (q b)) :
    AfterAt text t acc (p >>= q) := by
  intro mode s lo hs htoken hfits
  obtain ⟨b, hb⟩ := hp mode s
  simp only [Bind.bind, ReaderT.bind, EStateM.bind, hb]
  exact hq b mode s lo hs htoken hfits

theorem AfterAt.pass [Laid text β] {t : Token} {p : Reading β} {q : β → Reading α}
    (hp : AfterAt text t acc p) (hq : ∀ b, Sound text b → After text (spans text b) (q b)) :
    AfterAt text t acc (p >>= q) :=
  fun mode s lo hs htoken hfits => (hp mode s lo hs htoken hfits).bind fun b u hu _ hb =>
    hq b hb.2 mode u lo hu hb.1

/-- A step that may take in references; if it does not, nothing has been read. -/
theorem AfterAt.takeOption [Laid text β] {t : Token} {p : Reading (Option β)}
    {q : Option β → Reading α} [Lays text p] (hstays : Stays p)
    (hsome : ∀ b, Sound text b → After text (acc ++ spans text b) (q (some b)))
    (hnone : AfterAt text t acc (q none)) : AfterAt text t acc (p >>= q) := by
  intro mode s lo hs htoken hfits
  have hends : Ends text s (fun b u => (Fits text s.front (spans text b) u.front ∧ Sound text b) ∧
      (b = none → u = s)) (p mode s) := by
    have hp := Lays.ends (p := p) mode hs
    cases hrun : p mode s with
    | ok b u =>
      rw [hrun] at hp
      refine ⟨hp.1, hp.2.1, hp.2.2, ?_⟩
      rintro rfl
      exact hstays mode s u hrun
    | error fault u =>
      rw [hrun] at hp
      exact hp
  refine hends.bind fun b u hu hsu hb => ?_
  cases b with
  | none =>
    obtain rfl := hb.2 rfl
    exact hnone mode u lo hu htoken hfits
  | some b =>
    have hspans : spans text (some b) = spans text b := by simp
    exact hsome b hb.1.2 mode u lo hu (hfits.append (hspans ▸ hb.1.1))

/-- A mark that is scanned anew. -/
theorem AfterAt.rescan {m : Mark} {spelling : List Char} {scan : Cursor → Token × Cursor}
    {q : Unit → Reading α} (hm : m.respelled? = some spelling)
    (hscan : ∀ (c : Cursor) h cs, c.rest = h :: cs → Scanned false c (scan c).1 (scan c).2)
    (hword : ∀ c, (scan c).1.isWord = false)
    (h : After text acc (q ())) : AfterAt text (.mark m) acc (rescan spelling scan >>= q) := by
  intro mode s lo hs htoken hfits
  obtain ⟨h', cs, hcons⟩ : ∃ h' cs, spelling ++ s.after.rest = h' :: cs := by
    cases m <;> cases hm <;> exact ⟨_, _, rfl⟩
  obtain ⟨hvalid, hreaches⟩ := hs.rescanned htoken hm
    (hscan ⟨spelling ++ s.after.rest, s.after.pos - spelling.length⟩ h' cs hcons) (hword _)
  exact (h mode _ lo hvalid (hfits.mono hreaches.front_le)).reached hreaches

end AfterAt

/-- A token that covers something stands between its front and the next token. -/
theorem Place.Valid.fits_current {s : Place} (h : s.Valid text) (inType : Bool)
    (hwidth : s.after.rest ≠ [] ∨ ∃ value, s.current.token = .string value) :
    Fits text s.front [s.current.span] (s.advanced inType).front := by
  have hstop := h.stop_eq
  have hnext : s.after.pos ≤ (s.advanced inType).front := by
    have := (h.advanced inType).1.lastStop_le
    rw [Place.advanced, h.stop_eq] at this
    exact this
  refine ⟨Nat.le_refl _, ?_, h.front_boundary, ?_, ?_⟩
  · rw [hstop]
    exact h.width hwidth
  · rw [hstop]
    exact h.after_boundary
  · rw [Fits, hstop]
    exact hnext

/-- A token that stands for a module whatever it is, unless the text ends after it. -/
theorem After.targetToken [Laid text α] {q : Literal → Reading α}
    (hq : ∀ l, After text (acc ++ spans text l) (q l)) (hend : ∀ l, AfterAt text .eof acc (q l)) :
    After text acc
      (MonadState.get >>= fun s => advance >>= fun _ => q ⟨s.current.span, some ""⟩) := by
  intro mode s lo hs hfits
  obtain ⟨hvalid, hreaches⟩ := hs.advanced mode.inType
  refine Ends.reached (t := s.advanced mode.inType) hreaches ?_
  by_cases hrest : s.after.rest = []
  · refine hend _ mode _ lo hvalid ?_ (hfits.mono hreaches.front_le)
    rw [Place.advanced, nextLexeme_end _ _ hrest]
  · exact hq _ mode _ lo hvalid (hfits.append (hs.fits_current mode.inType (.inl hrest)))

instance Lays.literal : Lays text literal where
  after := by
    unfold Reading.literal
    refine .token fun t => ?_
    split
    · next value =>
      intro mode s lo hs htoken hfits
      obtain ⟨hvalid, hreaches⟩ := hs.advanced mode.inType
      exact ⟨hvalid, hreaches, (hs.fits_current mode.inType (.inr ⟨value, htoken⟩)).mono_left hfits,
        trivial⟩
    · exact After.unexpected.at _

/-- The first half of `<<` is an opening bracket. -/
theorem Place.Valid.halved {s : Place} (h : s.Valid text)
    (htoken : s.current.token = .mark .shiftLeft) :
    (s.rescanned (.mark .lt) ⟨'<' :: s.after.rest, s.after.pos - 1⟩).Valid text ∧
      s.Reaches (s.rescanned (.mark .lt) ⟨'<' :: s.after.rest, s.after.pos - 1⟩) := by
  obtain ⟨c, -, -, -, hpos⟩ := h.respelled _ _ htoken rfl
  have hafter : s.after.pos - 1 = s.after.pos - 2 + 1 := by
    simp only [List.length_cons, List.length_nil] at hpos
    omega
  have hscan : Scanned true ⟨['<', '<'] ++ s.after.rest, s.after.pos - 2⟩ (.mark .lt)
      ⟨'<' :: s.after.rest, s.after.pos - 1⟩ := by
    rw [hafter]
    exact .mark (n := 1) rfl
  exact h.rescanned htoken rfl hscan rfl

instance Moves.openAngle : Moves text openAngle := by
  constructor
  intro mode s hs
  unfold Reading.openAngle
  refine .ran (rfl : Reading.is .shiftLeft mode s = .ok (s.current.token == .mark .shiftLeft) s)
    (.refl s) ?_
  dsimp only
  split
  · next hb =>
    obtain ⟨hvalid, hreaches⟩ := hs.halved (by simpa using hb)
    exact ((Moves.expect .lt).moves mode _ hvalid).reached hreaches
  · exact (Moves.expect .lt).moves mode s hs

end AmbientBundle.Source

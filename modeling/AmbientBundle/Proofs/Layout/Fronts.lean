import AmbientBundle.Proofs.Layout.Items

/-!
# What stands at the front of an item

An item is declared if `declare` has been read at its front, as a name or after `export`. A name is
read far down in the grammar of expressions, and it comes back up unchanged: an expression that
turns out to be a name is the token that it was read from.

* `Gives`, `GivesAt`: what is known of the values that a reader yields.
* `Named`, `Grammar.level_named`: an expression that is a name is the current token.
* `Fronted`, `fronted_readItems`: what has been read at the front of the items of a text.
-/

namespace AmbientBundle.Source

open Reading

variable {α β : Type}

/-! ### The values of a reader -/

/-- What is known of the values that a reader yields. -/
def Gives (P : α → Prop) (p : Reading α) : Prop := ∀ mode s a t, p mode s = .ok a t → P a

/-- `Gives`, from the places that `R` holds of. -/
def GivesAt (R : Place → Prop) (P : α → Prop) (p : Reading α) : Prop :=
  ∀ mode s a t, R s → p mode s = .ok a t → P a

/-- A step that was made before what was yielded. -/
theorem Reading.exists_of_bind {p : Reading β} {q : β → Reading α} {mode : Mode} {s u : Place}
    {a : α} (h : (p >>= q) mode s = .ok a u) : ∃ b t, p mode s = .ok b t ∧ q b mode t = .ok a u := by
  simp only [Bind.bind, ReaderT.bind, EStateM.bind] at h
  split at h
  · next b t hb => exact ⟨b, t, hb, h⟩
  · cases h

namespace Gives

variable {P : α → Prop} {Q : β → Prop} {p : Reading β} {q : β → Reading α}

theorem take (hp : Gives Q p) (hq : ∀ b, Q b → Gives P (q b)) : Gives P (p >>= q) := by
  intro mode s a u hrun
  obtain ⟨b, t, hb, ha⟩ := exists_of_bind hrun
  exact hq b (hp mode s b t hb) mode t a u ha

/-- A step of which nothing is asked. -/
theorem step (hq : ∀ b, Gives P (q b)) : Gives P (p >>= q) :=
  take (Q := fun _ => True) (fun _ _ _ _ _ => trivial) fun b _ => hq b

theorem imp {P' : α → Prop} {p : Reading α} (h : Gives P p) (himp : ∀ a, P a → P' a) : Gives P' p :=
  fun mode s a t hrun => himp a (h mode s a t hrun)

theorem pure {a : α} (ha : P a) : Gives P (Pure.pure a : Reading α) := by
  rintro mode s _ _ ⟨⟩
  exact ha

theorem pureSome {a : α} (ha : P a) : Gives (fun o => ∀ a ∈ o, P a) (Pure.pure (some a)) := by
  rintro mode s _ _ ⟨⟩ _ ⟨⟩
  exact ha

theorem pureNone : Gives (fun o => ∀ a ∈ o, P a) (Pure.pure none) := by rintro mode s _ _ ⟨⟩ _ ⟨⟩

theorem ite {c : Prop} [Decidable c] {p q : Reading α} (hp : Gives P p) (hq : Gives P q) :
    Gives P (if c then p else q) := by
  split
  · exact hp
  · exact hq

theorem faultAt (offset : Nat) : Gives P (faultAt offset : Reading α) := by rintro mode s a t ⟨⟩

theorem fault : Gives P (fault : Reading α) := step fun _ => faultAt _

theorem unexpected : Gives P (unexpected : Reading α) := by
  refine step fun token => ?_
  split
  · exact faultAt _
  · exact fault

/-- What follows a fault is not reached. -/
theorem faultThen : Gives P (Reading.fault >>= q) :=
  take (Q := fun _ => False) fault fun _ h => h.elim

theorem anywhere {p : Reading α} (h : Gives P p) {R : Place → Prop} : GivesAt R P p :=
  fun mode s a t _ => h mode s a t

/-- What is known of a value holds of it if its reader is only tried. -/
theorem attempt {p : Reading (Option α)} (h : Gives (fun o => ∀ a ∈ o, P a) p) :
    Gives (fun o => ∀ a ∈ o, P a) (attempt p) := by
  intro mode s o t hrun
  unfold Reading.attempt at hrun
  split at hrun
  · next a u hp =>
    cases hrun
    exact h mode s _ _ hp
  all_goals
    cases hrun
    rintro _ ⟨⟩

end Gives

namespace GivesAt

variable {R : Place → Prop} {P : α → Prop} {Q : β → Prop} {p : Reading β} {q : β → Reading α}

theorem take (hp : GivesAt R Q p) (hq : ∀ b, Q b → Gives P (q b)) : GivesAt R P (p >>= q) := by
  intro mode s a u hs hrun
  obtain ⟨b, v, hb, ha⟩ := exists_of_bind hrun
  exact hq b (hp mode s b v hs hb) mode v a u ha

/-- A step to a place of the same kind. -/
theorem keep (hp : ∀ mode s, R s → ∃ b u, p mode s = .ok b u ∧ R u) (hq : ∀ b, GivesAt R P (q b)) :
    GivesAt R P (p >>= q) := by
  intro mode s a v hs hrun
  obtain ⟨b, u, hb, hu⟩ := hp mode s hs
  obtain ⟨b', u', hb', ha⟩ := exists_of_bind hrun
  rw [hb] at hb'
  cases hb'
  exact hq b mode u a v hu ha

/-- A look at the place. -/
theorem look (hp : ∀ mode s, ∃ b, p mode s = .ok b s) (hq : ∀ b, GivesAt R P (q b)) :
    GivesAt R P (p >>= q) := by
  refine keep (fun mode s hs => ?_) hq
  obtain ⟨b, hb⟩ := hp mode s
  exact ⟨b, s, hb, hs⟩

theorem start {q : Nat → Reading α} (hq : ∀ n, GivesAt (fun s => R s ∧ s.front = n) P (q n)) :
    GivesAt R P (start >>= q) := fun mode s a u hs hrun => hq s.front mode s a u ⟨hs, rfl⟩ hrun

theorem token {t : Token} {q : Token → Reading α} (h : GivesAt (·.current.token = t) P (q t)) :
    GivesAt (·.current.token = t) P (token >>= q) := by
  rintro mode s a u rfl hrun
  exact h mode s a u rfl hrun

/-- A token that is passed if it is there. -/
theorem eatToken {w : Token} {q : Bool → Reading α} (htrue : Gives P (q true))
    (hfalse : GivesAt R P (q false)) : GivesAt R P (eatToken w >>= q) := by
  intro mode s a u hs hrun
  obtain ⟨b, v, hb, ha⟩ := exists_of_bind hrun
  rw [eatToken_run] at hb
  split at hb <;> cases hb
  · exact htrue mode _ a u ha
  · exact hfalse mode s a u hs ha

/-- A step that yields nothing only where it started. -/
theorem option {p : Reading (Option β)} {q : Option β → Reading α} (hstays : Stays p)
    (hp : Gives (fun o => ∀ b ∈ o, Q b) p) (hsome : ∀ b, Q b → Gives P (q (some b)))
    (hnone : GivesAt R P (q none)) : GivesAt R P (p >>= q) := by
  intro mode s a u hs hrun
  obtain ⟨o, v, ho, ha⟩ := exists_of_bind hrun
  cases o with
  | none =>
    obtain rfl := hstays mode s v ho
    exact hnone mode v a u hs ha
  | some b => exact hsome b (hp mode s _ v ho b rfl) mode v a u ha

theorem ite {c : Prop} [Decidable c] {p q : Reading α} (hp : GivesAt R P p) (hq : GivesAt R P q) :
    GivesAt R P (if c then p else q) := by
  split
  · exact hp
  · exact hq

theorem within (change : Mode → Mode) {p : Reading α} (h : GivesAt R P p) :
    GivesAt R P (within change p) := fun mode => h (change mode)

end GivesAt

theorem Stays.attempt (p : Reading (Option α)) : Stays (attempt p) := by
  intro mode s t hrun
  unfold Reading.attempt at hrun
  split at hrun <;> cases hrun <;> rfl

/-- A reader that goes on only from where a first one yielded nothing. -/
theorem Stays.option {p : Reading (Option β)} {q : Option β → Reading (Option α)} (hp : Stays p)
    (hsome : ∀ b, Yields (q (some b))) (hnone : Stays (q Option.none)) : Stays (p >>= q) := by
  intro mode s t hrun
  obtain ⟨o, u, ho, ha⟩ := exists_of_bind hrun
  cases o with
  | none =>
    obtain rfl := hp mode s u ho
    exact hnone mode u t ha
  | some b => exact absurd ha ((hsome b).yields mode u t)

/-! ### Expressions that are names -/

/-- An expression that is no other name than the token `t`. -/
def Named (t : Token) (e : Expression) : Prop := ∀ name, e.shape = .name name → t = .word name

/-- Whether an expression of the shape is a name. -/
def Shape.isName : Shape → Bool
  | .name _ => true
  | _ => false

variable (g : Grammar) {t : Token}

theorem Named.unnamed {e : Expression} (h : e.shape.isName = false) : Named t e := by
  intro name hname
  rw [hname] at h
  cases h

namespace Gives

theorem callFrom (callee : Expression) (types : List Tree) :
    Gives (Named t) (callFrom g callee types) := .step fun _ => .pure (.unnamed rfl)

theorem taggedTemplate (callee : Expression) (types : List Tree) :
    Gives (Named t) (taggedTemplate g callee types) := .step fun _ => .pure (.unnamed rfl)

theorem genericCall? (noCall : Bool) (callee : Expression) :
    Gives (fun o => ∀ e ∈ o, Named t e) (genericCall? g noCall callee) := by
  refine .attempt (.step fun types => .step fun _ => .ite ?_ (.step fun _ => .ite ?_ .fault))
  · exact .take (callFrom g callee types) fun e he => .pureSome he
  · exact .take (taggedTemplate g callee types) fun e he => .pureSome he

theorem optionalMember (object : Expression) (types : List Tree) :
    Gives (Named t) (optionalMember g object types) := by
  refine .step fun _ => .ite ?_ (.step fun _ => .ite ?_ ?_)
  · exact .step fun _ => .step fun _ => .pure (.unnamed rfl)
  · exact callFrom g object types
  · exact .step fun _ => .pure (.unnamed rfl)

theorem subscript (noCall noIndex : Bool) {object : Expression} (h : Named t object) :
    Gives (fun r => Named t r.1) (subscript g noCall noIndex object) := by
  unfold Reading.subscript
  refine .step fun _ => .step fun _ => .ite ?_ (.step fun _ => .step fun _ => ?_)
  · refine .ite (.step fun _ => .step fun _ => ?_) (.step fun _ => ?_)
    all_goals exact .pure (.unnamed rfl)
  extract_lets rest
  have hrest : Gives (fun r => Named t r.1) (rest ()) := by
    refine .step fun types? => ?_
    extract_lets types optional instantiated bare
    have hbare : Gives (fun r => Named t r.1) (bare ()) := by
      refine .step fun _ => .ite (.take (taggedTemplate g instantiated []) fun _ he => .pure he) ?_
      refine .pure ?_
      cases types? with
      | none => exact h
      | some types => exact .unnamed rfl
    refine .step fun _ => .ite ?_ (.step fun _ => .ite ?_ (.step fun _ => .ite ?_ ?_))
    · have hmember := Gives.take (optionalMember (t := t) g object types) fun e he =>
        .pure (P := fun r : Expression × Bool => Named t r.1) (a := (e, true)) he
      exact .ite (.step fun _ => hmember) hmember
    · exact .step fun _ => .step fun _ => .pure (.unnamed rfl)
    · exact .step fun _ => .pure (.unnamed rfl)
    · refine .step fun _ => .ite (.take (callFrom g object types) fun _ he => .pure he) ?_
      exact .ite (.step fun _ => hbare) hbare
  refine .ite (.take (genericCall? (t := t) g noCall object) fun call hcall => ?_) hrest
  split
  · exact .pure (hcall _ rfl)
  · exact hrest

/-- Members and calls after an expression make no names. -/
theorem subscriptsUpTo (noCall noIndex : Bool) (n : Nat) : ∀ object : Expression, Named t object →
    Gives (Named t) (subscriptsUpTo g noCall noIndex n object) := by
  induction n with
  | zero => exact fun object h => .pure h
  | succ n ih =>
    refine fun object h => .take (subscript g noCall noIndex h) ?_
    rintro ⟨next, more⟩ hnext
    cases more with
    | true => exact ih next hnext
    | false => exact .pure hnext

theorem subscripts (noCall noIndex : Bool) {object : Expression} (h : Named t object) :
    Gives (Named t) (subscripts g noCall noIndex object) :=
  .step fun n => subscriptsUpTo g noCall noIndex n object h

theorem importExpression (start : Nat) (noCall : Bool) :
    Gives (Named t) (importExpression g start noCall) := by
  unfold Reading.importExpression
  refine .step fun _ => .ite (.step fun word => ?_) (subscripts g noCall false (.unnamed rfl))
  split
  · exact subscripts g noCall false (.unnamed rfl)
  · exact subscripts g noCall false (.unnamed rfl)
  · exact subscripts g noCall false (.unnamed rfl)
  · exact unexpected

theorem arrowFrom (start : Nat) (typeParams params result : List Tree) :
    Gives (Named t) (arrowFrom g start typeParams params result) :=
  .step fun _ => .pure (.unnamed rfl)

theorem conditionalArrow? (start : Nat) (items : List ParenthesizedItem) :
    Gives (fun o => ∀ e ∈ o, Named t e) (conditionalArrow? g start items) := by
  refine .step fun _ => .step fun _ => .ite (.attempt (.step fun result => .step fun _ => ?_)) ?_
  · refine .step fun params => ?_
    refine .take (arrowFrom (t := t) g start [] params [result]) fun arrow harrow => ?_
    exact .step fun _ => .step fun _ => .ite (.step fun _ => .pureSome harrow) (.pureSome harrow)
  · exact .pureNone

theorem itemsAsExpression (start : Nat) (async : Bool) (items : List ParenthesizedItem) :
    Gives (Named t) (itemsAsExpression start async items) := by
  unfold Reading.itemsAsExpression
  refine .ite (.pure (.unnamed rfl)) (.ite (.step fun _ => ?_) ?_)
  all_goals
    split
    · exact faultAt _
    · exact .pure (.unnamed rfl)

theorem parenthesized (canBeArrow async : Bool) (start : Nat) :
    Gives (Named t) (parenthesized g canBeArrow async start) := by
  unfold Reading.parenthesized
  refine .step fun items => .take (conditionalArrow? (t := t) g start items) fun arrow harrow => ?_
  split
  · exact .pure (harrow _ rfl)
  · refine .step fun result => .step fun _ => .ite ?_ (itemsAsExpression start async items)
    have hlast : Gives (Named t) (expect .arrow >>= fun _ => Reading.itemsAsParameters items >>=
        fun params => Reading.arrowFrom g start [] params result.toList) :=
      .step fun _ => .step fun params => arrowFrom g start [] params _
    exact .step fun _ => .ite (.step fun _ => hlast) hlast

theorem genericAsyncArrow (start : Nat) : Gives (Named t) (genericAsyncArrow g start) := by
  refine .step fun _ => .step fun _ => .step fun _ => .step fun _ => .step fun _ => ?_
  exact .step fun _ => arrowFrom g start _ _ _

theorem asyncFunction? (canBeArrow : Bool) :
    Gives (fun o => ∀ e ∈ o, Named t e) (asyncFunction? g canBeArrow) := by
  unfold Reading.asyncFunction?
  refine .step fun start => .step fun _ => .ite ?_ (.step fun _ => ?_)
  · exact .step fun _ => .step fun _ => .pureSome (.unnamed rfl)
  extract_lets rest
  have hrest : Gives (fun o => ∀ e ∈ o, Named t e) (rest ()) := by
    refine .step fun next => .ite (.step fun _ => ?_) .pureNone
    exact .take (parenthesized g canBeArrow true start) fun e he => .pureSome he
  refine .ite (.take (.attempt (P := Named t) (.step fun _ => ?_)) fun arrow harrow => ?_) hrest
  · exact .take (genericAsyncArrow g start) fun e he => .pureSome he
  · exact .ite (.pure harrow) hrest

theorem newExpression (inner : Bool) : Gives (Named t) (newExpression g inner) := by
  unfold Reading.newExpression
  refine .step fun start => .step fun _ => .step fun _ => .ite ?_ (.step fun callee => ?_)
  · refine .step fun _ => .ite (subscripts g true false (.unnamed rfl)) (.step fun _ => ?_)
    exact subscripts g true false (.unnamed rfl)
  · split
    · next hshape => exact .pure (.unnamed (by rw [hshape]; rfl))
    · refine .step fun types => .step fun _ => .ite (.step fun bare => .step fun inputs => ?_) ?_
      · refine subscripts g true false ?_
        cases bare <;> exact .unnamed rfl
      · exact .pure (.unnamed rfl)

/-- `await` is a name where it has no operand. -/
theorem awaitExpression : Gives (Named (.word "await")) (awaitExpression g) := by
  have hrest : ∀ start, Gives (Named (.word "await")) (atEnd >>= fun ended => token >>= fun t =>
      if ended || !startsExpression t then Pure.pure ⟨start, .name "await", .none⟩
      else g.unary >>= fun e => Pure.pure ⟨start, .other, e.tree⟩) := by
    refine fun start => .step fun _ => .step fun _ => .ite (.pure ?_) ?_
    · rintro _ ⟨⟩
      rfl
    · exact .step fun _ => .pure (.unnamed rfl)
  exact .step fun start => .step fun _ => .step fun _ => .ite .faultThen (hrest start)

theorem angleAssertion (start : Nat) : Gives (Named t) (angleAssertion g start) := by
  refine .step fun _ => .step fun _ => .ite ?_ ?_
  · exact .step fun _ => .step fun _ => .pure (.unnamed rfl)
  · exact .step fun _ => .step fun _ => .step fun _ => .pure (.unnamed rfl)

theorem signedOperand (start : Nat) : Gives (Named t) (signedOperand g start) :=
  .step fun _ => .step fun _ => .pure (.unnamed rfl)

theorem operationFrom {left : Expression} (h : Named t left) :
    Gives (Named t) (operationFrom g left) := by
  unfold Reading.operationFrom
  refine .step fun steps => ?_
  split
  · exact .pure h
  · refine .pure fun name hname => ?_
    dsimp only at hname
    split at hname <;> cases hname

theorem assignmentFrom {left : Expression} (h : Named t left) :
    Gives (Named t) (assignmentFrom g left) := by
  unfold Reading.assignmentFrom
  refine .step fun _ => .ite ?_ (.pure h)
  split <;> first | exact .step fun _ => .step fun _ => .pure (.unnamed rfl) | exact .faultAt _

theorem genericArrow? : Gives (fun o => ∀ e ∈ o, Named t e) (genericArrow? g) := by
  refine .step fun _ => .ite (.attempt (.step fun typeParams => .step fun arrow => ?_)) ?_
  · split
    · exact .pureSome (.unnamed rfl)
    · exact .fault
  · exact .pureNone

theorem yieldExpression : Gives (Named t) (yieldExpression g) := by
  refine .step fun start => .step fun _ => .step fun _ => .step fun _ => .step fun _ => .ite ?_ ?_
  · exact .pure (.unnamed rfl)
  · exact .step fun _ => .step fun _ => .pure (.unnamed rfl)

end Gives

theorem Stays.asyncFunction? (canBeArrow : Bool) : Stays (asyncFunction? g canBeArrow) := by
  unfold Reading.asyncFunction?
  refine .look (fun _ _ => ⟨_, rfl⟩) fun start => .look (fun _ _ => ⟨_, rfl⟩) fun _ => ?_
  refine .ite .ofYields (.look (fun _ _ => ⟨_, rfl⟩) fun _ => ?_)
  extract_lets rest
  have hrest : Stays (rest ()) := .look (fun _ _ => ⟨_, rfl⟩) fun _ => .ite .ofYields .none
  refine .ite (.option (.attempt _) (fun arrow => ?_) hrest) hrest
  exact inferInstanceAs (Yields (pure (some arrow)))

theorem Stays.genericArrow? : Stays (genericArrow? g) :=
  .look (fun _ _ => ⟨_, rfl⟩) fun _ => .ite (.attempt _) .none

namespace GivesAt

theorem anyWord : GivesAt (·.current.token = t) (fun name => t = .word name) anyWord := by
  unfold Reading.anyWord
  refine .token ?_
  split
  · next name =>
    exact Gives.anywhere (.step fun _ => .pure (P := fun n => Token.word name = .word n) rfl)
  · exact Gives.anywhere .fault

/-- A name is the token it is read from. -/
theorem nameOrArrow (canBeArrow : Bool) :
    GivesAt (·.current.token = t) (Named t) (nameOrArrow g canBeArrow) := by
  unfold Reading.nameOrArrow
  refine .look (fun _ _ => ⟨_, rfl⟩) fun start => .take anyWord fun name hname => ?_
  refine .step fun _ => .step fun _ => .ite ?_ (.step fun _ => .step fun _ => .ite ?_ (.pure ?_))
  · refine .step fun _ => .step fun _ => .ite (.step fun _ => .pure (.unnamed rfl)) ?_
    exact .step fun _ => .arrowFrom g start [] [] []
  · exact .arrowFrom g start [] [] []
  · rintro _ ⟨⟩
    exact hname

theorem wordExpression (canBeArrow : Bool) (name : String) :
    GivesAt (·.current.token = t) (Named t) (wordExpression g canBeArrow name) := by
  unfold Reading.wordExpression
  refine .look (fun _ _ => ⟨_, rfl⟩) fun start => ?_
  split
  case h_7 =>
    extract_lets last rest
    have hrest : GivesAt (·.current.token = t) (Named t) (rest ()) :=
      .ite (Gives.anywhere .faultThen) (nameOrArrow g canBeArrow)
    have hasync := Gives.asyncFunction? (t := t) g canBeArrow
    refine .ite (.option (Stays.asyncFunction? g canBeArrow) hasync ?_ hrest) hrest
    exact fun _ he => .pure he
  all_goals exact Gives.anywhere (.step fun _ => .pure (.unnamed rfl))

theorem primary : GivesAt (·.current.token = t) (Named t) (primary g) := by
  have hregex : ∀ start, Gives (Named t) (primary.regexHere start) := by
    refine fun start => .step fun _ => .ite ?_ (.step fun _ => ?_)
    · exact .step fun _ => .pure (.unnamed rfl)
    · exact .step fun _ => .pure (.unnamed rfl)
  unfold Reading.primary
  refine .look (fun _ _ => ⟨_, rfl⟩) fun start => .look (fun _ _ => ⟨_, rfl⟩) fun s => .token ?_
  split
  case h_1 name => exact wordExpression g _ name
  case h_9 => exact Gives.anywhere (.parenthesized g _ false start)
  case h_10 => exact Gives.anywhere (.step fun _ => hregex start)
  case h_11 => exact Gives.anywhere (.step fun _ => hregex start)
  case h_13 => exact Gives.anywhere .unexpected
  all_goals exact Gives.anywhere (.step fun _ => .pure (.unnamed rfl))

theorem memberExpression (inner : Bool) :
    GivesAt (·.current.token = t) (Named t) (memberExpression g inner) := by
  unfold Reading.memberExpression
  refine .look (fun _ _ => ⟨_, rfl⟩) fun start => .look (fun _ _ => ⟨_, rfl⟩) fun _ => ?_
  refine .ite (Gives.anywhere (.newExpression g inner)) (.eatToken ?_ (.eatToken ?_ ?_))
  · exact .subscripts g true false (.unnamed rfl)
  · exact .importExpression g start true
  · refine .take (primary g) fun object hobject => ?_
    split
    · exact .pure hobject
    · refine .step fun types? => ?_
      split
      · exact .subscripts g true false (.unnamed rfl)
      · exact .subscripts g true false hobject

theorem callExpression : GivesAt (·.current.token = t) (Named t) (callExpression g) := by
  unfold Reading.callExpression
  refine .look (fun _ _ => ⟨_, rfl⟩) fun start => .eatToken ?_ (.eatToken ?_ ?_)
  · exact .subscripts g false false (.unnamed rfl)
  · exact .importExpression g start false
  · refine .take (memberExpression g false) fun callee hcallee => ?_
    split
    · exact .pure hcallee
    · exact .pure hcallee
    · refine .step fun types => .step fun _ => .ite (.take (.callFrom (t := t) g callee _) ?_) ?_
      · exact fun call hcall => .subscripts g false false hcall
      · exact .pure hcallee

theorem unaryExpression : GivesAt (·.current.token = t) (Named t) (unaryExpression g) := by
  unfold Reading.unaryExpression
  refine .look (fun _ _ => ⟨_, rfl⟩) fun start => .token ?_
  split
  case h_1 => exact Gives.anywhere (.angleAssertion g start)
  case h_2 => exact Gives.anywhere (.step fun _ => .step fun _ => .pure (.unnamed rfl))
  case h_3 => exact Gives.anywhere (.step fun _ => .step fun _ => .pure (.unnamed rfl))
  case h_11 => exact Gives.anywhere (.awaitExpression g)
  case h_12 =>
    refine .take (callExpression g) fun operand h => ?_
    split
    · exact .pure h
    · refine .step fun _ => .ite (.pure h) (.step fun _ => ?_)
      exact .ite (.pure (.unnamed rfl)) (.pure h)
  all_goals exact Gives.anywhere (.signedOperand g start)

theorem firstOperand : GivesAt (·.current.token = t) (Named t) (firstOperand g) := by
  intro mode s e u hs hrun
  unfold Reading.firstOperand at hrun
  split at hrun
  · next hoperand =>
    cases hrun
    exact unaryExpression g mode s _ _ hs hoperand
  · split at hrun <;> cases hrun
    exact .unnamed rfl

theorem conditionalExpression :
    GivesAt (·.current.token = t) (Named t) (conditionalExpression g) := by
  have hoperation : GivesAt (·.current.token = t) (Named t) (operationExpression g) := by
    refine .take (firstOperand g) fun left h => ?_
    split
    · exact .pure h
    · exact .operationFrom g h
  unfold Reading.conditionalExpression
  refine .take hoperation fun test h => ?_
  split
  · exact .pure h
  · exact .step fun _ => .ite (.step fun _ => .pure (.unnamed rfl)) (.pure h)

theorem assignmentExpression :
    GivesAt (·.current.token = t) (Named t) (assignmentExpression g) := by
  unfold Reading.assignmentExpression
  refine .option (Stays.genericArrow? g) (Gives.genericArrow? (t := t) g) (fun _ he => .pure he) ?_
  refine .look (fun _ _ => ⟨_, rfl⟩) fun _ => .look (fun _ _ => ⟨_, rfl⟩) fun _ => ?_
  refine .ite (Gives.anywhere (.yieldExpression g)) (.look (fun _ _ => ⟨_, rfl⟩) fun start => ?_)
  refine .look (fun _ _ => ⟨_, rfl⟩) fun token => .keep (fun _ s hs => ⟨_, _, rfl, hs⟩) fun _ => ?_
  refine .take (conditionalExpression g) fun left h => ?_
  split
  · exact .pure h
  · exact .pure h
  · exact .assignmentFrom g h

end GivesAt

/-- **An expression that is a name is the token it starts with**, at every level of the grammar. -/
theorem Grammar.level_named (n : Nat) (t : Token) :
    GivesAt (·.current.token = t) (Named t) (commaExpression (.level n)) := by
  have hassignment : GivesAt (·.current.token = t) (Named t) (Grammar.level n).assignment := by
    cases n with
    | zero => exact Gives.anywhere .fault
    | succ n => exact GivesAt.assignmentExpression (.level n)
  refine .within _ (.take hassignment fun first h => .step fun more => ?_)
  exact .ite (.pure h) (.pure (.unnamed rfl))

/-! ### Items -/

/-- An item without the modifier. -/
def Undeclared (item : Item) : Prop :=
  ∀ head, item.kind.head? = some head → head.declared = false

theorem Undeclared.headless {item : Item} (h : item.kind.head? = none) : Undeclared item := by
  intro head hhead
  rw [h] at hhead
  cases hhead

theorem undeclared_declarationItem (start : Nat) (d : Declared) :
    Undeclared (declarationItem start false d) := by
  rintro _ ⟨⟩
  rfl

theorem undeclared_exportedItem (start inner : Nat) (d : Declared) :
    Undeclared (exportedItem start inner false d) := by
  rintro _ ⟨⟩
  rfl

namespace Gives

theorem importItem : Gives Undeclared (importItem g) := by
  unfold Reading.importItem
  refine .step fun start => .step fun _ => .step fun _ => .ite ?_ (.step fun _ => .step fun t => ?_)
  · exact .step fun _ => .step fun _ => .pure (.headless rfl)
  · split
    · exact .step fun _ => .step fun _ => .step fun _ => .pure (.headless rfl)
    · refine .step fun _ => ?_
      extract_lets rest
      have hrest : Gives Undeclared (rest ()) := .step fun _ => .step fun _ => .pure (.headless rfl)
      refine .ite (.step fun tree => ?_) hrest
      split
      · exact .pure (.headless rfl)
      · exact hrest

theorem exportFrom (start : Nat) : Gives Undeclared (exportFrom g start) := by
  have hnames : Gives Undeclared (exportNames g start) := by
    refine .step fun _ => .step fun names => .step fun _ => .step fun _ => .ite ?_ ?_
    · exact .step fun _ => .pure (.headless rfl)
    · exact .step fun _ => .pure (.headless rfl)
  have hstar : Gives Undeclared (exportStar g start) := by
    refine .step fun _ => .step fun _ => .ite ?_ ?_
    · exact .step fun _ => .step fun _ => .pure (.headless rfl)
    · exact .step fun _ => .pure (.headless rfl)
  have hrest : Gives Undeclared (is .star >>= fun star =>
      if star then exportStar g start else exportNames g start) := .step fun _ => .ite hstar hnames
  unfold Reading.exportFrom
  refine .step fun inner => .step fun d => ?_
  split
  · exact .pure (undeclared_exportedItem start inner _)
  refine .step fun _ => .ite ?_ (.step fun _ => .ite ?_ (.step fun _ => .ite ?_ ?_))
  · have hassignment : Gives Undeclared (anyWord >>= fun _ => importAssignmentFrom >>= fun tree =>
        Pure.pure ⟨start, .importAssignment true, tree⟩) :=
      .step fun _ => .step fun _ => .pure (.headless rfl)
    exact .step fun _ => .step fun _ => .ite (.step fun _ => hassignment) hassignment
  · exact .step fun _ => .step fun _ => .pure (.headless rfl)
  · exact .step fun _ => .step fun _ => .step fun _ => .pure (.headless rfl)
  · refine .step fun _ => .ite hrest (.step fun _ => .ite ?_ (.step fun d => ?_))
    · exact .step fun _ => .pure (.headless rfl)
    · split
      · exact .pure (undeclared_exportedItem start inner _)
      · exact hrest

theorem expressionEnd (start : Nat) (e : Expression) :
    Gives Undeclared (expressionEnd g start e) := by
  refine .step fun _ => .ite (.pure (.headless rfl)) (.step fun _ => .ite ?_ .fault)
  exact .step fun _ => .pure (.headless rfl)

/-- The item of a name is declared only if the name is `declare`. -/
theorem nameItem (start : Nat) (e : Expression) (name : String) :
    Gives (fun item =>
        Undeclared item ∨ name = "declare" ∧ ∃ d, item = declarationItem start true d)
      (nameItem g start e name) := by
  have hfrom : Gives (fun o => ∀ item ∈ o,
      Undeclared item ∨ name = "declare" ∧ ∃ d, item = declarationItem start true d)
      (declarationFromName? g start name) := by
    unfold Reading.declarationFromName?
    split
    · refine .step fun d => .pure fun item hitem => ?_
      obtain ⟨d, -, rfl⟩ := Option.map_eq_some_iff.1 hitem
      exact .inr ⟨rfl, d, rfl⟩
    · refine .step fun _ => .ite (.step fun _ => .step fun _ => .pureSome ?_) .pureNone
      exact .inl (undeclared_declarationItem start _)
    · refine .step fun d => .pure fun item hitem => ?_
      obtain ⟨d, -, rfl⟩ := Option.map_eq_some_iff.1 hitem
      exact .inl (undeclared_declarationItem start d)
  unfold Reading.nameItem
  refine .step fun _ => .ite ?_ (.step fun _ => .ite ?_ ?_)
  · exact .step fun _ => .pure (.inl (.headless rfl))
  · exact .step fun _ => .pure (.inl (.headless rfl))
  · refine .take hfrom fun item hitem => ?_
    split
    · exact .pure (hitem _ rfl)
    · refine .step fun _ => .ite (.step fun d => .pure (.inl ?_)) ?_
      · exact undeclared_declarationItem start d
      · exact (expressionEnd g start e).imp fun _ => .inl

end Gives

/-- **What has been read at the front of an item**: `declare`, or `export` and `declare`, if it is
declared. -/
inductive Fronted (text : List Char) : Item → Prop
  | undeclared {item : Item} : Undeclared item → Fronted text item
  | declared {s : Place} (hs : s.Valid text) (hdeclare : s.current.token = .word "declare")
    (d : Declared) : Fronted text (declarationItem s.front true d)
  | exported {s : Place} (hs : s.Valid text) (hexport : s.current.token = .word "export")
    (inType : Bool) (hdeclare : (s.advanced inType).current.token = .word "declare")
    (d : Declared) : Fronted text (exportedItem s.front (s.advanced inType).front true d)

namespace Fronted

variable {text : List Char}

theorem expressionItem (hg : ∀ t, GivesAt (·.current.token = t) (Named t) (commaExpression g)) :
    GivesAt (Place.Valid text) (Fronted text) (expressionItem g) := by
  refine .start fun start => .take (Q := fun e => ∃ s : Place, s.Valid text ∧ s.front = start ∧
    Named s.current.token e) ?_ ?_
  · exact fun mode s e t hs hrun => ⟨s, hs.1, hs.2, hg _ mode s e t rfl hrun⟩
  · rintro e ⟨s, hs, rfl, hnamed⟩
    split
    · next name hname =>
      refine (Gives.nameItem g s.front e name).imp ?_
      rintro item (h | ⟨rfl, d, rfl⟩)
      · exact .undeclared h
      · exact .declared hs (hnamed _ hname) d
    · exact (Gives.expressionEnd g s.front e).imp fun _ => .undeclared

theorem statementItem (hg : ∀ t, GivesAt (·.current.token = t) (Named t) (commaExpression g)) :
    GivesAt (Place.Valid text) (Fronted text) (statementItem g) := by
  unfold Reading.statementItem
  refine .look (fun _ _ => ⟨_, rfl⟩) fun start => .look (fun _ _ => ⟨_, rfl⟩) fun token => ?_
  split
  · exact Gives.anywhere (.step fun _ => .pure (.undeclared (.headless rfl)))
  · exact Gives.anywhere (.step fun _ => .pure (.undeclared (.headless rfl)))
  · exact Gives.anywhere (.faultAt _)
  · next name =>
    refine .option (Q := fun _ => True) (Stays.keywordStatement? g name)
      (fun _ _ _ _ _ _ _ => trivial) (fun _ _ => .pure (.undeclared (.headless rfl))) ?_
    refine .option (Q := fun _ => True) (Stays.keywordDeclaration? g name)
      (fun _ _ _ _ _ _ _ => trivial) (fun d _ => .pure (.undeclared ?_)) ?_
    · exact undeclared_declarationItem start d
    · exact expressionItem g hg
  · exact expressionItem g hg

theorem exportItem : GivesAt (fun s => s.Valid text) (Fronted text) (exportItem g) := by
  intro mode s item u hs hrun
  unfold Reading.exportItem at hrun
  obtain ⟨_, _, hstart, hrun⟩ := exists_of_bind hrun
  obtain ⟨⟩ := hstart
  obtain ⟨_, v, hexport, hrun⟩ := exists_of_bind hrun
  have hexpect := expectToken_run (.word "export") mode s
  change expectWord "export" mode s = _ at hexpect
  rw [hexpect] at hexport
  split at hexport
  · next hword =>
    cases hexport
    obtain ⟨_, _, hstart, hrun⟩ := exists_of_bind hrun
    obtain ⟨⟩ := hstart
    obtain ⟨b, w, heat, hrun⟩ := exists_of_bind hrun
    rw [show eatWord "declare" = eatToken (.word "declare") from rfl, eatToken_run] at heat
    split at heat
    · next hdeclare =>
      cases heat
      obtain ⟨d, x, -, hrun⟩ := exists_of_bind hrun
      cases d with
      | none => exact .undeclared (Gives.exportFrom g s.front mode x item u hrun)
      | some d =>
        cases hrun
        exact .exported hs hword mode.inType hdeclare d
    · cases heat
      exact .undeclared (Gives.exportFrom g s.front mode _ item u hrun)
  · cases hexport

theorem item (hg : ∀ t, GivesAt (·.current.token = t) (Named t) (commaExpression g)) :
    GivesAt (Place.Valid text) (Fronted text) (Reading.item g) := by
  refine .look (fun _ _ => ⟨_, rfl⟩) fun _ => .ite ?_ ?_
  · exact Gives.anywhere ((Gives.importItem g).imp fun _ => .undeclared)
  · exact .look (fun _ _ => ⟨_, rfl⟩) fun _ => .ite (exportItem g) (statementItem g hg)

end Fronted

/-! ### Whole texts -/

section Repetition

variable {text : List Char} {P : α → Prop} {step : Reading (Option α)}

/-- What is known of each value of a step is known of all values when it is repeated. -/
theorem GivesAt.repeatUpTo [hmoves : Moves text step]
    (h : GivesAt (Place.Valid text) (fun o => ∀ a ∈ o, P a) step) (n : Nat) :
    GivesAt (Place.Valid text) (fun as => ∀ a ∈ as, P a) (repeatUpTo step n) := by
  induction n with
  | zero => exact Gives.anywhere .fault
  | succ n ih =>
    intro mode s as u hs hrun
    obtain ⟨o, t, ho, hrun⟩ := exists_of_bind hrun
    have hmoved := hmoves.moves mode s hs
    rw [ho] at hmoved
    cases o with
    | none =>
      cases hrun
      exact List.forall_mem_nil _
    | some a =>
      obtain ⟨rest, v, hrest, hrun⟩ := exists_of_bind hrun
      cases hrun
      refine List.forall_mem_cons.2 ⟨h mode s _ t hs ho a rfl, ?_⟩
      exact ih mode t rest _ hmoved.1 hrest

theorem GivesAt.collect [Moves text step]
    (h : GivesAt (Place.Valid text) (fun o => ∀ a ∈ o, P a) step) :
    GivesAt (Place.Valid text) (fun as => ∀ a ∈ as, P a) (collect step) :=
  .look (fun _ _ => ⟨_, rfl⟩) fun n => .repeatUpTo h n

end Repetition

/-- **What has been read at the front of each item of a text.** -/
theorem fronted_readItems {text : List Char} {items : List Item} (h : readItems text = .ok items) :
    ∀ item ∈ items, Fronted text item := by
  have hplace := Place.Valid.ofLexeme false true none (skipShebang_at text)
    (Text.isBoundary_zero text) (Nat.zero_le _)
  have hlevel := Grammar.level_laying text (text.length + 1)
  have hitem : GivesAt (Place.Valid text) (Fronted text) (Grammar.level (text.length + 1)).item :=
    Fronted.item (.level text.length) (Grammar.level_named text.length)
  have hitems : GivesAt (Place.Valid text) (fun items => ∀ item ∈ items, Fronted text item)
      (Reading.items (.level (text.length + 1))) := by
    refine .collect (.look (fun _ _ => ⟨_, rfl⟩) fun _ => .ite (.take hitem fun item h => ?_) ?_)
    · exact .pureSome h
    · exact Gives.anywhere .pureNone
  unfold readItems at h
  dsimp only at h
  split at h
  · next hrun =>
    obtain rfl := Except.ok.inj h
    exact hitems _ _ _ _ hplace hrun
  · cases h

end AmbientBundle.Source

import AmbientBundle.Declaration.Walk
import AmbientBundle.Proofs.Places

/-!
# How references are laid out

The references of a tree stand in the text in the order in which the tree is written, one after the
other, and each covers something. This is a property of every reader, and it is proved reader by
reader: a reader adds the references of what it yields after those that have been read before.

* `Tree.references`: the references of a tree as they are written.
* `Fits`: stretches of text one after the other.
* `After`: a reader that keeps in order what was read before it and what it reads.
* `Moves`, `Lays`: readers that yield no references, and readers that yield some.
-/

namespace AmbientBundle.Source

open Text

/-! ### References as they are written -/

mutual

/-- **The references of a tree**, in the order in which they are written. The options of an import
type stand before its type arguments. -/
def Tree.references : Tree → List (Node × Span)
  | .external span target => [(.external target, span)]
  | .specifier target => [(.specifier target, target.span)]
  | .importType target arguments options =>
    (.importType target, target.span) ::
      (Tree.referencesEach options ++ Tree.referencesEach arguments)
  | .moduleBlock _ _ body => Tree.referencesEach body
  | .parts _ children => Tree.referencesEach children

/-- The references of trees one after the other. -/
def Tree.referencesEach : List Tree → List (Node × Span)
  | [] => []
  | t :: ts => Tree.references t ++ Tree.referencesEach ts

end

theorem Tree.referencesEach_eq_flatMap (ts : List Tree) :
    Tree.referencesEach ts = ts.flatMap Tree.references := by
  induction ts with
  | nil => rfl
  | cons t ts ih => rw [Tree.referencesEach, ih, List.flatMap_cons]

/-- Stretches of a text one after the other between two offsets: none is empty, and none cuts
through a character. -/
def Fits (text : List Char) (lo : Nat) : List Span → Nat → Prop
  | [], hi => lo ≤ hi
  | span :: spans, hi =>
    lo ≤ span.start ∧ span.start < span.stop ∧ IsBoundary text span.start ∧
      IsBoundary text span.stop ∧ Fits text span.stop spans hi

namespace Fits

variable {text : List Char} {lo lo' mid hi hi' : Nat} {a b : List Span}

theorem le (h : Fits text lo a hi) : lo ≤ hi := by
  induction a generalizing lo with
  | nil => exact h
  | cons span spans ih =>
    obtain ⟨h1, h2, -, -, hrest⟩ := h
    have := ih hrest
    omega

theorem mono (h : Fits text lo a hi) (hhi : hi ≤ hi') : Fits text lo a hi' := by
  induction a generalizing lo with
  | nil => exact Nat.le_trans h hhi
  | cons span spans ih =>
    obtain ⟨h1, h2, h3, h4, hrest⟩ := h
    exact ⟨h1, h2, h3, h4, ih hrest⟩

theorem mono_left (h : Fits text lo a hi) (hlo : lo' ≤ lo) : Fits text lo' a hi := by
  cases a with
  | nil => exact Nat.le_trans hlo h
  | cons span spans =>
    obtain ⟨h1, hrest⟩ := h
    exact ⟨Nat.le_trans hlo h1, hrest⟩

theorem append (h : Fits text lo a mid) (h' : Fits text mid b hi) : Fits text lo (a ++ b) hi := by
  induction a generalizing lo with
  | nil => exact h'.mono_left h
  | cons span spans ih =>
    obtain ⟨h1, h2, h3, h4, hrest⟩ := h
    exact ⟨h1, h2, h3, h4, ih hrest⟩

theorem sublist (hab : a.Sublist b) (h : Fits text lo b hi) : Fits text lo a hi := by
  induction hab generalizing lo with
  | slnil => exact h
  | cons span _ ih =>
    obtain ⟨h1, h2, -, -, hrest⟩ := h
    exact ih (hrest.mono_left (by omega))
  | cons_cons span _ ih =>
    obtain ⟨h1, h2, h3, h4, hrest⟩ := h
    exact ⟨h1, h2, h3, h4, ih hrest⟩

end Fits

/-! ### What a reader yields -/

/-- Values that hold stretches of a text, in the order in which they are written. -/
class Laid (text : List Char) (α : Type) where
  stretches : α → List Span
  /-- What else is known of a value that has been read. -/
  known : α → Prop

namespace Laid

variable {text : List Char} {α β : Type}

/-- The stretches of a text that a value holds. -/
def spans (text : List Char) [h : Laid text α] (a : α) : List Span := h.stretches a

/-- What is known of a value that has been read. -/
def Sound (text : List Char) [h : Laid text α] (a : α) : Prop := h.known a

instance : Laid text Tree := ⟨fun t => t.references.map Prod.snd, fun _ => True⟩

instance : Laid text Literal := ⟨fun l => [l.span], fun _ => True⟩

instance : Laid text Pattern := ⟨fun p => spans text p.tree, fun _ => True⟩

/-- The type arguments of an expression that is not called are a part of it. -/
instance : Laid text Expression where
  stretches e := spans text e.tree
  known e :=
    match e.shape with
    | .instantiated base arguments =>
      List.Sublist (spans text base ++ arguments.flatMap (spans text)) (spans text e.tree)
    | _ => True

/-- The modifier of an item stands before what it declares. -/
instance : Laid text Item :=
  ⟨fun item => (declareSpan? text item).toList ++ spans text item.tree, fun _ => True⟩

instance : Laid text String := ⟨fun _ => [], fun _ => True⟩

instance : Laid text Bool := ⟨fun _ => [], fun _ => True⟩

instance : Laid text DeclarationKind := ⟨fun _ => [], fun _ => True⟩

instance : Laid text Shape := ⟨fun _ => [], fun _ => True⟩

instance [Laid text α] : Laid text (List α) := ⟨fun as => as.flatMap (spans text), fun _ => True⟩

instance [Laid text α] : Laid text (Option α) where
  stretches a := a.toList.flatMap (spans text)
  known a :=
    match a with
    | none => True
    | some a => Sound text a

instance [Laid text α] [Laid text β] : Laid text (α × β) where
  stretches p := spans text p.1 ++ spans text p.2
  known p := Sound text p.1 ∧ Sound text p.2

section Spans

@[simp]
theorem spans_pattern : (spans text : Pattern → List Span) = fun p => spans text p.tree := rfl

@[simp]
theorem spans_expression : (spans text : Expression → List Span) = fun e => spans text e.tree := rfl

@[simp]
theorem spans_item : (spans text : Item → List Span) =
    fun item => (declareSpan? text item).toList ++ spans text item.tree := rfl

@[simp]
theorem spans_literal (l : Literal) : spans text l = [l.span] := rfl

@[simp]
theorem spans_list [Laid text α] (as : List α) : spans text as = as.flatMap (spans text) := rfl

@[simp]
theorem spans_option [Laid text α] (a : Option α) : spans text a = a.toList.flatMap (spans text) := rfl

@[simp]
theorem spans_pair [Laid text α] [Laid text β] :
    (spans text : α × β → List Span) = fun p => spans text p.1 ++ spans text p.2 := rfl

@[simp]
theorem spans_string : (spans text : String → List Span) = fun _ => [] := rfl

@[simp]
theorem spans_bool : (spans text : Bool → List Span) = fun _ => [] := rfl

@[simp]
theorem spans_kind : (spans text : DeclarationKind → List Span) = fun _ => [] := rfl

@[simp]
theorem spans_shape : (spans text : Shape → List Span) = fun _ => [] := rfl

@[simp]
theorem flatMap_nothing (as : List α) : (as.flatMap fun _ => ([] : List Span)) = [] :=
  List.flatMap_eq_nil_iff.2 fun _ _ => rfl

theorem spans_referencesEach (ts : List Tree) :
    (Tree.referencesEach ts).map Prod.snd = ts.flatMap (spans text) := by
  rw [Tree.referencesEach_eq_flatMap, List.map_flatMap]
  rfl

@[simp]
theorem spans_parts (form : Form) (children : List Tree) :
    spans text (Tree.parts form children) = children.flatMap (spans text) := spans_referencesEach children

@[simp]
theorem spans_group (children : List Tree) :
    spans text (Tree.group children) = children.flatMap (spans text) := spans_referencesEach children

@[simp]
theorem spans_none : spans text Tree.none = [] := rfl

@[simp]
theorem spans_moduleBlock (span : Span) (name : ModuleName) (body : List Tree) :
    spans text (Tree.moduleBlock span name body) = body.flatMap (spans text) := spans_referencesEach body

@[simp]
theorem spans_specifier (target : Literal) : spans text (Tree.specifier target) = [target.span] := rfl

@[simp]
theorem spans_external (span : Span) (target : Literal) :
    spans text (Tree.external span target) = [span] := rfl

@[simp]
theorem spans_importType (target : Literal) (arguments options : List Tree) :
    spans text (Tree.importType target arguments options) =
      target.span :: (options.flatMap (spans text) ++ arguments.flatMap (spans text)) := by
  rw [← spans_referencesEach, ← spans_referencesEach, ← List.map_append]
  rfl

end Spans

end Laid

/-! ### Readers -/

section Readers

open Laid

variable {text : List Char} {α β : Type} {s t : Place} {mode : Mode} {acc : List Span}

/-- How a reader may end that has started at a place: further on, and with a value of which `post`
is known if it yields one. -/
def Ends (text : List Char) (s : Place) (post : α → Place → Prop) :
    EStateM.Result Fault Place α → Prop
  | .ok a t => t.Valid text ∧ s.Reaches t ∧ post a t
  | .error _ t => t.Valid text ∧ s.Reaches t

theorem Ends.imp {post post' : α → Place → Prop} {r : EStateM.Result Fault Place α}
    (h : Ends text s post r) (himp : ∀ a t, s.Reaches t → post a t → post' a t) :
    Ends text s post' r := by
  cases r with
  | ok a t => exact ⟨h.1, h.2.1, himp a t h.2.1 h.2.2⟩
  | error fault t => exact h

theorem Ends.reached {post : α → Place → Prop} {r : EStateM.Result Fault Place α}
    (hst : s.Reaches t) (h : Ends text t post r) : Ends text s post r := by
  cases r with
  | ok a u => exact ⟨h.1, hst.trans h.2.1, h.2.2⟩
  | error fault u => exact ⟨h.1, hst.trans h.2⟩

theorem Ends.bind {p : Reading α} {q : α → Reading β} {post : α → Place → Prop}
    {post' : β → Place → Prop} (hp : Ends text s post (p mode s))
    (hq : ∀ a t, t.Valid text → s.Reaches t → post a t → Ends text t post' (q a mode t)) :
    Ends text s post' ((p >>= q) mode s) := by
  cases hr : p mode s with
  | ok a t =>
    have hrun : (p >>= q) mode s = q a mode t := by
      simp only [Bind.bind, ReaderT.bind, EStateM.bind, hr]
    rw [hr] at hp
    rw [hrun]
    exact (hq a t hp.1 hp.2.1 hp.2.2).reached hp.2.1
  | error fault t =>
    have hrun : (p >>= q) mode s = .error fault t := by
      simp only [Bind.bind, ReaderT.bind, EStateM.bind, hr]
    rw [hr] at hp
    rw [hrun]
    exact hp

/-- A step whose result is known. -/
theorem Ends.ran {p : Reading α} {q : α → Reading β} {a : α} {post : β → Place → Prop}
    (hrun : p mode s = .ok a t) (hst : s.Reaches t) (hq : Ends text t post (q a mode t)) :
    Ends text s post ((p >>= q) mode s) := by
  have hbind : (p >>= q) mode s = q a mode t := by
    simp only [Bind.bind, ReaderT.bind, EStateM.bind, hrun]
  rw [hbind]
  exact hq.reached hst

/-- **A reader that keeps references in order.** Where it starts, the references `acc` have been
read, and where it ends, those of what it yields. -/
def After (text : List Char) [Laid text α] (acc : List Span) (p : Reading α) : Prop :=
  ∀ mode s lo, s.Valid text → Fits text lo acc s.front →
    Ends text s (fun a t => Fits text lo (spans text a) t.front ∧ Sound text a) (p mode s)

/-- A reader that moves on; nothing is said of what it yields. -/
class Moves (text : List Char) (p : Reading α) : Prop where
  moves : ∀ mode s, s.Valid text → Ends text s (fun _ _ => True) (p mode s)

/-- **A reader that lays out references**: those of what it yields stand between where it starts and
where it ends. -/
class Lays (text : List Char) [Laid text α] (p : Reading α) : Prop where
  after : After text [] p

theorem Lays.ends [Laid text α] {p : Reading α} [h : Lays text p] (mode : Mode) (hs : s.Valid text) :
    Ends text s (fun a t => Fits text s.front (spans text a) t.front ∧ Sound text a) (p mode s) :=
  h.after mode s s.front hs (Nat.le_refl _)

instance Lays.moves [Laid text α] {p : Reading α} [Lays text p] : Moves text p :=
  ⟨fun mode _ hs => (Lays.ends mode hs).imp fun _ _ _ _ => trivial⟩

namespace After

variable [Laid text α]

/-- What was read before may be more than what is needed. -/
theorem weaken {p : Reading α} {acc' : List Span} (h : After text acc' p)
    (hacc : List.Sublist acc' acc) : After text acc p :=
  fun mode s lo hs hfits => h mode s lo hs (hfits.sublist hacc)

/-- A step past something that holds no references, or none that are kept. -/
theorem step {p : Reading β} {q : β → Reading α} [h : Moves text p]
    (hq : ∀ b, After text acc (q b)) : After text acc (p >>= q) :=
  fun mode s lo hs hfits => (h.moves mode s hs).bind fun b t ht hst _ =>
    hq b mode t lo ht (hfits.mono hst.front_le)

/-- A step that takes in references. -/
theorem take [Laid text β] {p : Reading β} {q : β → Reading α} [h : Lays text p]
    (hq : ∀ b, Sound text b → After text (acc ++ spans text b) (q b)) : After text acc (p >>= q) :=
  fun mode _ lo hs hfits => (Lays.ends mode hs).bind fun b t ht _ hb =>
    hq b hb.2 mode t lo ht (hfits.append hb.1)

/-- A step that passes on references which have been taken in before. -/
theorem pass [Laid text β] {p : Reading β} {q : β → Reading α} (hp : After text acc p)
    (hq : ∀ b, Sound text b → After text (spans text b) (q b)) : After text acc (p >>= q) :=
  fun mode s lo hs hfits => (hp mode s lo hs hfits).bind fun b t ht _ hb =>
    hq b hb.2 mode t lo ht hb.1

/-- A step that may pass on references; if it does not, they are still there. -/
theorem passOption [Laid text β] {p : Reading (Option β)} {q : Option β → Reading α}
    (hp : After text acc p) (hsome : ∀ b, Sound text b → After text (spans text b) (q (some b)))
    (hnone : After text acc (q none)) : After text acc (p >>= q) :=
  fun mode s lo hs hfits => (hp mode s lo hs hfits).bind fun b t ht hst hb => by
    cases b with
    | none => exact hnone mode t lo ht (hfits.mono hst.front_le)
    | some b =>
      refine hsome b hb.2 mode t lo ht ?_
      have := hb.1
      simp only [spans_option, Option.toList_some, List.flatMap_singleton] at this
      exact this

theorem pure {a : α} (hspans : List.Sublist (spans text a) acc) (ha : Sound text a := by trivial) :
    After text acc (Pure.pure a : Reading α) :=
  fun _ s _ hs hfits => ⟨hs, .refl s, hfits.sublist hspans, ha⟩

/-- A value that has been computed before the next step. -/
theorem pureBind {b : β} {q : β → Reading α} (h : After text acc (q b)) :
    After text acc (Pure.pure b >>= q) := h

theorem ite {c : Prop} [Decidable c] {p q : Reading α} (hp : After text acc p)
    (hq : After text acc q) : After text acc (if c then p else q) := by
  split
  · exact hp
  · exact hq

/-- A step that is left out under a condition. -/
theorem stepUnless {c : Prop} [Decidable c] {p : Reading β} {q : Reading α} [Moves text p]
    (hq : After text acc q) : After text acc (if c then q else p >>= fun _ => q) :=
  ite hq (step fun _ => hq)

/-- A step that is made under a condition. -/
theorem stepIf {c : Prop} [Decidable c] {p : Reading β} {q : Reading α} [Moves text p]
    (hq : After text acc q) : After text acc (if c then p >>= fun _ => q else q) :=
  ite (step fun _ => hq) hq

/-- A reader in the place of the whole. -/
theorem tail {p : Reading α} [h : Lays text p] : After text acc p :=
  h.after.weaken (List.nil_sublist _)

end After

end Readers

end AmbientBundle.Source

import AmbientBundle.Bundle.Rules
import AmbientBundle.Proofs.Layout.Items
import AmbientBundle.Proofs.Walk
import Mathlib.Data.List.Sort

/-!
# What rewriting replaces

A visit asks for edits in the order in which it meets the references of a file, and an edit that
starts before the end of the one applied before it is dropped. So a reference is sure to be
replaced only where the visit follows the order in which the file is written, as far as references
that are replaced are concerned.

* `InOrder`: edits that are asked for one after the other, with none missing.
* `Tree.keepsOrder`, `Declaration.keepsOrder`: the condition on a file, construct by construct.
* `Tree.inOrder_iff_keepsOrder`: it is the condition for the edits to be in order.
* `Spliced`: a text with some stretches replaced and nothing else changed.
* `Declaration.keepsOrder_iff_all_replaced`: a file whose visit keeps the order has all its
  references replaced, and only such a file has edits in order and complete.
-/

namespace AmbientBundle

open Source Text

/-! ### Edits in order -/

/-- One edit covers something and ends before another starts. -/
def Edit.Before (a b : Edit) : Prop := a.span.start < a.span.stop ∧ a.span.stop ≤ b.span.start

theorem Edit.Before.irrefl (a : Edit) : ¬ a.Before a := by
  rintro ⟨hcovers, hends⟩
  omega

theorem Edit.Before.asymm {a b : Edit} (h : a.Before b) : ¬ b.Before a := by
  rintro ⟨hcovers', hends'⟩
  obtain ⟨hcovers, hends⟩ := h
  omega

/-- **The edits that are asked for come one after the other**, and none of those that are wanted is
missing. -/
def InOrder (asked wanted : List Edit) : Prop := asked.Pairwise Edit.Before ∧ wanted ⊆ asked

theorem nodup_of_before {edits : List Edit} (h : edits.Pairwise Edit.Before) : edits.Nodup := by
  refine List.Pairwise.imp ?_ h
  rintro a b hab rfl
  exact Edit.Before.irrefl a hab

theorem InOrder.eq {asked wanted : List Edit} (h : InOrder asked wanted) (hsub : asked ⊆ wanted)
    (hwanted : wanted.Pairwise Edit.Before) : asked = wanted := by
  obtain ⟨hasked, hall⟩ := h
  have hperm : asked.Perm wanted :=
    (List.perm_ext_iff_of_nodup (nodup_of_before hasked) (nodup_of_before hwanted)).2
      fun a => ⟨fun ha => hsub ha, fun ha => hall ha⟩
  exact hperm.eq_of_pairwise (fun a b _ _ hab hba => absurd hba hab.asymm) hasked hwanted

theorem inOrder_nil {wanted : List Edit} : InOrder [] wanted ↔ wanted = [] := by
  simp [InOrder]

section Parts

variable {α : Type} {asked wanted : α → List Edit} {xs : List α} {ys : List (α × Nat)}

theorem flatMap_subset_flatMap (hsub : ∀ x ∈ xs, asked x ⊆ wanted x) :
    xs.flatMap asked ⊆ xs.flatMap wanted := by
  intro a ha
  obtain ⟨x, hx, hax⟩ := List.mem_flatMap.1 ha
  exact List.mem_flatMap.2 ⟨x, hx, hsub x hx hax⟩

/-- Where the edits of parts are wanted one after the other, those of an earlier part come before
those of a later one. -/
theorem before_of_position (hwanted : (xs.flatMap wanted).Pairwise Edit.Before) {p q : α × Nat}
    (hp : p ∈ xs.zipIdx) (hq : q ∈ xs.zipIdx) (hlt : p.2 < q.2) {a b : Edit} (ha : a ∈ wanted p.1)
    (hb : b ∈ wanted q.1) : a.Before b := by
  have hpairs := List.pairwise_iff_getElem.1 (List.pairwise_flatMap.1 hwanted).2
  obtain ⟨hi, hpi⟩ := List.getElem?_eq_some_iff.1 (List.mem_zipIdx_iff_getElem?.1 hp)
  obtain ⟨hj, hqj⟩ := List.getElem?_eq_some_iff.1 (List.mem_zipIdx_iff_getElem?.1 hq)
  exact hpairs p.2 q.2 hi hj hlt a (hpi ▸ ha) b (hqj ▸ hb)

theorem eq_of_position {p q : α × Nat} (hp : p ∈ xs.zipIdx) (hq : q ∈ xs.zipIdx)
    (heq : p.2 = q.2) : p = q := by
  have hp' := List.mem_zipIdx_iff_getElem?.1 hp
  rw [heq, List.mem_zipIdx_iff_getElem?.1 hq] at hp'
  exact Prod.ext (Option.some.inj hp').symm heq

/-- An edit is wanted by one part only. -/
theorem eq_of_common_edit (hwanted : (xs.flatMap wanted).Pairwise Edit.Before) {p q : α × Nat}
    (hp : p ∈ xs.zipIdx) (hq : q ∈ xs.zipIdx) {a : Edit} (ha : a ∈ wanted p.1)
    (ha' : a ∈ wanted q.1) : p = q := by
  rcases Nat.lt_trichotomy p.2 q.2 with hlt | heq | hlt
  · exact absurd (before_of_position hwanted hp hq hlt ha ha') (Edit.Before.irrefl a)
  · exact eq_of_position hp hq heq
  · exact absurd (before_of_position hwanted hq hp hlt ha' ha) (Edit.Before.irrefl a)

/-- **Parts in some order.** The edits of parts that are visited in the order `ys` are in order when
those of each part are, and the parts that want any are visited as they are written. -/
theorem inOrder_flatMap_iff (hys : ys.Perm xs.zipIdx) (hsub : ∀ x ∈ xs, asked x ⊆ wanted x)
    (hwanted : (xs.flatMap wanted).Pairwise Edit.Before) :
    InOrder (ys.flatMap fun p => asked p.1) (xs.flatMap wanted) ↔
      (∀ x ∈ xs, InOrder (asked x) (wanted x)) ∧
        (ys.filter fun p => !(wanted p.1).isEmpty).Pairwise fun p q => p.2 < q.2 := by
  have hfst : ∀ p ∈ ys, p.1 ∈ xs := fun p hp => List.fst_mem_of_mem_zipIdx (hys.mem_iff.1 hp)
  have hposition : ∀ x ∈ xs, ∃ i, (x, i) ∈ ys := by
    intro x hx
    obtain ⟨i, hi⟩ := List.getElem?_of_mem hx
    exact ⟨i, hys.mem_iff.2 (List.mem_zipIdx_iff_getElem?.2 hi)⟩
  constructor
  · rintro ⟨hsorted, hall⟩
    obtain ⟨heach, hpairs⟩ := List.pairwise_flatMap.1 hsorted
    -- no other part can ask for an edit of this one: it would be wanted in both
    have hcomplete : ∀ p ∈ ys, wanted p.1 ⊆ asked p.1 := by
      intro p hp a ha
      obtain ⟨q, hq, haq⟩ := List.mem_flatMap.1 (hall (List.mem_flatMap.2 ⟨p.1, hfst p hp, ha⟩))
      have hpq := eq_of_common_edit hwanted (hys.mem_iff.1 hp) (hys.mem_iff.1 hq) ha
        (hsub q.1 (hfst q hq) haq)
      rw [hpq]
      exact haq
    refine ⟨fun x hx => ?_, List.pairwise_filter.2 (hpairs.imp_of_mem ?_)⟩
    · obtain ⟨i, hi⟩ := hposition x hx
      exact ⟨heach (x, i) hi, hcomplete (x, i) hi⟩
    · intro p q hp hq hcross hpne hqne
      obtain ⟨a, ha⟩ := List.exists_mem_of_ne_nil (wanted p.1) (by simpa using hpne)
      obtain ⟨b, hb⟩ := List.exists_mem_of_ne_nil (wanted q.1) (by simpa using hqne)
      have hab := hcross a (hcomplete p hp ha) b (hcomplete q hq hb)
      rcases Nat.lt_trichotomy p.2 q.2 with hlt | heq | hlt
      · exact hlt
      · have hpq := eq_of_position (hys.mem_iff.1 hp) (hys.mem_iff.1 hq) heq
        have haa := hcross a (hcomplete p hp ha) a (hcomplete q hq (hpq ▸ ha))
        exact absurd haa (Edit.Before.irrefl a)
      · have hba := before_of_position hwanted (hys.mem_iff.1 hq) (hys.mem_iff.1 hp) hlt hb ha
        exact absurd hba hab.asymm
  · rintro ⟨heach, hpositions⟩
    refine ⟨List.pairwise_flatMap.2 ⟨fun p hp => (heach p.1 (hfst p hp)).1, ?_⟩, ?_⟩
    · -- a part that wants nothing asks for nothing, so only the positions of the others count
      refine (List.pairwise_filter.1 hpositions).imp_of_mem ?_
      intro p q hp hq hlt a ha b hb
      have ha' := hsub p.1 (hfst p hp) ha
      have hb' := hsub q.1 (hfst q hq) hb
      refine before_of_position hwanted (hys.mem_iff.1 hp) (hys.mem_iff.1 hq) (hlt ?_ ?_) ha' hb'
      · simpa using List.ne_nil_of_mem ha'
      · simpa using List.ne_nil_of_mem hb'
    · intro a ha
      obtain ⟨x, hx, hax⟩ := List.mem_flatMap.1 ha
      obtain ⟨i, hi⟩ := hposition x hx
      exact List.mem_flatMap.2 ⟨(x, i), hi, (heach x hx).2 hax⟩

/-- Parts that are visited as they are written. -/
theorem inOrder_flatMap (hsub : ∀ x ∈ xs, asked x ⊆ wanted x)
    (hwanted : (xs.flatMap wanted).Pairwise Edit.Before) :
    InOrder (xs.flatMap asked) (xs.flatMap wanted) ↔ ∀ x ∈ xs, InOrder (asked x) (wanted x) := by
  have hpositions : xs.zipIdx.Pairwise fun p q => p.2 < q.2 := by
    rw [← List.pairwise_map (f := Prod.snd) (R := (· < ·)), List.zipIdx_map_snd]
    exact List.pairwise_lt_range'
  have hvisited : (xs.zipIdx.flatMap fun p => asked p.1) = xs.flatMap asked := by
    rw [← List.flatMap_map Prod.fst asked, List.zipIdx_map_fst]
  have hiff := inOrder_flatMap_iff (.refl _) hsub hwanted
  rw [and_iff_left (hpositions.filter _), hvisited] at hiff
  exact hiff

end Parts

section Pair

variable {asked wanted asked' wanted' : List Edit}

/-- Two parts that are visited as they are written. -/
theorem inOrder_append_iff (hsub : asked ⊆ wanted) (hsub' : asked' ⊆ wanted')
    (hwanted : (wanted ++ wanted').Pairwise Edit.Before) :
    InOrder (asked ++ asked') (wanted ++ wanted') ↔
      InOrder asked wanted ∧ InOrder asked' wanted' := by
  have hiff := @inOrder_flatMap _ Prod.fst Prod.snd [(asked, wanted), (asked', wanted')]
    (by simp [hsub, hsub']) (by simpa using hwanted)
  simpa using hiff

/-- Two parts of which the one that is written last is visited first. -/
theorem inOrder_append_swap_iff (hsub : asked ⊆ wanted) (hsub' : asked' ⊆ wanted')
    (hwanted : (wanted ++ wanted').Pairwise Edit.Before) :
    InOrder (asked' ++ asked) (wanted ++ wanted') ↔
      InOrder asked wanted ∧ InOrder asked' wanted' ∧ (wanted = [] ∨ wanted' = []) := by
  have hiff := @inOrder_flatMap_iff _ Prod.fst Prod.snd [(asked, wanted), (asked', wanted')]
    [((asked', wanted'), 1), ((asked, wanted), 0)] (.swap _ _ _) (by simp [hsub, hsub'])
    (by simpa using hwanted)
  have hpositions : ([((asked', wanted'), 1), ((asked, wanted), 0)].filter
      fun p => !p.1.2.isEmpty).Pairwise (fun p q => p.2 < q.2) ↔ wanted = [] ∨ wanted' = [] := by
    cases wanted <;> cases wanted' <;> simp
  rw [hpositions] at hiff
  simpa [and_assoc] using hiff

end Pair

/-! ### What is wanted and what is asked for -/

/-- The edit of a place, if it is replaced. -/
def Replacer.editsAt (r : Replacer) (place : Node × Span) : List Edit :=
  ((r place.1).map fun text => ⟨place.2, text⟩).toList

theorem Replacer.mem_editsAt {r : Replacer} {place : Node × Span} {a : Edit} :
    a ∈ r.editsAt place ↔ ∃ text, r place.1 = some text ∧ ⟨place.2, text⟩ = a := by
  rw [editsAt, Option.mem_toList, Option.map_eq_some_iff]

theorem Replacer.editsAt_eq_nil (r : Replacer) {node : Node} {span : Span} (h : r node = none) :
    r.editsAt (node, span) = [] := by
  rw [editsAt, h]
  rfl

namespace Source.Tree

variable (r : Replacer)

/-- **The edits that are wanted in a tree**: one for each reference that is replaced, in the order in
which the references are written. -/
def wanted (t : Tree) : List Edit := t.references.flatMap r.editsAt

/-- The edits that the visit of a tree asks for. -/
def asked (t : Tree) : List Edit := (AmbientBundle.Tree.visits r t).filterMap Visit.edit?

/-- Whether a reference in a tree is replaced. -/
def isTouched (t : Tree) : Bool := !(t.wanted r).isEmpty

mutual

/-- **Whether the visit of a tree keeps the order of its text**, as far as references that are
replaced are concerned. The parts of a construct that hold such references have to be visited as
they are written. The options of an import type stand before its type arguments, but are visited
after them; where the import type itself is replaced, they are not visited at all. -/
def keepsOrder : Tree → Bool
  | .external _ _ | .specifier _ => true
  | .importType target arguments options =>
    keepsOrderEach arguments &&
      if (r (.importType target)).isSome then !options.any (isTouched r)
      else keepsOrderEach options && !(options.any (isTouched r) && arguments.any (isTouched r))
  | .moduleBlock _ _ body => keepsOrderEach body
  | .parts form children =>
    keepsOrderEach children &&
      ((form.visit children.zipIdx).filter fun p => p.1.isTouched r).Pairwise fun p q => p.2 < q.2

/-- Whether the visit of each tree of a list keeps the order of its text. -/
def keepsOrderEach : List Tree → Bool
  | [] => true
  | t :: ts => keepsOrder t && keepsOrderEach ts

end

theorem keepsOrderEach_eq_all (ts : List Tree) : keepsOrderEach r ts = ts.all (keepsOrder r) := by
  induction ts with
  | nil => rfl
  | cons t ts ih => rw [keepsOrderEach, ih, List.all_cons]

/-! ### The equations of both -/

theorem wanted_importType (target : Literal) (arguments options : List Tree) :
    wanted r (.importType target arguments options) =
      r.editsAt (.importType target, target.span) ++
        (options.flatMap (wanted r) ++ arguments.flatMap (wanted r)) := by
  simp only [wanted, references, referencesEach_eq_flatMap, List.flatMap_cons, List.flatMap_append,
    List.flatMap_assoc]
  rfl

theorem wanted_moduleBlock (span : Span) (name : ModuleName) (body : List Tree) :
    wanted r (.moduleBlock span name body) = body.flatMap (wanted r) := by
  simp only [wanted, references, referencesEach_eq_flatMap, List.flatMap_assoc]
  rfl

theorem wanted_parts (form : Form) (children : List Tree) :
    wanted r (.parts form children) = children.flatMap (wanted r) := by
  simp only [wanted, references, referencesEach_eq_flatMap, List.flatMap_assoc]
  rfl

theorem edits_visitsEach (ts : List Tree) :
    (AmbientBundle.Tree.visitsEach r ts).flatten.filterMap Visit.edit? = ts.flatMap (asked r) := by
  rw [AmbientBundle.Tree.visitsEach_eq_map, ← List.flatMap_def, List.filterMap_flatMap]
  rfl

theorem filterMap_offer (node : Node) (span : Span) (visits : List Visit) :
    (r.offer node span :: visits).filterMap Visit.edit? =
      r.editsAt (node, span) ++ visits.filterMap Visit.edit? := by
  rw [List.filterMap_cons, Replacer.editsAt, Visit.edit?, Replacer.offer]
  cases r node <;> rfl

theorem asked_external (span : Span) (target : Literal) :
    asked r (.external span target) = wanted r (.external span target) := by
  rw [asked, AmbientBundle.Tree.visits, filterMap_offer]
  rfl

theorem asked_specifier (target : Literal) :
    asked r (.specifier target) = wanted r (.specifier target) := by
  rw [asked, AmbientBundle.Tree.visits, filterMap_offer]
  rfl

theorem asked_importType (target : Literal) (arguments options : List Tree) :
    asked r (.importType target arguments options) =
      if (r (.importType target)).isSome then
        r.editsAt (.importType target, target.span) ++ arguments.flatMap (asked r)
      else arguments.flatMap (asked r) ++ options.flatMap (asked r) := by
  rw [asked, AmbientBundle.Tree.visits]
  by_cases hsome : (r (.importType target)).isSome
  · rw [if_pos hsome, if_pos (by exact hsome), filterMap_offer, edits_visitsEach]
  · rw [if_neg hsome, if_neg (by exact hsome), List.cons_append, filterMap_offer,
      r.editsAt_eq_nil (Option.not_isSome_iff_eq_none.1 hsome), List.nil_append,
      List.filterMap_append, edits_visitsEach, edits_visitsEach]

theorem asked_parts (form : Form) (children : List Tree) :
    asked r (.parts form children) =
      (form.visit children.zipIdx).flatMap fun p => asked r p.1 := by
  have hchildren : children.map (AmbientBundle.Tree.visits r) =
      children.zipIdx.map fun p => AmbientBundle.Tree.visits r p.1 := by
    rw [← Function.comp_def (AmbientBundle.Tree.visits r), ← List.map_map, List.zipIdx_map_fst]
  rw [asked, AmbientBundle.Tree.visits, AmbientBundle.Tree.visitsEach_eq_map, hchildren,
    Form.visit_map, ← List.flatMap_def, List.filterMap_flatMap]
  rfl

/-! ### When the visit is in order -/

variable {r}

theorem any_isTouched (ts : List Tree) :
    ts.any (isTouched r) = true ↔ ts.flatMap (wanted r) ≠ [] := by
  simp [isTouched]

theorem inOrder_each_iff {ts : List Tree}
    (hts : ∀ t ∈ ts, (wanted r t).Pairwise Edit.Before →
      (InOrder (asked r t) (wanted r t) ↔ keepsOrder r t = true))
    (hwanted : (ts.flatMap (wanted r)).Pairwise Edit.Before) :
    (∀ t ∈ ts, InOrder (asked r t) (wanted r t)) ↔ keepsOrderEach r ts = true := by
  rw [keepsOrderEach_eq_all, List.all_eq_true]
  exact forall₂_congr fun t ht => hts t ht ((List.pairwise_flatMap.1 hwanted).1 t ht)

variable (hr : ∀ name, r (.moduleBlock name) = Option.none)
include hr

theorem asked_moduleBlock (span : Span) (name : ModuleName) (body : List Tree) :
    asked r (.moduleBlock span name body) = body.flatMap (asked r) := by
  rw [asked, AmbientBundle.Tree.visits, if_neg (by simp [Replacer.offer, hr]),
    filterMap_offer, r.editsAt_eq_nil (hr name), List.nil_append, edits_visitsEach]

/-- **Only what is wanted is asked for.** -/
theorem asked_subset_wanted (t : Tree) : asked r t ⊆ wanted r t := by
  induction t using Source.Tree.inductionOn with
  | external span target => rw [asked_external]; exact List.Subset.refl _
  | specifier target => rw [asked_specifier]; exact List.Subset.refl _
  | importType target arguments options harguments hoptions =>
    have hargs := flatMap_subset_flatMap harguments
    have hopts := flatMap_subset_flatMap hoptions
    intro a ha
    rw [asked_importType] at ha
    rw [wanted_importType, List.mem_append, List.mem_append]
    split at ha
    · rcases List.mem_append.1 ha with htarget | hinside
      · exact .inl htarget
      · exact .inr (.inr (hargs hinside))
    · rcases List.mem_append.1 ha with hinside | hinside
      · exact .inr (.inr (hargs hinside))
      · exact .inr (.inl (hopts hinside))
  | moduleBlock span name body hbody =>
    rw [asked_moduleBlock hr, wanted_moduleBlock]
    exact flatMap_subset_flatMap hbody
  | parts form children hchildren =>
    rw [asked_parts, wanted_parts]
    intro a ha
    obtain ⟨p, hp, hap⟩ := List.mem_flatMap.1 ha
    have hchild := List.fst_mem_of_mem_zipIdx (Form.mem_visit.1 hp)
    exact List.mem_flatMap.2 ⟨p.1, hchild, hchildren p.1 hchild hap⟩

theorem inOrder_flatMap_iff_keepsOrder {ts : List Tree}
    (hts : ∀ t ∈ ts, (wanted r t).Pairwise Edit.Before →
      (InOrder (asked r t) (wanted r t) ↔ keepsOrder r t = true))
    (hwanted : (ts.flatMap (wanted r)).Pairwise Edit.Before) :
    InOrder (ts.flatMap (asked r)) (ts.flatMap (wanted r)) ↔ keepsOrderEach r ts = true := by
  rw [inOrder_flatMap (fun t _ => asked_subset_wanted hr t) hwanted, inOrder_each_iff hts hwanted]

/-- An import type: its options and its type arguments have to be in order, and may not both hold
references that are replaced. Where it is replaced itself, its options may not hold any. -/
theorem inOrder_importType {target : Literal} {arguments options : List Tree}
    (harguments : ∀ t ∈ arguments, (wanted r t).Pairwise Edit.Before →
      (InOrder (asked r t) (wanted r t) ↔ keepsOrder r t = true))
    (hoptions : ∀ t ∈ options, (wanted r t).Pairwise Edit.Before →
      (InOrder (asked r t) (wanted r t) ↔ keepsOrder r t = true))
    (hwanted : (wanted r (.importType target arguments options)).Pairwise Edit.Before) :
    InOrder (asked r (.importType target arguments options))
      (wanted r (.importType target arguments options)) ↔
      keepsOrder r (.importType target arguments options) = true := by
  rw [wanted_importType] at hwanted ⊢
  obtain ⟨htarget, hinside, -⟩ := List.pairwise_append.1 hwanted
  obtain ⟨hwantedOpts, hwantedArgs, -⟩ := List.pairwise_append.1 hinside
  have hsubArgs := flatMap_subset_flatMap fun t (_ : t ∈ arguments) => asked_subset_wanted hr t
  have hsubOpts := flatMap_subset_flatMap fun t (_ : t ∈ options) => asked_subset_wanted hr t
  have hargs := inOrder_flatMap_iff_keepsOrder hr harguments hwantedArgs
  have hopts := inOrder_flatMap_iff_keepsOrder hr hoptions hwantedOpts
  rw [asked_importType, keepsOrder, Bool.and_eq_true]
  by_cases hsome : (r (.importType target)).isSome
  · -- the options are not visited: they count as a part that nothing is asked for in
    have hskipped := inOrder_append_iff (List.nil_subset _) hsubArgs hinside
    rw [List.nil_append, inOrder_nil, hargs] at hskipped
    have hrest := List.Subset.trans hsubArgs
      (List.subset_append_right (options.flatMap (wanted r)) _)
    rw [if_pos hsome, if_pos hsome, inOrder_append_iff (List.Subset.refl _) hrest hwanted, hskipped,
      Bool.not_eq_true', ← Bool.not_eq_true, any_isTouched, not_not]
    exact ⟨fun h => h.2.symm, fun h => ⟨⟨htarget, List.Subset.refl _⟩, h.symm⟩⟩
  · -- the options are written before the type arguments and visited after them
    have hswap := inOrder_append_swap_iff hsubOpts hsubArgs hinside
    rw [hargs, hopts] at hswap
    rw [if_neg hsome, if_neg hsome, r.editsAt_eq_nil (Option.not_isSome_iff_eq_none.1 hsome),
      List.nil_append, hswap, Bool.and_eq_true, Bool.not_eq_true', ← Bool.not_eq_true,
      Bool.and_eq_true, any_isTouched, any_isTouched]
    tauto

/-- **The edits of a tree are in order** exactly if its visit keeps the order of the text. -/
theorem inOrder_iff_keepsOrder (t : Tree) (hwanted : (wanted r t).Pairwise Edit.Before) :
    InOrder (asked r t) (wanted r t) ↔ keepsOrder r t = true := by
  induction t using Source.Tree.inductionOn with
  | external span target =>
    rw [asked_external]
    exact iff_of_true ⟨hwanted, List.Subset.refl _⟩ rfl
  | specifier target =>
    rw [asked_specifier]
    exact iff_of_true ⟨hwanted, List.Subset.refl _⟩ rfl
  | importType target arguments options harguments hoptions =>
    exact inOrder_importType hr harguments hoptions hwanted
  | moduleBlock span name body hbody =>
    rw [wanted_moduleBlock] at hwanted ⊢
    rw [asked_moduleBlock hr, keepsOrder]
    exact inOrder_flatMap_iff_keepsOrder hr hbody hwanted
  | parts form children hchildren =>
    rw [wanted_parts] at hwanted ⊢
    rw [asked_parts, keepsOrder, Bool.and_eq_true, decide_eq_true_iff,
      inOrder_flatMap_iff (form.visit_perm _) (fun t _ => asked_subset_wanted hr t) hwanted,
      inOrder_each_iff hchildren hwanted]
    rfl

end Source.Tree

/-! ### Splicing -/

/-- **A text with some stretches replaced**: `Spliced text offset edits result` holds if `text`, whose
first character has the given offset, becomes `result` by putting the text of each edit in the place
of what its span covers, with everything between the spans left as it is. -/
inductive Spliced : List Char → Nat → List Edit → List Char → Prop
  | rest (text : List Char) (offset : Nat) : Spliced text offset [] text
  | edit {gap old text result : List Char} {offset : Nat} {e : Edit} {edits : List Edit} :
      e.span = ⟨offset + byteLength gap, offset + byteLength (gap ++ old)⟩ →
      Spliced text (offset + byteLength (gap ++ old)) edits result →
      Spliced (gap ++ old ++ text) offset (e :: edits) (gap ++ e.text.toList ++ result)

theorem Source.Fits.le_start {text : List Char} {lo hi : Nat} {spans : List Span}
    (h : Fits text lo spans hi) {span : Span} (hspan : span ∈ spans) : lo ≤ span.start := by
  induction spans generalizing lo with
  | nil => cases hspan
  | cons first spans ih =>
    obtain ⟨hlo, hcovers, -, -, hrest⟩ := h
    rcases List.mem_cons.1 hspan with rfl | hspan
    · exact hlo
    · have := ih hrest hspan
      omega

/-- Stretches of a text one after the other are different. -/
theorem Source.Fits.nodup {text : List Char} {lo hi : Nat} {spans : List Span}
    (h : Fits text lo spans hi) : spans.Nodup := by
  induction spans generalizing lo with
  | nil => exact .nil
  | cons span spans ih =>
    obtain ⟨-, hcovers, -, -, hrest⟩ := h
    refine List.nodup_cons.2 ⟨fun hspan => ?_, ih hrest⟩
    have hstart := hrest.le_start hspan
    omega

theorem before_of_fits {text : List Char} {lo hi : Nat} {edits : List Edit}
    (h : Fits text lo (edits.map Edit.span) hi) : edits.Pairwise Edit.Before := by
  induction edits generalizing lo with
  | nil => exact .nil
  | cons e edits ih =>
    obtain ⟨-, hcovers, -, -, hrest⟩ := h
    refine .cons (fun e' he' => ?_) (ih hrest)
    exact ⟨hcovers, hrest.le_start (List.mem_map_of_mem he')⟩

/-- The span of an edit cuts the rest of a text into a gap, what is replaced, and what comes after
it. -/
theorem Edit.exists_cut {source front text : List Char} {e : Edit} (hsource : source = front ++ text)
    (hlo : byteLength front ≤ e.span.start) (hle : e.span.start ≤ e.span.stop)
    (hstart : IsBoundary source e.span.start) (hstop : IsBoundary source e.span.stop) :
    ∃ gap old after, text = gap ++ old ++ after ∧
      e.span = ⟨byteLength front + byteLength gap, byteLength front + byteLength (gap ++ old)⟩ := by
  obtain ⟨before, rest, hbefore, hstartLength⟩ := hstart
  obtain ⟨before', after, hbefore', hstopLength⟩ := hstop
  obtain ⟨gap, rfl, rfl⟩ := front_le (hsource.symm.trans hbefore) (by omega)
  obtain ⟨old, rfl, rfl⟩ := front_le (hbefore.symm.trans hbefore') (by omega)
  refine ⟨gap, old, after, by rw [List.append_assoc], ?_⟩
  rw [← byteLength_append, ← byteLength_append, ← List.append_assoc, hstartLength, hstopLength]

/-- **The first edit of a pass**, if it is kept: the gap before it stays, its text comes in the place
of what it covers, and the pass goes on after it. -/
theorem applyFrom?_cut {source front gap old after result : List Char} {e : Edit} {edits : List Edit}
    (hsource : source = front ++ (gap ++ old ++ after))
    (hspan : e.span = ⟨byteLength front + byteLength gap, byteLength front + byteLength (gap ++ old)⟩)
    (happly : applyFrom? source (byteLength (front ++ (gap ++ old))) edits = some result) :
    applyFrom? source (byteLength front) (e :: edits) = some (gap ++ e.text.toList ++ result) := by
  have hgap : slice? (byteLength front) e.span.start source = some gap := by
    refine slice?_eq_some.2 ⟨front, old ++ after, ?_, rfl, ?_⟩
    · rw [hsource]
      simp only [List.append_assoc]
    · rw [hspan, byteLength_append]
  have hstop : e.span.stop = byteLength (front ++ (gap ++ old)) := by
    rw [hspan, byteLength_append front]
  have hwithin : e.span.stop ≤ byteLength source := by
    simp only [hstop, hsource, byteLength_append]
    omega
  have hkept : ¬ (e.span.start < byteLength front || byteLength source < e.span.stop) = true := by
    have hstart : byteLength front ≤ e.span.start := by
      rw [hspan]
      exact Nat.le_add_right _ _
    simp only [Bool.or_eq_true, decide_eq_true_eq]
    omega
  rw [applyFrom?, if_neg hkept, hgap, hstop, happly]
  rfl

/-- **Edits that fit one after the other are all applied.** -/
theorem applyFrom?_of_fits {source : List Char} {edits : List Edit} {front text : List Char}
    (hsource : source = front ++ text)
    (h : Fits source (byteLength front) (edits.map Edit.span) (byteLength source)) :
    ∃ result, applyFrom? source (byteLength front) edits = some result ∧
      Spliced text (byteLength front) edits result := by
  induction edits generalizing front text with
  | nil => exact ⟨text, dropBytes?_eq_some.2 ⟨front, hsource, rfl⟩, .rest text _⟩
  | cons e edits ih =>
    obtain ⟨hlo, hcovers, hstart, hstop, hrest⟩ := h
    obtain ⟨gap, old, after, rfl, hspan⟩ :=
      Edit.exists_cut hsource hlo (Nat.le_of_lt hcovers) hstart hstop
    have hafter : source = front ++ (gap ++ old) ++ after := by rw [hsource, List.append_assoc front]
    have hoffset : byteLength (front ++ (gap ++ old)) = e.span.stop := by
      rw [hspan, byteLength_append front]
    obtain ⟨result, happly, hspliced⟩ := ih hafter (hoffset ▸ hrest)
    refine ⟨gap ++ e.text.toList ++ result, applyFrom?_cut hsource hspan happly, .edit hspan ?_⟩
    rwa [byteLength_append front] at hspliced

/-! ### Whole files -/

namespace Declaration

variable {d : Declaration}

/-- The references of a file, in the order in which they are written. -/
def references (d : Declaration) : List (Node × Span) :=
  d.items.flatMap fun item => item.tree.references

/-- **Whether the visit of a file keeps the order of its text**, as far as references that are
replaced are concerned. -/
def keepsOrder (d : Declaration) (r : Replacer) : Bool :=
  d.items.all fun item => item.tree.keepsOrder r

/-- The place of the modifier of an item, if it is one that can be dropped. -/
def modifiers (d : Declaration) (item : Item) : List (Node × Span) :=
  ((declareSpan? d.source.toList item).map fun span => (Node.declareKeyword, span)).toList

/-- The places of a file that may be replaced, in the order in which they are written. -/
def places (d : Declaration) : List (Node × Span) :=
  d.items.flatMap fun item => d.modifiers item ++ item.tree.references

/-- **The edits that are wanted in a file**, in the order in which their places are written. -/
def wanted (d : Declaration) (r : Replacer) : List Edit := d.places.flatMap r.editsAt

section Order

variable (d) (r : Replacer)

theorem wanted_eq_flatMap : d.wanted r =
    d.items.flatMap fun item => (d.modifiers item).flatMap r.editsAt ++ item.tree.wanted r := by
  simp only [wanted, places, List.flatMap_assoc, List.flatMap_append]
  rfl

theorem edits_eq_flatMap : d.edits r =
    d.items.flatMap fun item => (d.modifiers item).flatMap r.editsAt ++ item.tree.asked r := by
  have hitem : ∀ item, (itemVisits r d.source.toList item).filterMap Visit.edit? =
      (d.modifiers item).flatMap r.editsAt ++ item.tree.asked r := by
    intro item
    rw [itemVisits, List.filterMap_append, modifiers]
    cases declareSpan? d.source.toList item with
    | none => rfl
    | some span =>
      rw [Option.map_some, Option.toList_some, Tree.filterMap_offer]
      simp [Tree.asked]
  rw [edits, visits, List.filterMap_flatMap]
  simp only [hitem]

variable {d r} (hr : ∀ name, r (.moduleBlock name) = none)
include hr

theorem itemEdits_subset (item : Item) :
    (d.modifiers item).flatMap r.editsAt ++ item.tree.asked r ⊆
      (d.modifiers item).flatMap r.editsAt ++ item.tree.wanted r := by
  intro a ha
  rcases List.mem_append.1 ha with hmodifier | htree
  · exact List.mem_append_left _ hmodifier
  · exact List.mem_append_right _ (Tree.asked_subset_wanted hr item.tree htree)

theorem edits_subset_wanted : d.edits r ⊆ d.wanted r := by
  rw [edits_eq_flatMap, wanted_eq_flatMap]
  exact flatMap_subset_flatMap fun item _ => itemEdits_subset hr item

/-- **The edits of a file are in order** exactly if its visit keeps the order of the text. -/
theorem inOrder_iff_keepsOrder (hwanted : (d.wanted r).Pairwise Edit.Before) :
    InOrder (d.edits r) (d.wanted r) ↔ d.keepsOrder r = true := by
  rw [wanted_eq_flatMap] at hwanted ⊢
  rw [edits_eq_flatMap, inOrder_flatMap (fun item _ => itemEdits_subset hr item) hwanted,
    keepsOrder, List.all_eq_true]
  refine forall₂_congr fun item hitem => ?_
  have hitemWanted := (List.pairwise_flatMap.1 hwanted).1 item hitem
  obtain ⟨hmodifiers, htree, -⟩ := List.pairwise_append.1 hitemWanted
  rw [inOrder_append_iff (List.Subset.refl _) (Tree.asked_subset_wanted hr item.tree) hitemWanted,
    Tree.inOrder_iff_keepsOrder hr item.tree htree]
  exact and_iff_right ⟨hmodifiers, List.Subset.refl _⟩

end Order

/-! ### Files that have been read -/

section Parsed

variable {source : String}

/-- The items of a file are read from what comes after a byte-order mark. -/
theorem readItems_dropMark_of_parse (hparse : parse source = .ok d) :
    readItems (dropMark source.toList) = .ok d.items := by
  unfold parse at hparse
  split at hparse
  · next items hitems =>
    obtain rfl := Except.ok.inj hparse
    exact hitems
  · cases hparse

theorem readItems_of_parse (hparse : parse source = .ok d)
    (hmark : source.toList.head? ≠ some byteOrderMark) :
    readItems source.toList = .ok d.items := by
  have hitems := readItems_dropMark_of_parse hparse
  rwa [dropMark_eq_self hmark] at hitems

theorem spans_editsAt_sublist (r : Replacer) (places : List (Node × Span)) :
    ((places.flatMap r.editsAt).map Edit.span).Sublist (places.map Prod.snd) := by
  induction places with
  | nil => exact .slnil
  | cons place places ih =>
    rw [List.flatMap_cons, List.map_append, List.map_cons, Replacer.editsAt]
    cases r place.1 with
    | none => exact ih.cons _
    | some text => exact ih.cons_cons _

/-- The edits that are wanted stand one after the other in the text. -/
theorem fits_wanted (hparse : parse source = .ok d)
    (hmark : source.toList.head? ≠ some byteOrderMark) (r : Replacer) :
    Fits source.toList 0 ((d.wanted r).map Edit.span) (byteLength source.toList) := by
  have hitems := readItems_of_parse hparse hmark
  obtain rfl := source_of_parse hparse
  have hplaces : d.places.map Prod.snd = Laid.spans d.source.toList d.items := by
    rw [places, List.map_flatMap]
    refine List.flatMap_congr fun item _ => ?_
    rw [List.map_append, modifiers]
    cases hspan : declareSpan? d.source.toList item <;> simp [Laid.spans, Laid.stretches, hspan]
  refine Fits.sublist (spans_editsAt_sublist r d.places) ?_
  rw [hplaces]
  exact fits_readItems hitems

end Parsed

end Declaration

/-! ### Rewriting for a bundle -/

/-- How a reference to a module is written in the place of a node. -/
def Node.referring (id : String) : Node → String
  | .external _ => "require('" ++ id ++ "')"
  | _ => "'" ++ id ++ "'"

namespace Resolver

variable {r : Resolver} {current : String} {node : Node}

theorem rules_eq_some {specifier id : String} (hnode : node.referenced? = some specifier)
    (hid : r.resolve specifier current = some id) :
    r.rules current node = some (node.referring id) := by
  cases node with
  | external target | specifier target | importType target =>
    rw [rules, hnode, Option.bind_some, hid]
    rfl
  | declareKeyword | moduleBlock name => cases hnode

/-- **What is replaced**: modifiers, and references that are resolved. -/
theorem of_rules_eq_some {text : String} (h : r.rules current node = some text) :
    node = .declareKeyword ∨ ∃ specifier id, node.referenced? = some specifier ∧
      r.resolve specifier current = some id ∧ text = node.referring id := by
  cases node with
  | external target | specifier target | importType target =>
    obtain ⟨id, hid, rfl⟩ := Option.map_eq_some_iff.1 h
    obtain ⟨specifier, hnode, hid⟩ := Option.bind_eq_some_iff.1 hid
    exact .inr ⟨specifier, id, hnode, hid, rfl⟩
  | declareKeyword => exact .inl rfl
  | moduleBlock name => cases h

end Resolver

theorem Source.Tree.references_ne_declareKeyword (t : Tree) :
    ∀ place ∈ t.references, place.1 ≠ .declareKeyword := by
  have heach : ∀ ts : List Tree, (∀ t ∈ ts, ∀ place ∈ t.references, place.1 ≠ .declareKeyword) →
      ∀ place ∈ referencesEach ts, place.1 ≠ .declareKeyword := by
    intro ts hts place hplace
    rw [referencesEach_eq_flatMap] at hplace
    obtain ⟨t, ht, hplace⟩ := List.mem_flatMap.1 hplace
    exact hts t ht place hplace
  induction t using Source.Tree.inductionOn with
  | external span target => simp [references]
  | specifier target => simp [references]
  | importType target arguments options harguments hoptions =>
    intro place hplace
    rcases List.mem_cons.1 hplace with rfl | hplace
    · exact fun h => nomatch h
    · rcases List.mem_append.1 hplace with hplace | hplace
      · exact heach options hoptions place hplace
      · exact heach arguments harguments place hplace
  | moduleBlock span name body hbody => exact heach body hbody
  | parts form children hchildren => exact heach children hchildren

namespace Declaration

/-- **Nothing that can be resolved is lost where the visit keeps the order of the text**, and only
there: the edits of a file that has been read then come one after the other, every reference that is
resolved has its edit, and the rewritten text is the file with all these edits made. -/
theorem keepsOrder_iff_all_replaced {source : String} {d : Declaration}
    (hparse : parse source = .ok d) (hmark : source.toList.head? ≠ some byteOrderMark)
    (r : Resolver) (current : String) :
    d.keepsOrder (r.rules current) = true ↔
      (d.edits (r.rules current)).Pairwise Edit.Before ∧
      (∀ node span specifier id, (node, span) ∈ d.references →
        node.referenced? = some specifier → r.resolve specifier current = some id →
        ⟨span, node.referring id⟩ ∈ d.edits (r.rules current)) ∧
      ∃ output, d.replace? (r.rules current) = some output ∧
        Spliced source.toList 0 (d.edits (r.rules current)) output.toList := by
  have hr : ∀ name, r.rules current (.moduleBlock name) = none := fun _ => rfl
  have hfits := fits_wanted hparse hmark (r.rules current)
  have hwanted := before_of_fits hfits
  rw [← inOrder_iff_keepsOrder hr hwanted]
  constructor
  · intro horder
    -- edits in order with none missing are the wanted ones, and those fit
    have hedits := horder.eq (edits_subset_wanted hr) hwanted
    refine ⟨horder.1, fun node span specifier id hreference hnode hid => horder.2 ?_, ?_⟩
    · obtain ⟨item, hitem, hreference⟩ := List.mem_flatMap.1 hreference
      have hplace : (node, span) ∈ d.places :=
        List.mem_flatMap.2 ⟨item, hitem, List.mem_append_right _ hreference⟩
      have hrule := Resolver.rules_eq_some hnode hid
      exact List.mem_flatMap.2 ⟨(node, span), hplace, Replacer.mem_editsAt.2 ⟨_, hrule, rfl⟩⟩
    · obtain ⟨result, happly, hspliced⟩ := applyFrom?_of_fits (List.nil_append _).symm hfits
      refine ⟨String.ofList result, ?_, ?_⟩
      · rw [replace?, applyEdits?, source_of_parse hparse, hedits]
        exact congrArg (Option.map String.ofList) happly
      · rw [hedits, String.toList_ofList]
        exact hspliced
  · rintro ⟨hsorted, hall, -⟩
    refine ⟨hsorted, fun a ha => ?_⟩
    obtain ⟨place, hplace, hat⟩ := List.mem_flatMap.1 ha
    obtain ⟨item, hitem, hplace⟩ := List.mem_flatMap.1 hplace
    -- the edit of a modifier is asked for in any case
    rcases List.mem_append.1 hplace with hmodifier | hreference
    · rw [edits_eq_flatMap]
      have hasked := List.mem_append_left (item.tree.asked (r.rules current))
        (List.mem_flatMap.2 ⟨place, hmodifier, hat⟩)
      exact List.mem_flatMap.2 ⟨item, hitem, hasked⟩
    · obtain ⟨text, hrule, rfl⟩ := Replacer.mem_editsAt.1 hat
      rcases Resolver.of_rules_eq_some hrule with hdeclare | ⟨specifier, id, hnode, hid, rfl⟩
      · exact absurd hdeclare (item.tree.references_ne_declareKeyword place hreference)
      · exact hall place.1 place.2 specifier id (List.mem_flatMap.2 ⟨item, hitem, hreference⟩)
          hnode hid

/-- What a parsed text gives, from a run. -/
theorem exists_of_parse {source : String} {α : Type} {f : Declaration → α} {a : α}
    (h : (parse source).toOption.map f = some a) : ∃ d, parse source = .ok d ∧ f d = a := by
  cases hparse : parse source with
  | error place =>
    rw [hparse] at h
    cases h
  | ok d =>
    rw [hparse] at h
    exact ⟨d, rfl, Option.some.inj h⟩

/-- A text with references in an import, and in the parameters and the result of a function. -/
def orderedSample : String :=
  "import A from './a';\nexport declare function f(x: import('../b').B): import('./c').D;\n"

theorem keepsOrder_iff_all_replaced_function : ∃ d output,
    parse orderedSample = .ok d ∧ orderedSample.toList.head? ≠ some byteOrderMark ∧
    output = "import A from 'm/a';\nexport function f(x: import('b').B): import('m/c').D;\n" ∧
    d.replace? (Resolver.rules ⟨[], none, none⟩ "m/cur") = some output ∧
    Spliced orderedSample.toList 0 (d.edits (Resolver.rules ⟨[], none, none⟩ "m/cur"))
      output.toList := by
  have hmark : orderedSample.toList.head? ≠ some byteOrderMark := by decide +kernel
  have hrun : ∃ d, parse orderedSample = .ok d ∧
      (d.keepsOrder (Resolver.rules ⟨[], none, none⟩ "m/cur"),
        d.replace? (Resolver.rules ⟨[], none, none⟩ "m/cur")) = (true, some
        "import A from 'm/a';\nexport function f(x: import('b').B): import('m/c').D;\n") :=
    exists_of_parse (by decide +kernel)
  obtain ⟨d, hparse, hrun⟩ := hrun
  obtain ⟨hkeeps, hreplace⟩ := Prod.mk.inj hrun
  obtain ⟨-, -, output, houtput, hspliced⟩ :=
    (keepsOrder_iff_all_replaced hparse hmark ⟨[], none, none⟩ "m/cur").1 hkeeps
  rw [hreplace] at houtput
  exact ⟨d, output, hparse, hmark, (Option.some.inj houtput).symm, hreplace.trans houtput, hspliced⟩

/-- **A reference that is lost.** The type parameters of a function are visited after its parameters,
so the edit of the reference in them comes too late and is dropped. -/
theorem reference_in_type_parameter_lost : ∃ d,
    parse "export declare function f<T extends import('./a').X>(x: import('./b').Y): void;\n"
      = .ok d ∧
    d.keepsOrder (Resolver.rules ⟨[], none, none⟩ "m/cur") = false ∧
    d.replace? (Resolver.rules ⟨[], none, none⟩ "m/cur") =
      some "export function f<T extends import('./a').X>(x: import('m/b').Y): void;\n" := by
  have hrun : ∃ d, parse
      "export declare function f<T extends import('./a').X>(x: import('./b').Y): void;\n" = .ok d ∧
      (d.keepsOrder (Resolver.rules ⟨[], none, none⟩ "m/cur"),
        d.replace? (Resolver.rules ⟨[], none, none⟩ "m/cur")) = (false, some
        "export function f<T extends import('./a').X>(x: import('m/b').Y): void;\n") :=
    exists_of_parse (by decide +kernel)
  obtain ⟨d, hparse, hrun⟩ := hrun
  exact ⟨d, hparse, Prod.mk.inj hrun⟩

end Declaration

end AmbientBundle

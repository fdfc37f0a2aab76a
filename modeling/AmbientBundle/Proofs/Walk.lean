import AmbientBundle.Edit
import Mathlib.Data.List.Perm.Basic

/-!
# Visits of a tree

What a visit offers, whatever the replacer answers.

* `Tree.inductionOn`: induction over a tree, through its lists of parts.
* `Form.visit_perm`, `Form.visit_map`: every part of a construct is visited once, in an order that
  does not depend on what the parts are.
* `Tree.visits_congr`, `Declaration.visits_congr`: a visit depends on the answers of the replacer to
  the nodes that stand in the tree, and on nothing else of it.
-/

namespace AmbientBundle

open Source

/-- Induction over a tree. -/
theorem Source.Tree.inductionOn {P : Tree → Prop} (external : ∀ span target, P (.external span target))
    (specifier : ∀ target, P (.specifier target))
    (importType : ∀ target arguments options, (∀ t ∈ arguments, P t) → (∀ t ∈ options, P t) →
      P (.importType target arguments options))
    (moduleBlock : ∀ span name body, (∀ t ∈ body, P t) → P (.moduleBlock span name body))
    (parts : ∀ form children, (∀ t ∈ children, P t) → P (.parts form children)) (t : Tree) : P t :=
  @Tree.rec P (fun ts => ∀ t ∈ ts, P t) external specifier importType moduleBlock parts
    (fun _ h => absurd h List.not_mem_nil)
    (fun _ _ hhead htail _ h => (List.mem_cons.1 h).elim (fun e => e ▸ hhead) (htail _)) t

namespace Source.Form

variable {α β : Type}

/-- **Every part is visited once.** -/
theorem visit_perm (form : Form) (parts : List α) : (form.visit parts).Perm parts := by
  classical
  rw [List.perm_iff_count]
  intro a
  unfold visit
  split <;> simp only [List.count_cons, List.count_nil] <;> omega

theorem mem_visit {form : Form} {parts : List α} {a : α} : a ∈ form.visit parts ↔ a ∈ parts :=
  (form.visit_perm parts).mem_iff

/-- The order of a visit does not depend on what the parts are. -/
theorem visit_map (form : Form) (f : α → β) (parts : List α) :
    form.visit (parts.map f) = (form.visit parts).map f := by
  -- no form looks at more than five parts
  rcases parts with _ | ⟨a, _ | ⟨b, _ | ⟨c, _ | ⟨d, _ | ⟨e, _ | ⟨x, xs⟩⟩⟩⟩⟩⟩ <;> cases form <;> rfl

end Source.Form

theorem Replacer.offer_congr {r s : Replacer} {n : Node} (h : r n = s n) (span : Span) :
    r.offer n span = s.offer n span := by
  rw [offer, offer, h]

namespace Tree

variable {r s : Replacer}

theorem visitsEach_eq_map (r : Replacer) (ts : List Tree) : visitsEach r ts = ts.map (visits r) := by
  induction ts with
  | nil => rfl
  | cons t ts ih => rw [visitsEach, ih, List.map_cons]

/-- The nodes that stand in a tree: those that a replacer which never replaces is offered. -/
def nodes (t : Tree) : List Node := (visits (fun _ => none) t).map Visit.node

@[simp]
theorem nodes_external (span : Span) (target : Literal) :
    nodes (.external span target) = [.external target] := rfl

@[simp]
theorem nodes_specifier (target : Literal) : nodes (.specifier target) = [.specifier target] := rfl

@[simp]
theorem nodes_importType (target : Literal) (arguments options : List Tree) :
    nodes (.importType target arguments options) =
      .importType target :: arguments.flatMap nodes ++ options.flatMap nodes := by
  simp only [nodes, visits, Replacer.offer, visitsEach_eq_map, Option.isSome_none,
    Bool.false_eq_true, if_false, List.map_cons, List.map_append, List.map_flatten, List.map_map]
  rfl

@[simp]
theorem nodes_moduleBlock (span : Span) (name : ModuleName) (body : List Tree) :
    nodes (.moduleBlock span name body) = .moduleBlock name :: body.flatMap nodes := by
  simp only [nodes, visits, Replacer.offer, visitsEach_eq_map, Option.isSome_none,
    Bool.false_eq_true, if_false, List.map_cons, List.map_flatten, List.map_map]
  rfl

theorem mem_nodes_parts {form : Form} {children : List Tree} {n : Node} :
    n ∈ nodes (.parts form children) ↔ ∃ t ∈ children, n ∈ nodes t := by
  simp only [nodes, visits, List.mem_map, List.mem_flatten, Form.mem_visit, visitsEach_eq_map]
  constructor
  · rintro ⟨v, ⟨_, ⟨t, ht, rfl⟩, hv⟩, rfl⟩
    exact ⟨t, ht, v, hv, rfl⟩
  · rintro ⟨t, ht, v, hv, rfl⟩
    exact ⟨v, ⟨_, ⟨t, ht, rfl⟩, hv⟩, rfl⟩

theorem visitsEach_congr {ts : List Tree} (h : ∀ t ∈ ts, visits r t = visits s t) :
    visitsEach r ts = visitsEach s ts := by
  rw [visitsEach_eq_map, visitsEach_eq_map]
  exact List.map_congr_left h

/-- **A visit depends on the answers to the nodes of the tree alone.** -/
theorem visits_congr (t : Tree) (h : ∀ n ∈ nodes t, r n = s n) : visits r t = visits s t := by
  induction t using Source.Tree.inductionOn with
  | external span target =>
    rw [visits, visits, Replacer.offer_congr (h (.external target) (by simp))]
  | specifier target =>
    rw [visits, visits, Replacer.offer_congr (h (.specifier target) (by simp))]
  | importType target arguments options harguments hoptions =>
    have hargs := visitsEach_congr fun t ht => harguments t ht fun n hn => h n (by
      rw [nodes_importType]
      exact List.mem_append_left _ (List.mem_cons_of_mem _ (List.mem_flatMap.2 ⟨t, ht, hn⟩)))
    have hopts := visitsEach_congr fun t ht => hoptions t ht fun n hn => h n (by
      rw [nodes_importType]
      exact List.mem_append_right _ (List.mem_flatMap.2 ⟨t, ht, hn⟩))
    rw [visits, visits, Replacer.offer_congr (h (.importType target) (by simp)), hargs, hopts]
  | moduleBlock span name body hbody =>
    have hinside := visitsEach_congr fun t ht => hbody t ht fun n hn => h n (by
      rw [nodes_moduleBlock]
      exact List.mem_cons_of_mem _ (List.mem_flatMap.2 ⟨t, ht, hn⟩))
    rw [visits, visits, Replacer.offer_congr (h (.moduleBlock name) (by simp)), hinside]
  | parts form children hchildren =>
    have hinside := visitsEach_congr fun t ht => hchildren t ht fun n hn =>
      h n (mem_nodes_parts.2 ⟨t, ht, hn⟩)
    rw [visits, visits, hinside]

end Tree

namespace Declaration

variable {r s : Replacer} {d : Declaration}

theorem source_of_parse {source : String} (h : parse source = .ok d) : d.source = source := by
  unfold parse at h
  split at h
  · obtain rfl := Except.ok.inj h
    rfl
  · cases h

theorem mem_nodes_of_item {item : Item} (hitem : item ∈ d.items) {n : Node}
    (h : n ∈ (itemVisits (fun _ => none) d.source.toList item).map Visit.node) : n ∈ d.nodes := by
  obtain ⟨v, hv, rfl⟩ := List.mem_map.1 h
  exact List.mem_map_of_mem (List.mem_flatMap.2 ⟨item, hitem, hv⟩)

/-- **A visit depends on the answers to the nodes of the file alone.** -/
theorem visits_congr (h : ∀ n ∈ d.nodes, r n = s n) : d.visits r = d.visits s := by
  have hitems : ∀ item ∈ d.items,
      itemVisits r d.source.toList item = itemVisits s d.source.toList item := by
    intro item hitem
    have htree : Tree.visits r item.tree = Tree.visits s item.tree :=
      Tree.visits_congr item.tree fun n hn => h n (mem_nodes_of_item hitem (by
        rw [itemVisits, List.map_append]
        exact List.mem_append_right _ hn))
    unfold itemVisits
    rw [htree]
    cases hspan : declareSpan? d.source.toList item with
    | none => rfl
    | some span =>
      have hdeclare := h .declareKeyword (mem_nodes_of_item hitem (by
        rw [itemVisits, hspan]
        exact List.mem_cons_self))
      rw [Option.map_some, Option.map_some, Replacer.offer_congr hdeclare]
  unfold visits
  rw [List.flatMap_def, List.flatMap_def, List.map_congr_left hitems]

theorem replace?_congr (h : ∀ n ∈ d.nodes, r n = s n) : d.replace? r = d.replace? s := by
  unfold replace? edits
  rw [visits_congr h]

end Declaration

end AmbientBundle

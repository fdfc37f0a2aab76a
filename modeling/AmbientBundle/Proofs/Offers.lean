import AmbientBundle.Proofs.Rewriting
import Mathlib.Data.List.Flatten

/-!
# What a visit offers

A visit goes through the constructs of a file in an order of its own, and leaves out the options of
an import type that it replaces. Apart from these it comes to every reference and every module
declaration once, however deep it stands, and to nothing else but the modifiers of top-level items.

* `Tree.sites`: the references and module declarations in a tree as they are written.
* `Tree.visits_perm_sites`: a visit comes to each of them once.
* `Tree.filter_sites`, `Declaration.nodup_references`: no two references stand at one place.
* `Declaration.each_site_offered_once`: **nothing in a file is missed and nothing comes twice**, so
  that all names of ambient modules are found, and the hook is called once for every reference.
-/

namespace AmbientBundle

open Source

/-- What a visit comes to, and where it stands. -/
def Visit.site (v : Visit) : Node × Span := (v.node, v.span)

/-- Whether a node is a reference to a module, with or without a value. -/
def Node.isReference : Node → Bool
  | .external _ | .specifier _ | .importType _ => true
  | .declareKeyword | .moduleBlock _ => false

/-! ### What stands in a tree -/

namespace Source.Tree

mutual

/-- **The references and module declarations in a tree**, at any depth and in the order in which they
are written. The options of some import types are skipped. -/
def sites (skips : Literal → Bool) : Tree → List (Node × Span)
  | .external span target => [(.external target, span)]
  | .specifier target => [(.specifier target, target.span)]
  | .importType target arguments options =>
    (.importType target, target.span) ::
      ((if skips target then [] else sitesEach skips options) ++ sitesEach skips arguments)
  | .moduleBlock span name body => (.moduleBlock name, span) :: sitesEach skips body
  | .parts _ children => sitesEach skips children

/-- The references and module declarations in trees one after the other. -/
def sitesEach (skips : Literal → Bool) : List Tree → List (Node × Span)
  | [] => []
  | t :: ts => sites skips t ++ sitesEach skips ts

end

variable {skips : Literal → Bool}

theorem sitesEach_eq_flatMap (skips : Literal → Bool) (ts : List Tree) :
    sitesEach skips ts = ts.flatMap (sites skips) := by
  induction ts with
  | nil => rfl
  | cons t ts ih => rw [sitesEach, ih, List.flatMap_cons]

theorem sites_importType (skips : Literal → Bool) (target : Literal)
    (arguments options : List Tree) :
    sites skips (.importType target arguments options) =
      (.importType target, target.span) ::
        ((if skips target then [] else options.flatMap (sites skips)) ++
          arguments.flatMap (sites skips)) := by
  rw [sites, sitesEach_eq_flatMap, sitesEach_eq_flatMap]

theorem sites_moduleBlock (skips : Literal → Bool) (span : Span) (name : ModuleName)
    (body : List Tree) :
    sites skips (.moduleBlock span name body) =
      (.moduleBlock name, span) :: body.flatMap (sites skips) := by
  rw [sites, sitesEach_eq_flatMap]

theorem sites_parts (skips : Literal → Bool) (form : Form) (children : List Tree) :
    sites skips (.parts form children) = children.flatMap (sites skips) := by
  rw [sites, sitesEach_eq_flatMap]

/-- A modifier belongs to an item, not to its tree. -/
theorem sites_ne_declareKeyword (t : Tree) :
    ∀ site ∈ t.sites skips, site.1 ≠ .declareKeyword := by
  induction t using Source.Tree.inductionOn with
  | external span target => simp [sites]
  | specifier target => simp [sites]
  | importType target arguments options harguments hoptions =>
    intro site hsite
    rw [sites_importType, List.mem_cons, List.mem_append] at hsite
    rcases hsite with rfl | hsite | hsite
    · exact fun h => nomatch h
    · split at hsite
      · cases hsite
      · obtain ⟨t, ht, hsite⟩ := List.mem_flatMap.1 hsite
        exact hoptions t ht site hsite
    · obtain ⟨t, ht, hsite⟩ := List.mem_flatMap.1 hsite
      exact harguments t ht site hsite
  | moduleBlock span name body hbody =>
    intro site hsite
    rw [sites_moduleBlock, List.mem_cons] at hsite
    rcases hsite with rfl | hsite
    · exact fun h => nomatch h
    · obtain ⟨t, ht, hsite⟩ := List.mem_flatMap.1 hsite
      exact hbody t ht site hsite
  | parts form children hchildren =>
    intro site hsite
    rw [sites_parts] at hsite
    obtain ⟨t, ht, hsite⟩ := List.mem_flatMap.1 hsite
    exact hchildren t ht site hsite

/-- The more options are skipped, the less is left. -/
theorem sites_sublist {skips' : Literal → Bool}
    (h : ∀ target, skips target = true → skips' target = true) (t : Tree) :
    (t.sites skips').Sublist (t.sites skips) := by
  induction t using Source.Tree.inductionOn with
  | external span target => exact .refl _
  | specifier target => exact .refl _
  | importType target arguments options harguments hoptions =>
    rw [sites_importType, sites_importType]
    refine .cons_cons _ (.append ?_ (List.Sublist.flatMap_right arguments harguments))
    by_cases hskips : skips target = true
    · rw [if_pos hskips, if_pos (h target hskips)]
    · rw [if_neg hskips]
      split
      · exact List.nil_sublist _
      · exact List.Sublist.flatMap_right options hoptions
  | moduleBlock span name body hbody =>
    rw [sites_moduleBlock, sites_moduleBlock]
    exact .cons_cons _ (List.Sublist.flatMap_right body hbody)
  | parts form children hchildren =>
    rw [sites_parts, sites_parts]
    exact List.Sublist.flatMap_right children hchildren

/-- The references among what stands in a tree. -/
theorem filter_sites (t : Tree) :
    (t.sites fun _ => false).filter (fun site => site.1.isReference) = t.references := by
  induction t using Source.Tree.inductionOn with
  | external span target => rfl
  | specifier target => rfl
  | importType target arguments options harguments hoptions =>
    rw [sites_importType, references, List.filter_cons_of_pos rfl, if_neg (by simp),
      List.filter_append, List.filter_flatMap, List.filter_flatMap, referencesEach_eq_flatMap,
      referencesEach_eq_flatMap, List.flatMap_congr hoptions, List.flatMap_congr harguments]
  | moduleBlock span name body hbody =>
    rw [sites_moduleBlock, references, List.filter_cons_of_neg (by simp [Node.isReference]),
      List.filter_flatMap, referencesEach_eq_flatMap, List.flatMap_congr hbody]
  | parts form children hchildren =>
    rw [sites_parts, references, List.filter_flatMap, referencesEach_eq_flatMap,
      List.flatMap_congr hchildren]

end Source.Tree

/-! ### Visits -/

namespace Tree

variable {r : Replacer}

theorem flatten_visitsEach (ts : List Tree) :
    (visitsEach r ts).flatten.map Visit.site = ts.flatMap fun t => (visits r t).map Visit.site := by
  rw [visitsEach_eq_map, ← List.flatMap_def, List.map_flatMap]

/-- **A visit comes to everything in a tree once**, but for the options of import types that are
replaced, as long as module declarations are not replaced. -/
theorem visits_perm_sites (hr : ∀ name, r (.moduleBlock name) = none) (t : Tree) :
    ((visits r t).map Visit.site).Perm
      (t.sites fun target => (r (.importType target)).isSome) := by
  induction t using Source.Tree.inductionOn with
  | external span target => exact .refl _
  | specifier target => exact .refl _
  | importType target arguments options harguments hoptions =>
    have hargs := List.Perm.flatMap_left arguments harguments
    have hopts := List.Perm.flatMap_left options hoptions
    rw [visits, Tree.sites_importType]
    by_cases hreplaced : (r (.importType target)).isSome = true
    · rw [if_pos hreplaced, if_pos (by exact hreplaced), List.map_cons, flatten_visitsEach,
        List.nil_append]
      exact hargs.cons _
    · -- the options are written before the type arguments and visited after them
      rw [if_neg hreplaced, if_neg (by exact hreplaced), List.cons_append, List.map_cons,
        List.map_append, flatten_visitsEach, flatten_visitsEach]
      exact ((hargs.append hopts).trans List.perm_append_comm).cons _
  | moduleBlock span name body hbody =>
    have hkept : ¬ (r.offer (.moduleBlock name) span).replacement.isSome = true := by
      simp [Replacer.offer, hr]
    rw [visits, Tree.sites_moduleBlock, if_neg hkept, List.map_cons, flatten_visitsEach]
    exact (List.Perm.flatMap_left body hbody).cons _
  | parts form children hchildren =>
    have hvisit := ((form.visit_perm (visitsEach r children)).flatten).map Visit.site
    rw [flatten_visitsEach] at hvisit
    rw [visits, Tree.sites_parts]
    exact hvisit.trans (List.Perm.flatMap_left children hchildren)

end Tree

/-! ### Whole files -/

namespace Declaration

variable {d : Declaration} {r : Replacer}

/-- The references and module declarations in a file, with the options of some import types
skipped. -/
def sites (d : Declaration) (skips : Literal → Bool) : List (Node × Span) :=
  d.items.flatMap fun item => item.tree.sites skips

/-- **A visit of a file** comes to the modifiers of its items, and to what stands in them. -/
theorem visits_perm_sites (d : Declaration) (hr : ∀ name, r (.moduleBlock name) = none) :
    ((d.visits r).map Visit.site).Perm (d.items.flatMap fun item =>
      d.modifiers item ++ item.tree.sites fun target => (r (.importType target)).isSome) := by
  rw [visits, List.map_flatMap]
  refine List.Perm.flatMap_left _ fun item _ => ?_
  rw [itemVisits, List.map_append]
  have hmodifier : (((declareSpan? d.source.toList item).map (r.offer .declareKeyword)).toList.map
      Visit.site) = d.modifiers item := by
    unfold modifiers
    cases declareSpan? d.source.toList item <;> rfl
  rw [hmodifier]
  exact (Tree.visits_perm_sites hr item.tree).append_left _

theorem mem_modifiers {item : Item} {site : Node × Span} (h : site ∈ d.modifiers item) :
    site.1 = .declareKeyword := by
  rw [modifiers, Option.mem_toList, Option.map_eq_some_iff] at h
  obtain ⟨span, -, rfl⟩ := h
  rfl

/-- An item has at most one modifier to drop. -/
theorem modifiers_sublist (d : Declaration) (item : Item) :
    ((d.modifiers item).map Prod.fst).Sublist [.declareKeyword] := by
  unfold modifiers
  cases declareSpan? d.source.toList item with
  | none => exact List.nil_sublist _
  | some span => exact .refl _

/-- What is told of nodes other than modifiers is told of what stands in the items. -/
theorem filterMap_modifiers {β : Type} {f : Node × Span → Option β}
    (hf : ∀ span, f (.declareKeyword, span) = none) (d : Declaration) (skips : Literal → Bool) :
    (d.items.flatMap fun item => d.modifiers item ++ item.tree.sites skips).filterMap f =
      (d.sites skips).filterMap f := by
  rw [sites, List.filterMap_flatMap, List.filterMap_flatMap]
  refine List.flatMap_congr fun item _ => ?_
  have hnone : (d.modifiers item).filterMap f = [] := by
    refine List.filterMap_eq_nil_iff.2 fun site hsite => ?_
    obtain ⟨node, span⟩ := site
    obtain rfl : node = .declareKeyword := mem_modifiers hsite
    exact hf span
  rw [List.filterMap_append, hnone, List.nil_append]

theorem filterMap_visits_perm {β : Type} {f : Node × Span → Option β}
    (hf : ∀ span, f (.declareKeyword, span) = none) (d : Declaration)
    (hr : ∀ name, r (.moduleBlock name) = none) :
    (((d.visits r).map Visit.site).filterMap f).Perm
      ((d.sites fun target => (r (.importType target)).isSome).filterMap f) := by
  rw [← filterMap_modifiers hf]
  exact (d.visits_perm_sites hr).filterMap f

/-- **No two references of a file that has been read stand at one place.** -/
theorem nodup_references {source : String} (hparse : parse source = .ok d) :
    (((d.sites fun _ => false).filter fun site => site.1.isReference).map Prod.snd).Nodup := by
  have hitems := readItems_dropMark_of_parse hparse
  have hreferences : (d.sites fun _ => false).filter (fun site => site.1.isReference) =
      d.references := by
    rw [sites, List.filter_flatMap]
    exact List.flatMap_congr fun item _ => item.tree.filter_sites
  have hsub : (d.references.map Prod.snd).Sublist
      (Laid.spans (dropMark source.toList) d.items) := by
    rw [references, List.map_flatMap]
    exact List.Sublist.flatMap_right _ fun item _ => List.sublist_append_right _ _
  rw [hreferences]
  exact ((fits_readItems hitems).sublist hsub).nodup

/-! ### Ambient modules -/

theorem ambientName?_eq_some {node : Node} {name : String} :
    ambientName? node = some name ↔ node = .moduleBlock (.string (some name)) := by
  constructor
  · intro h
    unfold ambientName? at h
    split at h
    · rw [h]
    · cases h
  · rintro rfl
    rfl

/-- **The names of ambient modules** are found as often as they are declared. -/
theorem count_ambientNames (d : Declaration) (name : String) :
    d.ambientNames.count name =
      ((d.sites fun _ => false).map Prod.fst).count (.moduleBlock (.string (some name))) := by
  have hnames : d.ambientNames =
      ((d.visits fun _ => none).map Visit.site).filterMap fun site => ambientName? site.1 := by
    rw [ambientNames, nodes, List.filterMap_map, List.filterMap_map]
    rfl
  have hperm := filterMap_visits_perm (r := fun _ => none) (f := fun site => ambientName? site.1)
    (fun _ => rfl) d fun _ => rfl
  rw [hnames, hperm.count_eq, List.count_filterMap, List.count, List.countP_map]
  refine List.countP_congr fun site _ => ?_
  rw [beq_iff_eq, ambientName?_eq_some]
  exact beq_iff_eq.symm

theorem mem_ambientNames {name : String} :
    name ∈ d.ambientNames ↔
      Node.moduleBlock (.string (some name)) ∈ (d.sites fun _ => false).map Prod.fst := by
  rw [← List.count_pos_iff, count_ambientNames, List.count_pos_iff]

/-! ### The hook on references -/

/-- **The calls of the hook** during a visit: one for each reference that is visited. -/
theorem visitCalls_perm (d : Declaration) {r : Resolver} {hook : ImportRequest → Option String}
    (hhook : r.hook = some hook) (current : String) :
    (r.visitCalls d current).Perm
      ((d.sites fun target => (r.rules current (.importType target)).isSome).filterMap fun site =>
        site.1.referenced?.map fun specifier => r.request specifier current) := by
  have hcalls : r.visitCalls d current =
      ((d.visits (r.rules current)).map Visit.site).filterMap fun site =>
        site.1.referenced?.map fun specifier => r.request specifier current := by
    rw [Resolver.visitCalls, List.filterMap_map, List.filterMap_eq_flatMap_toList]
    refine List.flatMap_congr fun visit _ => ?_
    rw [Function.comp_apply, Visit.site]
    cases visit.node.referenced? with
    | none => rfl
    | some specifier =>
      dsimp only
      rw [Resolver.hookCalls, hhook]
      rfl
  rw [hcalls]
  exact filterMap_visits_perm (fun _ => rfl) d fun _ => rfl

/-- **A visit misses nothing and repeats nothing.** A replacer that never replaces is offered the
modifier of each item, if there is one, and every reference and module declaration in it once; in a
file that has been read, no two references stand at one place. So the names of all ambient modules
are found, as often as they are declared. During bundling, the hook is called once for every
reference that has a value, wherever it stands, but for the options of import types that are
replaced; it is told that a module is declared just if one of the files that were collected declares
it. -/
theorem each_site_offered_once (d : Declaration) :
    ((d.visits fun _ => none).map Visit.site).Perm
      (d.items.flatMap fun item => d.modifiers item ++ item.tree.sites fun _ => false) ∧
    (∀ item, ((d.modifiers item).map Prod.fst).Sublist [.declareKeyword] ∧
      .declareKeyword ∉ (item.tree.sites fun _ => false).map Prod.fst) ∧
    (∀ source, parse source = .ok d →
      (((d.sites fun _ => false).filter fun site => site.1.isReference).map Prod.snd).Nodup) ∧
    (∀ name, d.ambientNames.count name =
      ((d.sites fun _ => false).map Prod.fst).count (.moduleBlock (.string (some name)))) ∧
    ∀ (collected : List Declaration) (idPrefix : Option String)
      (hook : ImportRequest → Option String) (current : String),
      let r : Resolver := ⟨collected.flatMap ambientNames, idPrefix, some hook⟩
      let skips := fun target => (r.rules current (.importType target)).isSome
      (d.sites fun _ => true).Sublist (d.sites skips) ∧
      (r.visitCalls d current).Perm ((d.sites skips).filterMap fun site =>
        site.1.referenced?.map fun specifier =>
          ⟨specifier, current, decide (∃ c ∈ collected, Node.moduleBlock (.string (some specifier)) ∈
            (c.sites fun _ => false).map Prod.fst)⟩) := by
  have hkeyword : ∀ item : Item,
      Node.declareKeyword ∉ (item.tree.sites fun _ => false).map Prod.fst := by
    intro item hmem
    obtain ⟨site, hsite, hnode⟩ := List.mem_map.1 hmem
    exact item.tree.sites_ne_declareKeyword site hsite hnode
  refine ⟨d.visits_perm_sites fun _ => rfl, fun item => ⟨d.modifiers_sublist item, hkeyword item⟩,
    fun _ => nodup_references, d.count_ambientNames, ?_⟩
  intro collected idPrefix hook current r skips
  have hdeclared : ∀ specifier, r.request specifier current = ⟨specifier, current,
      decide (∃ c ∈ collected, Node.moduleBlock (.string (some specifier)) ∈
        (c.sites fun _ => false).map Prod.fst)⟩ := by
    intro specifier
    have hmem : specifier ∈ collected.flatMap ambientNames ↔ ∃ c ∈ collected,
        Node.moduleBlock (.string (some specifier)) ∈ (c.sites fun _ => false).map Prod.fst := by
      simp only [List.mem_flatMap, mem_ambientNames]
    rw [Resolver.request, ← decide_eq_decide.2 hmem, List.contains_eq_mem]
  refine ⟨List.Sublist.flatMap_right _ fun item _ =>
    item.tree.sites_sublist fun _ _ => rfl, ?_⟩
  have hcalls := d.visitCalls_perm (r := r) rfl current
  simp only [hdeclared] at hcalls
  exact hcalls

/-- A text with a reference and a module in a module, and a reference in the options of an import
type. -/
def nestedSample : String :=
  "declare module 'n' \x7b\n  class C<T extends import('n').Y> \x7b\x7d\n  module 'n' \x7b\x7d\n\x7d\n" ++
    "declare const u: import('./e', \x7b with: \x7b a: x as import('./f').W \x7d \x7d).V;\n"

theorem each_site_offered_once_nested : ∃ d, parse nestedSample = .ok d ∧
    (((d.sites fun _ => false).filter fun site => site.1.isReference).map Prod.snd).Nodup ∧
    (d.sites fun _ => false).length = 5 ∧ (d.visits fun _ => none).length = 6 ∧
    d.ambientNames = ["n", "n"] ∧
    ((d.sites fun _ => false).map Prod.fst).count (.moduleBlock (.string (some "n"))) = 2 ∧
    Resolver.visitCalls ⟨[d].flatMap ambientNames, none, some fun _ => none⟩ d "c" =
      [⟨"n", "c", true⟩, ⟨"./e", "c", false⟩] ∧
    ((d.sites fun _ => true).filterMap fun site => site.1.referenced?) = ["n", "./e"] := by
  have hrun : ∃ d, parse nestedSample = .ok d ∧
      ((d.sites fun _ => false).length, (d.visits fun _ => none).length, d.ambientNames,
        Resolver.visitCalls ⟨[d].flatMap ambientNames, none, some fun _ => none⟩ d "c",
        (d.sites fun _ => true).filterMap fun site => site.1.referenced?) =
      (5, 6, ["n", "n"], [⟨"n", "c", true⟩, ⟨"./e", "c", false⟩], ["n", "./e"]) :=
    exists_of_parse (by decide +kernel)
  obtain ⟨d, hparse, hrun⟩ := hrun
  simp only [Prod.mk.injEq] at hrun
  obtain ⟨hsites, hvisits, hnames, hcalls, hreferences⟩ := hrun
  obtain ⟨-, -, hnodup, hcount, -⟩ := each_site_offered_once d
  have htwice := hcount "n"
  rw [hnames] at htwice
  exact ⟨d, hparse, hnodup nestedSample hparse, hsites, hvisits, hnames, htwice.symm, hcalls,
    hreferences⟩

end Declaration

end AmbientBundle

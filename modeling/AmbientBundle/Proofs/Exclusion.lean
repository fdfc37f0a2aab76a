import AmbientBundle.Proofs.Bundles

/-!
# Files that are left out

A file outside of the base directory, or one that is excluded, adds nothing to a bundle. It still
has a say in it: the ambient modules that it declares keep the prefix away from references that
spell their names.

* `leftOut_changes_text`: **a file that is left out can change the text of a bundle.**
* `generateWith_of_same_accepted`: **without a prefix, or where the files that are left out have no
  say in the names of references, the bundle does not depend on them.**
-/

namespace AmbientBundle

/-- The relative references of a unit whose text is a module. -/
def CompilationUnit.relativeReferences (unit : CompilationUnit) : List String :=
  match unit.kind, Declaration.parse unit.text with
  | .emitted, .ok d =>
    if d.isModule then
      (d.nodes.filterMap Node.referenced?).filter fun s => s.toList.head? == some '.'
    else []
  | _, _ => []

theorem CompilationUnit.mem_relativeReferences {unit : CompilationUnit} {d : Declaration} {n : Node}
    {s : String} (hkind : unit.kind = .emitted) (hparse : Declaration.parse unit.text = .ok d)
    (hmodule : d.isModule = true) (hn : n ∈ d.nodes) (hs : n.referenced? = some s)
    (hdot : s.toList.head? = some '.') : s ∈ unit.relativeReferences := by
  unfold relativeReferences
  rw [hkind, hparse]
  dsimp only
  rw [if_pos hmodule]
  exact List.mem_filter.2 ⟨List.mem_filterMap.2 ⟨n, hn, hs⟩, by simp [hdot]⟩

/-- **A file that is left out can change the text of a bundle.** The two runs have the same accepted
units; in the second, a file that is left out declares the ambient module `./b`. -/
theorem leftOut_changes_text :
    Sample.options.importHook.isNone = true ∧
    ((Plan.resolve Sample.workspace Sample.options).map fun plan =>
      ([Sample.mainUnit].filter plan.accepts, [Sample.mainUnit, Sample.ambientUnit].filter plan.accepts)) =
        .ok ([Sample.mainUnit], [Sample.mainUnit]) ∧
    (generateWith (Sample.emitting [Sample.mainUnit]) Sample.workspace
        Sample.options).workspace.readText ⟨"/work/out.d.ts"⟩ =
      .ok ("/// <reference path=\"e.d.ts\" />\ndeclare module 'q/p/a' \x7b\n\t" ++
        "export * from 'q/p/b';\n\n\x7d\n" ++
        "declare module 'p' \x7b\n\texport * from 'p/a';\n\x7d\n") ∧
    (generateWith (Sample.emitting [Sample.mainUnit, Sample.ambientUnit]) Sample.workspace
        Sample.options).workspace.readText ⟨"/work/out.d.ts"⟩ =
      .ok ("/// <reference path=\"e.d.ts\" />\ndeclare module 'q/p/a' \x7b\n\t" ++
        "export * from 'p/b';\n\n\x7d\n" ++
        "declare module 'p' \x7b\n\texport * from 'p/a';\n\x7d\n") := by
  decide +kernel

namespace Resolver

variable {r r' : Resolver} {specifier current : String}

theorem withIdPrefix_of_none {idPrefix : Option String} (h : nonEmpty idPrefix = none)
    (id : String) : withIdPrefix idPrefix id = id := by
  unfold withIdPrefix
  rw [h]

/-- Without a hook, declared names matter to relative references under a prefix alone. -/
theorem resolve_congr_of_dot (hfront : r.idPrefix = r'.idPrefix) (hhook : r.hook = none)
    (hhook' : r'.hook = none)
    (h : nonEmpty r.idPrefix = none ∨ (specifier.toList.head? = some '.' →
      r.declared.contains specifier = r'.declared.contains specifier)) :
    r.resolve specifier current = r'.resolve specifier current := by
  unfold resolve resolvePlain
  rw [hhook, hhook', ← hfront]
  by_cases hdot : specifier.toList.head? = some '.'
  · rcases h with hnone | hsame
    · simp only [withIdPrefix_of_none hnone, ite_self]
      rfl
    · rw [hsame hdot]
      rfl
  · simp [hdot, nonEmpty]

end Resolver

section Runs

variable {emit₁ emit₂ : Emitter} {w : Workspace} {plan : Plan} {o : Options} {c₁ c₂ : Compilation}

/-- The files that are left out have no say in the names of references: either there is no prefix,
or a relative reference of an accepted unit spells a declared name in both compilations or in
neither. -/
def NoSay (plan : Plan) (o : Options) (c₁ c₂ : Compilation) : Prop :=
  nonEmpty o.idPrefix = none ∨
    ∀ unit ∈ c₁.units.filter plan.accepts, ∀ s ∈ unit.relativeReferences,
      (s ∈ declaredNames c₁.units ↔ s ∈ declaredNames c₂.units)

theorem contributions_congr {c c' : BundleContext} {units : List CompilationUnit}
    (h : ∀ unit ∈ units, c.contribution unit = c'.contribution unit) :
    contributions c units = contributions c' units := by
  induction units with
  | nil => rfl
  | cons unit units ih =>
    rw [contributions, contributions, h unit List.mem_cons_self,
      ih fun u hu => h u (List.mem_cons_of_mem _ hu)]

/-- What the accepted units add does not depend on the others. -/
theorem progressOf_congr (hhook : o.importHook = none) (hdiagnostics₁ : c₁.diagnostics = [])
    (hdiagnostics₂ : c₂.diagnostics = [])
    (hsame : c₁.units.filter plan.accepts = c₂.units.filter plan.accepts)
    (hsay : NoSay plan o c₁ c₂) : progressOf plan o c₁ = progressOf plan o c₂ := by
  rw [progressOf_eq hdiagnostics₁, progressOf_eq hdiagnostics₂, ← hsame]
  refine contributions_congr fun unit hunit => ?_
  refine BundleContext.contribution_congr rfl rfl ?_ ?_
  · intro s current
    unfold Resolver.hookCalls BundleContext.declaring
    rw [hhook]
  · -- declared names are asked for by the references of modules alone
    intro d hkind hparse hmodule n hn s hs current
    refine Resolver.resolve_congr_of_dot rfl hhook hhook (hsay.imp_right fun h hdot => ?_)
    have hmem := h unit hunit s
      (CompilationUnit.mem_relativeReferences hkind hparse hmodule hn hs hdot)
    rw [Bool.eq_iff_iff, List.contains_iff_mem, List.contains_iff_mem]
    exact hmem

/-- **Files that are left out do not influence a bundle** unless they have a say in the names of
references. -/
theorem generateWith_of_same_accepted (hhook : o.importHook = none)
    (hemit₁ : emit₁.Gives w o c₁) (hemit₂ : emit₂.Gives w o c₂)
    (hdiagnostics₁ : c₁.diagnostics = []) (hdiagnostics₂ : c₂.diagnostics = [])
    (hsame : ∀ plan, Plan.resolve w o = .ok plan →
      c₁.units.filter plan.accepts = c₂.units.filter plan.accepts ∧ NoSay plan o c₁ c₂) :
    generateWith emit₁ w o = generateWith emit₂ w o := by
  cases hplan : Plan.resolve w o with
  | error fault => unfold generateWith; rw [hplan]
  | ok plan =>
    cases hopen : w.create plan.out (.ofText "") with
    | error cause => unfold generateWith execute; rw [hplan]; dsimp only; rw [hopen]
    | ok opened =>
      obtain ⟨hunits, hsay⟩ := hsame plan hplan
      rw [generateWith_eq_finish hplan hopen hemit₁, generateWith_eq_finish hplan hopen hemit₂]
      unfold finish
      rw [progressOf_congr hhook hdiagnostics₁ hdiagnostics₂ hunits hsay]

end Runs

/-- A file outside of the base directory that declares a module to which nothing refers. -/
def Sample.unrelatedUnit : CompilationUnit :=
  .declaration ⟨"/work/lib/c.d.ts"⟩ "declare module 'c' \x7b\x7d\n" []

theorem generateWith_of_same_accepted_sample :
    declaredNames [Sample.mainUnit, Sample.unrelatedUnit] ≠ declaredNames [Sample.mainUnit] ∧
      generateWith (Sample.emitting [Sample.mainUnit, Sample.unrelatedUnit]) Sample.workspace
          Sample.options =
        generateWith (Sample.emitting [Sample.mainUnit]) Sample.workspace Sample.options := by
  refine ⟨by decide +kernel, ?_⟩
  have hcheck : ((Plan.resolve Sample.workspace Sample.options).map fun plan : Plan =>
      decide ([Sample.mainUnit, Sample.unrelatedUnit].filter plan.accepts =
          [Sample.mainUnit].filter plan.accepts ∧
        ∀ unit ∈ [Sample.mainUnit, Sample.unrelatedUnit].filter plan.accepts,
          ∀ s ∈ unit.relativeReferences,
            (s ∈ declaredNames [Sample.mainUnit, Sample.unrelatedUnit] ↔
              s ∈ declaredNames [Sample.mainUnit]))) = .ok true := by decide +kernel
  refine generateWith_of_same_accepted rfl (Sample.emitting_gives _ _ _)
    (Sample.emitting_gives _ _ _) rfl rfl fun plan hplan => ?_
  rw [hplan] at hcheck
  obtain ⟨hunits, hnames⟩ := of_decide_eq_true (Except.ok.inj hcheck)
  exact ⟨hunits, .inr hnames⟩

end AmbientBundle

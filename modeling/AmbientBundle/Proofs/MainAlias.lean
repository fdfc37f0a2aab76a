import AmbientBundle.Proofs.Bundles

/-!
# The alias of the main module

A bundle may end with a block that makes the name of the package stand for the main module. The
block refers to the main module by the identifier that the caller gave, and a module counts as the
main one if that is the identifier of its block, or the one computed from its path. The two differ
where there is a prefix, or a hook has chosen the identifier.

* `quoted?_aliasLines`: the lines of an alias refer to the identifier of the main module.
* `blockIds_bundleEntries`: the blocks of a bundle are those of its modules.
* `aliasTargets_written_iff`: **an alias refers to a block of the bundle exactly if the main module
  is told by the identifier of its block.**
* `alias_without_block`: **an alias that refers to nothing.**
-/

namespace AmbientBundle

open Text

/-! ### What a bundle declares and refers to -/

/-- What stands between the first and the last quote of a line. -/
def quoted? (line : String) : Option String := do
  let (_, rest) ← splitFirst? ['\''] line.toList
  let (inside, _) ← splitLast? '\'' rest
  return String.ofList inside

theorem quoted?_between {front back : String} {after : List Char} (inside : String)
    (before : List Char) (hfront : front.toList = before ++ ['\'']) (hbefore : '\'' ∉ before)
    (hback : back.toList = '\'' :: after) (hafter : '\'' ∉ after) :
    quoted? (front ++ inside ++ back) = some inside := by
  have hline : (front ++ inside ++ back).toList =
      before ++ '\'' :: (inside.toList ++ '\'' :: after) := by
    simp [hfront, hback]
  unfold quoted?
  rw [hline, splitFirst?_append hbefore]
  simp [splitLast?_append _ hafter]

namespace Entry

/-- The identifier of a module's block. -/
def blockId? : Entry → Option String
  | .moduleBlock id _ => some id
  | _ => none

/-- The identifiers that an alias takes its exports from, as they stand in its lines. -/
def targets : Entry → List String
  | .mainAlias _ main shape target => (aliasLines target shape main).filterMap quoted?
  | _ => []

end Entry

/-- **The lines of an alias refer to the main module**, and to nothing else. -/
theorem quoted?_aliasLines (target : Target) (shape : ExportShape) (main : String) :
    (aliasLines target shape main).filterMap quoted? ≠ [] ∧
      ∀ id ∈ (aliasLines target shape main).filterMap quoted?, id = main := by
  have hdefault : quoted? ("export \x7bdefault\x7d from '" ++ main ++ "';") = some main :=
    quoted?_between main "export \x7bdefault\x7d from ".toList rfl (by decide) rfl (by decide)
  have hall : quoted? ("export * from '" ++ main ++ "';") = some main :=
    quoted?_between main "export * from ".toList rfl (by decide) rfl (by decide)
  have hrequire : quoted? ("import main = require('" ++ main ++ "');") = some main :=
    quoted?_between main "import main = require(".toList rfl (by decide) rfl (by decide)
  have hassign : quoted? "export = main;" = none := by decide
  unfold aliasLines
  by_cases hmodules : target.hasModules = true
  · rw [if_pos hmodules]
    cases shape.hasDefault <;> cases shape.hasNamed <;> simp [hdefault, hall]
  · rw [if_neg hmodules]
    simp [hrequire, hassign]

/-! ### Blocks and modules -/

/-- The identifier of a unit, as it is computed from its path. -/
def unitId (plan : Plan) (o : Options) (unit : CompilationUnit) : String :=
  ModuleId.ofPath unit.declarationPath plan.baseDir o.name

/-- The identifier of the block of a unit. -/
def unitBlockId (plan : Plan) (o : Options) (unit : CompilationUnit) : String :=
  blockId ((BundleContext.declaring plan o []).idRequest unit.declarationPath) o.idHook o.idPrefix

/-- **A unit that counts as the main module**: a module of the bundle whose block has the identifier
of the main module, or whose computed identifier is that. -/
structure IsMainUnit (plan : Plan) (o : Options) (main : String) (unit : CompilationUnit) :
    Prop where
  accepted : plan.accepts unit = true
  module : unit.module?.isSome = true
  named : unitBlockId plan o unit = main ∨ unitId plan o unit = main

/-- Without a prefix and an answer of the hook, a block has the computed identifier. -/
theorem unitBlockId_eq_unitId {plan : Plan} {o : Options} {unit : CompilationUnit}
    (hplain : nonEmpty o.idPrefix = none)
    (hhook : ∀ request, nonEmpty (o.idHook.bind fun hook => hook request) = none) :
    unitBlockId plan o unit = unitId plan o unit := by
  unfold unitBlockId blockId
  rw [hhook]
  unfold withIdPrefix
  rw [hplain]
  rfl

section Blocks

variable {plan : Plan} {o : Options} {declared : List String} {unit : CompilationUnit}
  {units : List CompilationUnit} {a : Contribution} {added : List Contribution}

/-- A unit adds a block if it is a module. -/
theorem blockId?_of_contribution
    (h : (BundleContext.declaring plan o declared).contribution unit = .ok a) :
    a.entry.bind Entry.blockId? = unit.module?.map fun _ => unitBlockId plan o unit := by
  rcases contribution_cases h with ⟨d, hunit, hadded⟩ | ⟨hunit, hadded⟩
  · rw [hunit]
    obtain ⟨content, -, rfl⟩ := moduleContribution_inv hadded
    rfl
  · rw [hunit]
    rcases hadded with rfl | ⟨text, rfl⟩ <;> rfl

/-- The blocks that units add, in order. -/
theorem blockIds_of_contributions (h : List.Forall₂ (fun unit a =>
      (BundleContext.declaring plan o declared).contribution unit = .ok a) units added) :
    (added.filterMap Contribution.entry).filterMap Entry.blockId? =
      units.filterMap fun unit => unit.module?.map fun _ => unitBlockId plan o unit := by
  rw [List.filterMap_filterMap]
  induction h with
  | nil => rfl
  | cons hunit _ ih =>
    rw [List.filterMap_cons, List.filterMap_cons, blockId?_of_contribution hunit, ih]

/-- **The blocks of a bundle are those of its modules.** -/
theorem blockIds_bundleEntries {c : Compilation} (h : (progressOf plan o c).fault = none) :
    (bundleEntries plan o (progressOf plan o c).added).filterMap Entry.blockId? =
      (c.units.filter plan.accepts).filterMap fun unit =>
        unit.module?.map fun _ => unitBlockId plan o unit := by
  have hreferences : (referenceEntries o).filterMap Entry.blockId? = [] := by
    simp [referenceEntries, List.filterMap_map, Function.comp_def, Entry.blockId?]
  have halias : ∀ added, (aliasEntries plan o added).filterMap Entry.blockId? = [] := by
    intro added
    unfold aliasEntries
    split <;> rfl
  have hdiagnostics := diagnostics_eq_nil_of_fault h
  rw [progressOf_eq hdiagnostics] at h ⊢
  unfold bundleEntries
  rw [List.filterMap_append, List.filterMap_append, hreferences, halias, List.nil_append,
    List.append_nil]
  exact blockIds_of_contributions (forall₂_of_contributions h)

/-- What units add refers to no main module. -/
theorem targets_of_contributions (h : List.Forall₂ (fun unit a =>
      (BundleContext.declaring plan o declared).contribution unit = .ok a) units added) :
    (added.filterMap Contribution.entry).flatMap Entry.targets = [] := by
  induction h with
  | nil => rfl
  | @cons unit a units added hunit _ ih =>
    have hentry : ∀ entry, a.entry = some entry → entry.targets = [] := by
      intro entry hentry
      rcases contribution_cases hunit with ⟨d, -, hadded⟩ | ⟨-, rfl | ⟨text, rfl⟩⟩
      · obtain ⟨content, -, rfl⟩ := moduleContribution_inv hadded
        obtain rfl := Option.some.inj hentry
        rfl
      · cases hentry
      · obtain rfl := Option.some.inj hentry
        rfl
    rw [List.filterMap_cons]
    cases hsome : a.entry with
    | none => exact ih
    | some entry => exact (congrArg (· ++ _) (hentry entry hsome)).trans ih

/-- A bundle with an alias refers to its main module. -/
theorem targets_bundleEntries {c : Compilation} {name main : String}
    (h : (progressOf plan o c).fault = none) (hname : o.name = some name)
    (hmain : o.main = some main) :
    (bundleEntries plan o (progressOf plan o c).added).flatMap Entry.targets =
      (aliasLines plan.target (mainShape (progressOf plan o c).added) main).filterMap quoted? := by
  have hreferences : (referenceEntries o).flatMap Entry.targets = [] := by
    simp [referenceEntries, List.flatMap_map, Entry.targets]
  have halias : ∀ added, (aliasEntries plan o added).flatMap Entry.targets =
      (aliasLines plan.target (mainShape added) main).filterMap quoted? := by
    intro added
    unfold aliasEntries mainAlias?
    rw [hname, hmain]
    exact List.append_nil _
  have hdiagnostics := diagnostics_eq_nil_of_fault h
  rw [progressOf_eq hdiagnostics] at h ⊢
  unfold bundleEntries
  rw [List.flatMap_append, List.flatMap_append, hreferences, halias,
    targets_of_contributions (forall₂_of_contributions h), List.nil_append, List.nil_append]

end Blocks

/-! ### Runs -/

section Runs

variable {emit : Emitter} {w : Workspace} {plan : Plan} {o : Options} {c : Compilation}
  {name main : String}

/-- A run that succeeds leaves the texts of its entries behind. -/
theorem readText_of_ok (hw : w.IsRooted) (hplan : Plan.resolve w o = .ok plan)
    (hemit : emit.Gives w o c) (hok : (generateWith emit w o).result = .ok ()) :
    (progressOf plan o c).fault = none ∧
      (generateWith emit w o).workspace.readText plan.out =
        .ok (bundleText plan o (progressOf plan o c).added) := by
  obtain ⟨opened, hopen⟩ := exists_opened hplan hok
  have hfinish := hok
  rw [generateWith_eq_finish hplan hopen hemit] at hfinish
  obtain ⟨hfault, hwrite⟩ := of_finish_ok hfinish
  have hdiagnostics := diagnostics_eq_nil_of_fault hfault
  have hrun := generateWith_of_fault_eq_none hw hplan hopen hwrite hemit hdiagnostics hfault
  rw [← bundleText_eq hdiagnostics hfault] at hrun
  exact ⟨hfault, hrun.2⟩

/-- **An alias refers to a block of the bundle exactly if the main module is told by the identifier of
its block.** The run has written its entries one after the other, and the alias among them refers to
the main module by the identifier that was asked for. Without a prefix and an answer of the hook on
identifiers, the computed identifier is that of the block, so that the alias refers to it. -/
theorem aliasTargets_written_iff (hw : w.IsRooted) (hplan : Plan.resolve w o = .ok plan)
    (hemit : emit.Gives w o c) (hok : (generateWith emit w o).result = .ok ())
    (hname : o.name = some name) (hmain : o.main = some main)
    (hunit : ∃ unit ∈ c.units, IsMainUnit plan o main unit) :
    let entries := bundleEntries plan o (progressOf plan o c).added
    (generateWith emit w o).workspace.readText plan.out =
        .ok (String.join (entries.map (Entry.text o.layout))) ∧
      entries.flatMap Entry.targets ≠ [] ∧ (∀ id ∈ entries.flatMap Entry.targets, id = main) ∧
      ((∀ id ∈ entries.flatMap Entry.targets, id ∈ entries.filterMap Entry.blockId?) ↔
        ∃ unit ∈ c.units, IsMainUnit plan o main unit ∧ unitBlockId plan o unit = main) ∧
      (nonEmpty o.idPrefix = none →
        (∀ request, nonEmpty (o.idHook.bind fun hook => hook request) = none) →
          ∀ id ∈ entries.flatMap Entry.targets, id ∈ entries.filterMap Entry.blockId?) := by
  intro entries
  obtain ⟨hfault, htext⟩ := readText_of_ok hw hplan hemit hok
  obtain ⟨hne, hall⟩ := quoted?_aliasLines plan.target (mainShape (progressOf plan o c).added) main
  rw [← targets_bundleEntries hfault hname hmain] at hne hall
  have hblock : main ∈ entries.filterMap Entry.blockId? ↔
      ∃ unit ∈ c.units, IsMainUnit plan o main unit ∧ unitBlockId plan o unit = main := by
    rw [blockIds_bundleEntries hfault, List.mem_filterMap]
    constructor
    · rintro ⟨unit, hmem, hid⟩
      obtain ⟨hmem, haccept⟩ := List.mem_filter.1 hmem
      obtain ⟨d, hmodule, hid⟩ := Option.map_eq_some_iff.1 hid
      exact ⟨unit, hmem, ⟨haccept, by rw [hmodule]; rfl, .inl hid⟩, hid⟩
    · rintro ⟨unit, hmem, hmainUnit, hid⟩
      obtain ⟨d, hmodule⟩ := Option.isSome_iff_exists.1 hmainUnit.module
      exact ⟨unit, List.mem_filter.2 ⟨hmem, hmainUnit.accepted⟩, by rw [hmodule, ← hid]; rfl⟩
  -- all targets are the main module, and there is one, so they are blocks if and only if it is
  have htargets : (∀ id ∈ entries.flatMap Entry.targets, id ∈ entries.filterMap Entry.blockId?) ↔
      main ∈ entries.filterMap Entry.blockId? := by
    constructor
    · intro h
      obtain ⟨id, hid⟩ := List.exists_mem_of_ne_nil _ hne
      exact hall id hid ▸ h id hid
    · intro h id hid
      exact (hall id hid).symm ▸ h
  refine ⟨htext, hne, hall, htargets.trans hblock, fun hplain hhook => ?_⟩
  obtain ⟨unit, hmem, hmainUnit⟩ := hunit
  have hid : unitBlockId plan o unit = main := by
    rcases hmainUnit.named with hid | hid
    · exact hid
    · exact (unitBlockId_eq_unitId hplain hhook).trans hid
  exact htargets.2 (hblock.2 ⟨unit, hmem, hmainUnit, hid⟩)

end Runs

/-! ### A small program -/

namespace Sample

/-- A main module that is told by the identifier of its block, after the prefix. -/
def prefixedOptions : Options := { options with main := some "q/p/a" }

end Sample

theorem aliasTargets_written_iff_prefixed : ∃ plan,
    Plan.resolve Sample.workspace Sample.prefixedOptions = .ok plan ∧
    (generateWith (Sample.emitting [Sample.mainUnit]) Sample.workspace
      Sample.prefixedOptions).result = .ok () ∧
    IsMainUnit plan Sample.prefixedOptions "q/p/a" Sample.mainUnit ∧
    ∀ id ∈ (bundleEntries plan Sample.prefixedOptions (progressOf plan Sample.prefixedOptions
        ⟨[Sample.mainUnit], []⟩).added).flatMap Entry.targets,
      id ∈ (bundleEntries plan Sample.prefixedOptions (progressOf plan Sample.prefixedOptions
        ⟨[Sample.mainUnit], []⟩).added).filterMap Entry.blockId? := by
  obtain ⟨plan, hplan⟩ := Sample.exists_plan
  have hresolve : Plan.resolve Sample.workspace Sample.prefixedOptions = .ok plan := hplan
  have hrooted : Sample.workspace.IsRooted := by decide +kernel
  have hok : (generateWith (Sample.emitting [Sample.mainUnit]) Sample.workspace
      Sample.prefixedOptions).result = .ok () := by decide +kernel
  have hcheck : ((Plan.resolve Sample.workspace Sample.options).map fun plan : Plan =>
      decide (plan.accepts Sample.mainUnit = true ∧
        unitBlockId plan Sample.prefixedOptions Sample.mainUnit = "q/p/a")) = .ok true := by
    decide +kernel
  rw [hplan] at hcheck
  obtain ⟨haccept, hid⟩ := of_decide_eq_true (Except.ok.inj hcheck)
  have hunit : IsMainUnit plan Sample.prefixedOptions "q/p/a" Sample.mainUnit :=
    ⟨haccept, by decide +kernel, .inl hid⟩
  have hmem : Sample.mainUnit ∈ [Sample.mainUnit] := List.mem_singleton_self _
  have h := aliasTargets_written_iff hrooted hresolve (Sample.emitting_gives _ _ _) hok rfl rfl
    ⟨_, hmem, hunit⟩
  exact ⟨plan, hresolve, hok, hunit, h.2.2.2.1.2 ⟨_, hmem, hunit, hid⟩⟩

/-- **An alias that refers to nothing.** The main module is told by its computed identifier, but its
block has the prefix before it, and the alias leaves the prefix out. -/
theorem alias_without_block :
    ((Plan.resolve Sample.workspace Sample.options).map fun plan =>
      (plan.accepts Sample.mainUnit, Sample.mainUnit.module?.isSome,
        unitId plan Sample.options Sample.mainUnit,
        (bundleEntries plan Sample.options (progressOf plan Sample.options
          ⟨[Sample.mainUnit], []⟩).added).flatMap Entry.targets,
        (bundleEntries plan Sample.options (progressOf plan Sample.options
          ⟨[Sample.mainUnit], []⟩).added).filterMap Entry.blockId?)) =
      .ok (true, true, "p/a", ["p/a"], ["q/p/a"]) ∧
    (Sample.options.main, Sample.options.name) = (some "p/a", some "p") ∧
    (generateWith (Sample.emitting [Sample.mainUnit]) Sample.workspace Sample.options).result =
      .ok () ∧
    (generateWith (Sample.emitting [Sample.mainUnit]) Sample.workspace
        Sample.options).workspace.readText ⟨"/work/out.d.ts"⟩ =
      .ok ("/// <reference path=\"e.d.ts\" />\ndeclare module 'q/p/a' \x7b\n\t" ++
        "export * from 'q/p/b';\n\n\x7d\n" ++
        "declare module 'p' \x7b\n\texport * from 'p/a';\n\x7d\n") := by
  decide +kernel

end AmbientBundle

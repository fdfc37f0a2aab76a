import AmbientBundle.Bundle.Generate
import AmbientBundle.Proofs.Files
import AmbientBundle.Proofs.Walk
import Mathlib.Data.List.Forall2

/-!
# What stands in a bundle

The text of a bundle is put together unit by unit, and each unit adds a text of its own. What the
units have in common is the set of ambient modules that they declare, and the exports of the main
module.

* `unitText`, `unitExports`: what a unit adds to the text, and to the exports of the main module.
* `BundleContext.contribution_congr`: what a unit adds depends on the resolver through the
  references of its text only.
* `generateWith_unitwise`: **the text of a bundle unit by unit, in any order of the units.**
-/

namespace AmbientBundle

open Source

/-! ### Resolvers that agree -/

namespace Resolver

variable {r r' : Resolver} {specifier current : String}

theorem resolve_congr (hfront : r.idPrefix = r'.idPrefix) (hhook : r.hook = r'.hook)
    (h : r.declared.contains specifier = r'.declared.contains specifier) :
    r.resolve specifier current = r'.resolve specifier current := by
  unfold resolve resolvePlain request
  rw [hfront, hhook, h]

theorem hookCalls_congr (hhook : r.hook = r'.hook)
    (h : r.declared.contains specifier = r'.declared.contains specifier) :
    r.hookCalls specifier current = r'.hookCalls specifier current := by
  unfold hookCalls request
  rw [hhook, h]

theorem rules_congr {n : Node}
    (h : ∀ s, n.referenced? = some s → r.resolve s current = r'.resolve s current) :
    r.rules current n = r'.rules current n := by
  have hbind : n.referenced?.bind (r.resolve · current) = n.referenced?.bind (r'.resolve · current) :=
    Option.bind_congr h
  cases n with
  | declareKeyword => rfl
  | moduleBlock name => rfl
  | external target => simp only [rules, hbind]
  | specifier target => simp only [rules, hbind]
  | importType target => simp only [rules, hbind]

end Resolver

namespace BundleContext

variable {c c' : BundleContext}

theorem moduleContribution_congr {d : Declaration} (path : Path) (hplan : c.plan = c'.plan)
    (hoptions : c.options = c'.options)
    (hcalls : ∀ s current, c.resolver.hookCalls s current = c'.resolver.hookCalls s current)
    (h : ∀ n ∈ d.nodes, ∀ s, n.referenced? = some s →
      ∀ current, c.resolver.resolve s current = c'.resolver.resolve s current) :
    c.moduleContribution path d = c'.moduleContribution path d := by
  have hrules : ∀ current, ∀ n ∈ d.nodes,
      c.resolver.rules current n = c'.resolver.rules current n :=
    fun current n hn => Resolver.rules_congr fun s hs => h n hn s hs current
  have hreplace : ∀ current,
      d.replace? (c.resolver.rules current) = d.replace? (c'.resolver.rules current) :=
    fun current => Declaration.replace?_congr (hrules current)
  have hvisits : ∀ current, c.resolver.visitCalls d current = c'.resolver.visitCalls d current := by
    intro current
    unfold Resolver.visitCalls
    rw [Declaration.visits_congr (hrules current)]
    simp only [hcalls]
  have hrequest : c.idRequest path = c'.idRequest path := by
    unfold idRequest
    rw [hplan, hoptions]
  unfold moduleContribution
  simp only [hrequest, hoptions, hreplace, hvisits]

/-- **What a unit adds depends on the resolver through the references of its text only.** -/
theorem contribution_congr {unit : CompilationUnit} (hplan : c.plan = c'.plan)
    (hoptions : c.options = c'.options)
    (hcalls : ∀ s current, c.resolver.hookCalls s current = c'.resolver.hookCalls s current)
    (h : ∀ d, unit.kind = .emitted → Declaration.parse unit.text = .ok d → d.isModule = true →
      ∀ n ∈ d.nodes, ∀ s, n.referenced? = some s →
        ∀ current, c.resolver.resolve s current = c'.resolver.resolve s current) :
    c.contribution unit = c'.contribution unit := by
  unfold contribution
  split
  · rfl
  split
  · rfl
  · rfl
  · next hkind =>
    cases hparse : Declaration.parse unit.text with
    | error place => rfl
    | ok d =>
      dsimp only
      split
      · next hmodule =>
        exact moduleContribution_congr _ hplan hoptions hcalls (h d hkind hparse hmodule)
      · rfl

end BundleContext

/-! ### What a unit adds -/

/-- The context in which ambient modules are declared. -/
def BundleContext.declaring (plan : Plan) (o : Options) (declared : List String) : BundleContext :=
  ⟨plan, o, ⟨declared, o.idPrefix, o.importHook⟩⟩

/-- The text of a module in a bundle: a block around its declarations, with references rewritten. -/
def moduleText (c : BundleContext) (path : Path) (d : Declaration) : String :=
  let request := c.idRequest path
  moduleBlock c.options.layout (blockId request c.options.idHook c.options.idPrefix)
    ((d.replace? (c.resolver.rules request.current)).getD "")

/-- **What a unit adds to the text of a bundle**, by the ambient modules that are declared. -/
def unitText (plan : Plan) (o : Options) (declared : List String) (unit : CompilationUnit) :
    String :=
  if !unit.sourcePath.startsWith plan.baseDir || plan.excludes.excludes unit.sourcePath then ""
  else match unit.kind with
    | .notEmitted => ""
    | .declaration => unit.text
    | .emitted =>
      match Declaration.parse unit.text with
      | .error _ => ""
      | .ok d =>
        if d.isModule then moduleText (.declaring plan o declared) unit.declarationPath d
        else unit.text

/-- Whether a declaration file is the main module. -/
def BundleContext.isMain (c : BundleContext) (path : Path) : Bool :=
  let request := c.idRequest path
  c.options.main == some (blockId request c.options.idHook c.options.idPrefix) ||
    c.options.main == some request.current

/-- **What a unit adds to the exports of the main module.** -/
def unitExports (plan : Plan) (o : Options) (unit : CompilationUnit) : ExportShape :=
  if !plan.accepts unit || unit.kind != .emitted then .empty
  else match Declaration.parse unit.text with
    | .error _ => .empty
    | .ok d =>
      if d.isModule && (BundleContext.declaring plan o []).isMain unit.declarationPath then .of d
      else .empty

/-- The exports of the main module, of whichever units it is. -/
def exportsOf (plan : Plan) (o : Options) (units : List CompilationUnit) : ExportShape :=
  ⟨units.any fun unit => (unitExports plan o unit).hasDefault,
    units.any fun unit => (unitExports plan o unit).hasNamed⟩

/-- The lines that refer to other files. -/
def referenceText (o : Options) : String :=
  String.join (o.externs.map fun path => "/// <reference path=\"" ++ path ++ "\" />" ++ o.effectiveEol) ++
    String.join (o.types.map fun name => "/// <reference types=\"" ++ name ++ "\" />" ++ o.effectiveEol)

/-- The block of the main module, if there are a name and a main module. -/
def aliasText (plan : Plan) (o : Options) (units : List CompilationUnit) : String :=
  match o.name, o.main with
  | some name, some main => aliasBlock o.layout plan.target (exportsOf plan o units) name main
  | _, _ => ""

namespace ExportShape

theorem foldl_merge (shapes : List ExportShape) (start : ExportShape) :
    shapes.foldl merge start =
      ⟨start.hasDefault || shapes.any hasDefault, start.hasNamed || shapes.any hasNamed⟩ := by
  induction shapes generalizing start with
  | nil => simp
  | cons shape shapes ih => simp [ih, merge, Bool.or_assoc]

end ExportShape

/-- The module that a unit is, if its declarations were emitted and make one. -/
def CompilationUnit.module? (unit : CompilationUnit) : Option Declaration :=
  if unit.kind = .emitted then (Declaration.parse unit.text).toOption.filter Declaration.isModule
  else none

theorem CompilationUnit.module?_eq_some {unit : CompilationUnit} {d : Declaration} :
    unit.module? = some d ↔
      unit.kind = .emitted ∧ Declaration.parse unit.text = .ok d ∧ d.isModule = true := by
  unfold module?
  split
  · next hkind =>
    rw [Option.filter_eq_some_iff]
    cases Declaration.parse unit.text <;> simp [hkind, Except.toOption]
  · next hkind => simp [hkind]

/-! ### Units one after the other -/

/-- Without a fault, every unit has added something. -/
theorem forall₂_of_contributions {c : BundleContext} {units : List CompilationUnit}
    (h : (contributions c units).fault = none) :
    List.Forall₂ (fun unit added => c.contribution unit = .ok added) units
      (contributions c units).added := by
  induction units with
  | nil => exact .nil
  | cons unit units ih =>
    rw [contributions] at h ⊢
    cases hunit : c.contribution unit with
    | error fault => rw [hunit] at h; cases h
    | ok added =>
      rw [hunit] at h
      exact .cons hunit (ih h)

theorem exists_added_of_mem {c : BundleContext} {units : List CompilationUnit}
    (h : (contributions c units).fault = none) {unit : CompilationUnit} (hunit : unit ∈ units) :
    ∃ added ∈ (contributions c units).added, c.contribution unit = .ok added := by
  induction units with
  | nil => cases hunit
  | cons first units ih =>
    rw [contributions] at h ⊢
    cases hfirst : c.contribution first with
    | error fault => rw [hfirst] at h; cases h
    | ok added =>
      rw [hfirst] at h
      rcases List.mem_cons.1 hunit with rfl | hunit
      · exact ⟨added, List.mem_cons_self, hfirst⟩
      · obtain ⟨a, ha, hadd⟩ := ih h hunit
        exact ⟨a, List.mem_cons_of_mem _ ha, hadd⟩

/-- There is no fault if every unit adds something. -/
theorem contributions_fault_eq_none {c : BundleContext} {units : List CompilationUnit} :
    (contributions c units).fault = none ↔
      ∀ unit ∈ units, ∃ added, c.contribution unit = .ok added := by
  induction units with
  | nil => simp [contributions]
  | cons unit units ih =>
    rw [contributions, List.forall_mem_cons]
    cases hunit : c.contribution unit with
    | error fault => simp
    | ok added => simp [ih]

section Unit

variable {plan : Plan} {o : Options} {declared : List String} {unit : CompilationUnit}
  {added : Contribution}

/-- **What a module adds.** -/
theorem moduleContribution_inv {c : BundleContext} {path : Path} {d : Declaration}
    (h : c.moduleContribution path d = .ok added) :
    ∃ content, d.replace? (c.resolver.rules (c.idRequest path).current) = some content ∧
      added =
        { entry := some (.moduleBlock
            (blockId (c.idRequest path) c.options.idHook c.options.idPrefix) content)
          mainShape := if c.isMain path then some (.of d) else none
          idCalls := (c.options.idHook.map fun _ => c.idRequest path).toList
          importCalls := c.resolver.visitCalls d (c.idRequest path).current } := by
  unfold BundleContext.moduleContribution at h
  dsimp only at h
  split at h
  · cases h
  · next content hcontent => exact ⟨content, hcontent, (Except.ok.inj h).symm⟩

theorem moduleContribution_eq_ok {c : BundleContext} {path : Path} {d : Declaration}
    (h : c.moduleContribution path d = .ok added) :
    added.entry.map (Entry.text c.options.layout) = some (moduleText c path d) ∧
      added.mainShape = if c.isMain path then some (.of d) else none := by
  obtain ⟨content, hcontent, rfl⟩ := moduleContribution_inv h
  unfold moduleText
  dsimp only
  rw [hcontent]
  exact ⟨rfl, rfl⟩

/-- **What a unit adds**, by its kind. -/
theorem contribution_eq_ok {c : BundleContext} (h : c.contribution unit = .ok added) :
    unit.kind = .notEmitted ∧ added = .none ∨
    unit.kind = .declaration ∧ added = .verbatim unit.text ∨
    unit.kind = .emitted ∧ ∃ d, Declaration.parse unit.text = .ok d ∧
      (d.isModule = true ∧ c.moduleContribution unit.declarationPath d = .ok added ∨
        d.isModule = false ∧ added = .verbatim unit.text) := by
  unfold BundleContext.contribution at h
  split at h
  · cases h
  cases hkind : unit.kind with
  | notEmitted =>
    rw [hkind] at h
    exact .inl ⟨rfl, (Except.ok.inj h).symm⟩
  | declaration =>
    rw [hkind] at h
    exact .inr (.inl ⟨rfl, (Except.ok.inj h).symm⟩)
  | emitted =>
    rw [hkind] at h
    cases hparse : Declaration.parse unit.text with
    | error place =>
      rw [hparse] at h
      cases h
    | ok d =>
      rw [hparse] at h
      refine .inr (.inr ⟨rfl, d, rfl, ?_⟩)
      by_cases hmodule : d.isModule = true
      · exact .inl ⟨hmodule, (if_pos hmodule).symm.trans h⟩
      · have hverbatim := Except.ok.inj ((if_neg hmodule).symm.trans h)
        rw [Declaration.source_of_parse hparse] at hverbatim
        exact .inr ⟨Bool.not_eq_true _ ▸ hmodule, hverbatim.symm⟩

/-- **What a unit adds**, by whether it is a module. -/
theorem contribution_cases {c : BundleContext} (h : c.contribution unit = .ok added) :
    (∃ d, unit.module? = some d ∧ c.moduleContribution unit.declarationPath d = .ok added) ∨
      unit.module? = none ∧ (added = .none ∨ ∃ text, added = .verbatim text) := by
  rcases contribution_eq_ok h with ⟨hkind, rfl⟩ | ⟨hkind, rfl⟩ | ⟨hkind, d, hparse, hadded⟩
  · exact .inr ⟨by simp [CompilationUnit.module?, hkind], .inl rfl⟩
  · exact .inr ⟨by simp [CompilationUnit.module?, hkind], .inr ⟨_, rfl⟩⟩
  · rcases hadded with ⟨hmodule, hadded⟩ | ⟨hscript, rfl⟩
    · exact .inl ⟨d, CompilationUnit.module?_eq_some.2 ⟨hkind, hparse, hmodule⟩, hadded⟩
    · have hunit : unit.module? = none := by
        unfold CompilationUnit.module?
        rw [hparse]
        simp [Except.toOption, hscript]
      exact .inr ⟨hunit, .inr ⟨_, rfl⟩⟩

/-- The text that an accepted unit adds. -/
theorem entry_of_contribution (haccept : plan.accepts unit = true)
    (h : (BundleContext.declaring plan o declared).contribution unit = .ok added) :
    (added.entry.map (Entry.text o.layout)).getD "" = unitText plan o declared unit := by
  have hbelow : (!unit.sourcePath.startsWith plan.baseDir ||
      plan.excludes.excludes unit.sourcePath) = false := by
    unfold Plan.accepts at haccept
    simpa using haccept
  have hlayout : o.layout = (BundleContext.declaring plan o declared).options.layout := rfl
  unfold unitText
  rw [hbelow]
  rcases contribution_eq_ok h with ⟨hkind, rfl⟩ | ⟨hkind, rfl⟩ | ⟨hkind, d, hparse, hadded⟩
  · rw [hkind]
    rfl
  · rw [hkind]
    rfl
  · rw [hkind, hparse]
    rcases hadded with ⟨hmodule, hadded⟩ | ⟨hscript, rfl⟩
    · rw [hlayout, (moduleContribution_eq_ok hadded).1]
      exact (if_pos hmodule).symm
    · exact (if_neg (Bool.not_eq_true _ ▸ hscript)).symm

/-- The exports that an accepted unit adds. -/
theorem mainShape_of_contribution (haccept : plan.accepts unit = true)
    (h : (BundleContext.declaring plan o declared).contribution unit = .ok added) :
    added.mainShape.getD .empty = unitExports plan o unit := by
  unfold unitExports
  rw [haccept]
  rcases contribution_eq_ok h with ⟨hkind, rfl⟩ | ⟨hkind, rfl⟩ | ⟨hkind, d, hparse, hadded⟩
  · rw [hkind]
    rfl
  · rw [hkind]
    rfl
  · rw [hkind, hparse]
    rcases hadded with ⟨hmodule, hadded⟩ | ⟨hscript, rfl⟩
    · have hmain : (BundleContext.declaring plan o declared).isMain unit.declarationPath =
          (BundleContext.declaring plan o []).isMain unit.declarationPath := rfl
      rw [(moduleContribution_eq_ok hadded).2, hmain]
      simp only [hmodule, Bool.true_and]
      split <;> simp_all
    · simp [hscript, Contribution.verbatim]

end Unit

section Texts

variable {plan : Plan} {o : Options} {declared : List String} {units : List CompilationUnit}
  {added : List Contribution}

/-- Units that are not accepted add no text. -/
theorem join_unitText_filter (plan : Plan) (o : Options) (declared : List String)
    (units : List CompilationUnit) :
    String.join ((units.filter plan.accepts).map (unitText plan o declared)) =
      String.join (units.map (unitText plan o declared)) := by
  induction units with
  | nil => rfl
  | cons unit units ih =>
    cases haccept : plan.accepts unit with
    | true => simp [haccept, ih]
    | false =>
      have hempty : unitText plan o declared unit = "" := by
        unfold unitText
        rw [if_pos]
        unfold Plan.accepts at haccept
        simpa [or_iff_not_imp_left] using haccept
      simp [haccept, ih, hempty]

/-- Units that are not accepted add no exports. -/
theorem any_unitExports_filter (f : ExportShape → Bool) (hf : f .empty = false) :
    ((units.filter plan.accepts).any fun unit => f (unitExports plan o unit)) =
      units.any fun unit => f (unitExports plan o unit) := by
  rw [List.any_filter]
  congr 1
  funext unit
  cases haccept : plan.accepts unit with
  | true => rfl
  | false => simp [unitExports, haccept, hf]

theorem join_entries (h : List.Forall₂ (fun unit a => plan.accepts unit = true ∧
      (BundleContext.declaring plan o declared).contribution unit = .ok a) units added) :
    String.join ((added.filterMap Contribution.entry).map (Entry.text o.layout)) =
      String.join (units.map (unitText plan o declared)) := by
  induction h with
  | nil => rfl
  | @cons unit a units added hunit _ ih =>
    have hentry := entry_of_contribution hunit.1 hunit.2
    rw [List.map_cons, String.join_cons, ← ih, ← hentry, List.filterMap_cons]
    cases a.entry with
    | none => simp
    | some entry => simp

theorem mainShape_eq (h : List.Forall₂ (fun unit a => plan.accepts unit = true ∧
      (BundleContext.declaring plan o declared).contribution unit = .ok a) units added) :
    mainShape added = exportsOf plan o units := by
  have hany : ∀ f : ExportShape → Bool, f .empty = false →
      (added.filterMap Contribution.mainShape).any f =
        units.any fun unit => f (unitExports plan o unit) := by
    intro f hf
    induction h with
    | nil => rfl
    | @cons unit a units added hunit _ ih =>
      have hshape := mainShape_of_contribution hunit.1 hunit.2
      rw [List.any_cons, ← ih, ← hshape, List.filterMap_cons]
      cases a.mainShape with
      | none => simp [hf]
      | some shape => simp
  unfold mainShape exportsOf
  rw [ExportShape.foldl_merge, hany _ rfl, hany _ rfl]
  simp [ExportShape.empty]

theorem join_aliasEntries (h : mainShape added = exportsOf plan o units) :
    String.join ((aliasEntries plan o added).map (Entry.text o.layout)) = aliasText plan o units := by
  unfold aliasEntries aliasText mainAlias?
  cases o.name with
  | none => rfl
  | some name =>
    cases o.main with
    | none => rfl
    | some main =>
      rw [← h]
      exact String.join_cons.trans String.append_empty

end Texts

/-! ### Names that are declared -/

section Names

variable {plan : Plan} {o : Options} {declared declared' : List String}

theorem contains_congr (h : ∀ name, name ∈ declared ↔ name ∈ declared') (name : String) :
    declared.contains name = declared'.contains name := by
  rw [Bool.eq_iff_iff, List.contains_iff_mem, List.contains_iff_mem, h]

/-- What a unit adds depends on the set of names that are declared. -/
theorem contribution_declaring_congr (h : ∀ name, name ∈ declared ↔ name ∈ declared')
    (unit : CompilationUnit) :
    (BundleContext.declaring plan o declared).contribution unit =
      (BundleContext.declaring plan o declared').contribution unit :=
  BundleContext.contribution_congr rfl rfl
    (fun s _ => Resolver.hookCalls_congr rfl (contains_congr h s))
    (fun _ _ _ _ _ _ s _ _ => Resolver.resolve_congr rfl rfl (contains_congr h s))

theorem moduleText_congr (h : ∀ name, name ∈ declared ↔ name ∈ declared') (path : Path)
    (d : Declaration) : moduleText (.declaring plan o declared) path d =
      moduleText (.declaring plan o declared') path d := by
  have hrules : ∀ current n, (BundleContext.declaring plan o declared).resolver.rules current n =
      (BundleContext.declaring plan o declared').resolver.rules current n :=
    fun _ _ => Resolver.rules_congr fun s _ => Resolver.resolve_congr rfl rfl (contains_congr h s)
  unfold moduleText
  dsimp only
  rw [Declaration.replace?_congr fun n _ => hrules _ n]
  rfl

/-- The text that a unit adds depends on the set of names that are declared. -/
theorem unitText_congr (plan : Plan) (o : Options)
    (h : ∀ name, name ∈ declared ↔ name ∈ declared') :
    unitText plan o declared = unitText plan o declared' := by
  funext unit
  unfold unitText
  simp only [moduleText_congr h]

/-- The names that units declare do not depend on the order of the units. -/
theorem mem_declaredNames_of_perm {units units' : List CompilationUnit} (h : units.Perm units')
    (name : String) : name ∈ declaredNames units ↔ name ∈ declaredNames units' :=
  (h.flatMap_right _).mem_iff

end Names

/-! ### Runs -/

/-- An emitter that gives a compilation to a run. -/
def Emitter.Gives (emit : Emitter) (w : Workspace) (o : Options) (c : Compilation) : Prop :=
  ∀ plan opened, Plan.resolve w o = .ok plan → w.create plan.out (.ofText "") = .ok opened →
    emit opened (plan.request o) = .ok c

section Runs

variable {emit emit' : Emitter} {w opened written : Workspace} {plan : Plan} {o : Options}
  {c c' : Compilation}

/-- What a plan takes from its project and from the options. -/
theorem Plan.of_resolve (h : Plan.resolve w o = .ok plan) :
    ∃ config, loadProject w o = .ok config ∧ plan.project = config.map Project.Config.path ∧
      plan.out = o.out.absolutize w.cwd ∧ plan.baseDir = baseOf w o config ∧
      plan.files = filesOf o plan.baseDir config ∧
      plan.outDir = config.bind Project.Config.outDir := by
  unfold Plan.resolve at h
  simp only [bind, Except.bind, pure, Except.pure, throw, throwThe, MonadExceptOf.throw] at h
  split at h
  · cases h
  split at h
  · cases h
  cases hconfig : loadProject w o with
  | error fault => rw [hconfig] at h; cases h
  | ok config =>
    rw [hconfig] at h
    dsimp only at h
    split at h
    · cases h
    split at h
    · cases h
    · obtain rfl := Except.ok.inj h
      exact ⟨config, rfl, rfl, rfl, rfl, rfl, rfl⟩

theorem Plan.out_of_resolve (h : Plan.resolve w o = .ok plan) :
    plan.out = o.out.absolutize w.cwd := by
  obtain ⟨-, -, -, hout, -⟩ := Plan.of_resolve h
  exact hout

/-- The messages of a run before its compilation. -/
def openingMessages (plan : Plan) (o : Options) : List String :=
  (if o.verbose then plan.report else []) ++ referenceMessages o

theorem generateWith_eq_finish (hplan : Plan.resolve w o = .ok plan)
    (hopen : w.create plan.out (.ofText "") = .ok opened) (hemit : emit.Gives w o c) :
    generateWith emit w o =
      finish opened plan o (openingMessages plan o) [plan.request o] c := by
  unfold generateWith execute
  rw [hplan]
  dsimp only
  rw [hopen]
  dsimp only
  rw [hemit plan opened hplan hopen]
  rfl

/-- A run that succeeds has opened its output. -/
theorem exists_opened (hplan : Plan.resolve w o = .ok plan)
    (hok : (generateWith emit w o).result = .ok ()) :
    ∃ opened, w.create plan.out (.ofText "") = .ok opened := by
  cases hopen : w.create plan.out (.ofText "") with
  | ok opened => exact ⟨opened, rfl⟩
  | error cause =>
    unfold generateWith execute at hok
    rw [hplan] at hok
    dsimp only at hok
    rw [hopen] at hok
    cases hok

/-- A run that succeeds has its compilation. -/
theorem exists_compilation (hplan : Plan.resolve w o = .ok plan)
    (hopen : w.create plan.out (.ofText "") = .ok opened)
    (hok : (generateWith emit w o).result = .ok ()) :
    ∃ c, emit opened (plan.request o) = .ok c := by
  cases hemit : emit opened (plan.request o) with
  | ok c => exact ⟨c, rfl⟩
  | error fault =>
    unfold generateWith execute at hok
    rw [hplan] at hok
    dsimp only at hok
    rw [hopen] at hok
    dsimp only at hok
    rw [hemit] at hok
    cases hok

theorem progressOf_eq (hdiagnostics : c.diagnostics = []) :
    progressOf plan o c = contributions (.declaring plan o (declaredNames c.units))
      (c.units.filter plan.accepts) := by
  unfold progressOf
  rw [hdiagnostics]
  rfl

theorem progressOf_of_diagnostics (h : c.diagnostics ≠ []) :
    progressOf plan o c = ⟨[], [], some (.diagnostics none c.diagnostics)⟩ := by
  unfold progressOf
  rw [if_neg (by simpa using h)]

theorem diagnostics_eq_nil_of_fault (h : (progressOf plan o c).fault = none) :
    c.diagnostics = [] := by
  by_contra hne
  rw [progressOf_of_diagnostics hne] at h
  cases h

theorem finish_of_fault_eq_none (messages : List String) (requests : List Request)
    (hfault : (progressOf plan o c).fault = none)
    (hwrite : w.create plan.out (.ofText (bundleText plan o (progressOf plan o c).added)) =
      .ok written) :
    (finish w plan o messages requests c).result = .ok () ∧
      (finish w plan o messages requests c).workspace = written := by
  unfold finish
  dsimp only
  rw [hfault]
  dsimp only
  rw [hwrite]
  exact ⟨rfl, rfl⟩

theorem of_finish_ok {messages : List String} {requests : List Request}
    (hok : (finish w plan o messages requests c).result = .ok ()) :
    (progressOf plan o c).fault = none ∧ ∃ file written, w.create plan.out file = .ok written := by
  unfold finish at hok
  dsimp only at hok
  split at hok
  · cases hok
  · next hfault =>
    split at hok
    · cases hok
    · next written hwritten => exact ⟨hfault, _, written, hwritten⟩

/-- The text of a bundle, unit by unit. -/
theorem bundleText_eq (hdiagnostics : c.diagnostics = [])
    (hfault : (progressOf plan o c).fault = none) :
    bundleText plan o (progressOf plan o c).added = referenceText o ++
      String.join (c.units.map (unitText plan o (declaredNames c.units))) ++
        aliasText plan o c.units := by
  rw [progressOf_eq hdiagnostics] at hfault ⊢
  have hadded := (List.forall₂_and_left _ _).2
    ⟨fun unit hunit => (List.mem_filter.1 hunit).2, forall₂_of_contributions hfault⟩
  have hreferences : String.join ((referenceEntries o).map (Entry.text o.layout)) =
      referenceText o := by
    simp only [referenceEntries, referenceText, List.map_append, List.map_map, String.join_append]
    rfl
  -- the exports of units that are not accepted are empty, so they may be counted or not
  have hshape : mainShape (contributions (.declaring plan o (declaredNames c.units))
      (c.units.filter plan.accepts)).added = exportsOf plan o c.units := by
    rw [mainShape_eq hadded]
    unfold exportsOf
    rw [any_unitExports_filter ExportShape.hasDefault rfl,
      any_unitExports_filter ExportShape.hasNamed rfl]
  unfold bundleText bundleEntries
  rw [List.map_append, List.map_append, String.join_append, String.join_append, hreferences,
    join_entries hadded, join_unitText_filter, join_aliasEntries hshape]

/-- A run without faults leaves the text of its bundle behind. -/
theorem generateWith_of_fault_eq_none (hw : w.IsRooted) (hplan : Plan.resolve w o = .ok plan)
    (hopen : w.create plan.out (.ofText "") = .ok opened)
    (hwrite : ∃ file written, opened.create plan.out file = .ok written)
    (hemit : emit.Gives w o c) (hdiagnostics : c.diagnostics = [])
    (hfault : (progressOf plan o c).fault = none) :
    (generateWith emit w o).result = .ok () ∧
      (generateWith emit w o).workspace.readText plan.out = .ok (referenceText o ++
        String.join (c.units.map (unitText plan o (declaredNames c.units))) ++
          aliasText plan o c.units) := by
  have hroot := Workspace.isDirectory_create hw.root_directory hopen
  have hout : plan.out.IsNormal := by
    rw [Plan.out_of_resolve hplan]
    exact Path.absolutize_isNormal hw.cwd_absolute
  -- whether a file can be created does not depend on what it holds
  obtain ⟨_, _, hwrite⟩ := hwrite
  obtain ⟨written, hwritten⟩ := Workspace.create_ok_of_ok
    (.ofText (bundleText plan o (progressOf plan o c).added)) hwrite
  obtain ⟨hresult, hworkspace⟩ :=
    finish_of_fault_eq_none (openingMessages plan o) [plan.request o] hfault hwritten
  rw [generateWith_eq_finish hplan hopen hemit, hresult, hworkspace,
    ← bundleText_eq hdiagnostics hfault]
  exact ⟨rfl, Workspace.readText_create hroot hout hwritten⟩

/-- Whether there is a fault does not depend on the order of the units. -/
theorem fault_eq_none_of_perm (hdiagnostics : c.diagnostics = [])
    (hdiagnostics' : c'.diagnostics = []) (hperm : c'.units.Perm c.units)
    (hfault : (progressOf plan o c).fault = none) : (progressOf plan o c').fault = none := by
  rw [progressOf_eq hdiagnostics] at hfault
  rw [progressOf_eq hdiagnostics']
  refine contributions_fault_eq_none.2 fun unit hunit => ?_
  have hmem : unit ∈ c.units.filter plan.accepts := (hperm.filter _).mem_iff.1 hunit
  rw [contribution_declaring_congr (mem_declaredNames_of_perm hperm)]
  exact contributions_fault_eq_none.1 hfault unit hmem

theorem aliasText_of_perm (hperm : c'.units.Perm c.units) :
    aliasText plan o c'.units = aliasText plan o c.units := by
  unfold aliasText exportsOf
  rw [hperm.any_eq, hperm.any_eq]

/-- **The text of a bundle is put together unit by unit, in any order of the units.** The references
come first, then what each unit adds, then the block of the main module if there are a name and a
main module. What a unit adds depends on the set of ambient modules that all units declare, so that
units in another order add the same texts in that order. -/
theorem generateWith_unitwise (hw : w.IsRooted) (hplan : Plan.resolve w o = .ok plan)
    (hemit : emit.Gives w o c) (hdiagnostics : c.diagnostics = [])
    (hok : (generateWith emit w o).result = .ok ()) :
    (generateWith emit w o).workspace.readText plan.out = .ok (referenceText o ++
        String.join (c.units.map (unitText plan o (declaredNames c.units))) ++
          aliasText plan o c.units) ∧
      (∀ declared, (∀ name, name ∈ declared ↔ name ∈ declaredNames c.units) →
        unitText plan o declared = unitText plan o (declaredNames c.units)) ∧
      ∀ (emit' : Emitter) (c' : Compilation), emit'.Gives w o c' → c'.diagnostics = [] →
        c'.units.Perm c.units →
          (generateWith emit' w o).result = .ok () ∧
            (generateWith emit' w o).workspace.readText plan.out = .ok (referenceText o ++
              String.join (c'.units.map (unitText plan o (declaredNames c.units))) ++
                aliasText plan o c.units) := by
  obtain ⟨opened, hopen⟩ := exists_opened hplan hok
  have hfinish := hok
  rw [generateWith_eq_finish hplan hopen hemit] at hfinish
  obtain ⟨hfault, hwrite⟩ := of_finish_ok hfinish
  refine ⟨(generateWith_of_fault_eq_none hw hplan hopen hwrite hemit hdiagnostics hfault).2,
    fun _ h => unitText_congr plan o h, ?_⟩
  -- the other order has the same plan and the same declared names, so the same argument applies
  intro emit' c' hemit' hdiagnostics' hperm
  have hnames := unitText_congr plan o (mem_declaredNames_of_perm hperm)
  rw [← hnames, ← aliasText_of_perm hperm]
  exact generateWith_of_fault_eq_none hw hplan hopen hwrite hemit' hdiagnostics'
    (fault_eq_none_of_perm hdiagnostics hdiagnostics' hperm hfault)

end Runs

/-! ### A small program -/

namespace Sample

/-- A directory with nothing in it. -/
def workspace : Workspace := ⟨.directory [("work", .directory [])], ⟨"/work"⟩⟩

/-- A bundle with a reference, a main module and a prefix. -/
def options : Options where
  baseDir := some ⟨"src"⟩
  project := none
  files := [⟨"a.ts"⟩]
  exclude := []
  externs := ["e.d.ts"]
  types := []
  eol := none
  indent := none
  main := some "p/a"
  name := some "p"
  out := ⟨"out.d.ts"⟩
  moduleResolution := none
  target := none
  idPrefix := some "q"
  verbose := false
  idHook := none
  importHook := none

/-- A module that refers to a file next to it. -/
def mainUnit : CompilationUnit :=
  .emitted ⟨"/work/src/a.ts"⟩ ⟨"/work/src/a.d.ts"⟩ "export * from './b';\n" []

/-- A file outside of the base directory that declares an ambient module. -/
def ambientUnit : CompilationUnit :=
  .declaration ⟨"/work/lib/b.d.ts"⟩ "declare module './b' \x7b\x7d\n" []

/-- An emitter that gives units without diagnostics. -/
def emitting (units : List CompilationUnit) : Emitter := fun _ _ => .ok ⟨units, []⟩

theorem emitting_gives (w : Workspace) (o : Options) (units : List CompilationUnit) :
    (emitting units).Gives w o ⟨units, []⟩ := fun _ _ _ _ => rfl

theorem exists_plan : ∃ plan, Plan.resolve workspace options = .ok plan := by
  have h : (Plan.resolve workspace options).isOk = true := by decide +kernel
  cases hplan : Plan.resolve workspace options with
  | error fault => rw [hplan] at h; cases h
  | ok plan => exact ⟨plan, rfl⟩

end Sample

theorem generateWith_unitwise_swapped : ∃ plan, Sample.workspace.IsRooted ∧
    Plan.resolve Sample.workspace Sample.options = .ok plan ∧
    (generateWith (Sample.emitting [Sample.mainUnit, Sample.ambientUnit]) Sample.workspace
      Sample.options).result = .ok () ∧
    (generateWith (Sample.emitting [Sample.ambientUnit, Sample.mainUnit]) Sample.workspace
      Sample.options).workspace.readText plan.out = .ok (referenceText Sample.options ++
        String.join ([Sample.ambientUnit, Sample.mainUnit].map (unitText plan Sample.options
          (declaredNames [Sample.mainUnit, Sample.ambientUnit]))) ++
        aliasText plan Sample.options [Sample.mainUnit, Sample.ambientUnit]) := by
  obtain ⟨plan, hplan⟩ := Sample.exists_plan
  have hrooted : Sample.workspace.IsRooted := by decide +kernel
  have hok : (generateWith (Sample.emitting [Sample.mainUnit, Sample.ambientUnit]) Sample.workspace
      Sample.options).result = .ok () := by decide +kernel
  have h := generateWith_unitwise hrooted hplan (Sample.emitting_gives _ _ _) rfl hok
  exact ⟨plan, hrooted, hplan, hok,
    (h.2.2 _ _ (Sample.emitting_gives _ _ _) rfl (List.Perm.swap _ _ _)).2⟩

end AmbientBundle

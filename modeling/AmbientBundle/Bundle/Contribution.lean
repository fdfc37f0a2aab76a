import AmbientBundle.Bundle.Plan
import AmbientBundle.Bundle.Rules

/-!
# Contributions of files

Each file that belongs to the bundle contributes an entry, or nothing, or the fault that ends the
run. Files are taken in the order of the compiler, and the first fault ends it.

* `declaredNames`: the ambient modules that the program declares anywhere.
* `contribution`: what a file adds.
* `contributions`: what the files add up to the first fault.
-/

namespace AmbientBundle

/-- What the contribution of a file depends on. -/
structure BundleContext where
  plan : Plan
  options : Options
  resolver : Resolver

/-- What a file adds: its entry, the exports of the main module if it is that, and the calls of
hooks. -/
structure Contribution where
  entry : Option Entry
  mainShape : Option ExportShape
  idCalls : List IdRequest
  importCalls : List ImportRequest
deriving Repr, DecidableEq, Inhabited

namespace Contribution

/-- Nothing. -/
def none : Contribution := ⟨.none, .none, [], []⟩

/-- A text taken over as it is. -/
def verbatim (text : String) : Contribution := ⟨some (.verbatim text), .none, [], []⟩

end Contribution

/-- **The ambient modules that the units of a program declare**, whether or not they belong to the
bundle. Texts that make no sense declare none. -/
def declaredNames (units : List CompilationUnit) : List String :=
  units.flatMap fun unit =>
    if unit.kind = .notEmitted then []
    else match Declaration.parse unit.text with
      | .ok d => d.ambientNames
      | .error _ => []

/-- How references are resolved in a program. -/
def resolverFor (o : Options) (units : List CompilationUnit) : Resolver :=
  ⟨declaredNames units, o.idPrefix, o.importHook⟩

namespace BundleContext

/-- The context of a program. -/
def ofUnits (plan : Plan) (o : Options) (units : List CompilationUnit) : BundleContext :=
  ⟨plan, o, resolverFor o units⟩

/-- What the hook on identifiers is told of a declaration file. -/
def idRequest (c : BundleContext) (path : Path) : IdRequest where
  declarationPath := path
  relative := ModuleId.ofPath path c.plan.baseDir none
  current := ModuleId.ofPath path c.plan.baseDir c.options.name

/-- The block of a module. -/
def moduleContribution (c : BundleContext) (path : Path) (d : Declaration) :
    Except BundleError Contribution :=
  let request := c.idRequest path
  let id := blockId request c.options.idHook c.options.idPrefix
  match d.replace? (c.resolver.rules request.current) with
  | none => .error (.brokenOff path)
  | some content =>
    .ok
      { entry := some (.moduleBlock id content)
        mainShape :=
          if c.options.main == some id || c.options.main == some request.current then some (.of d)
          else none
        idCalls := (c.options.idHook.map fun _ => request).toList
        importCalls := c.resolver.visitCalls d request.current }

/-- **What a file adds.** Diagnostics come before anything else. -/
def contribution (c : BundleContext) (unit : CompilationUnit) : Except BundleError Contribution :=
  if !unit.diagnostics.isEmpty then .error (.diagnostics unit.sourcePath unit.diagnostics)
  else match unit.kind with
    | .notEmitted => .ok .none
    | .declaration => .ok (.verbatim unit.text)
    | .emitted =>
      match Declaration.parse unit.text with
      | .error place => .error (.declaration unit.declarationPath place)
      | .ok d =>
        if d.isModule then c.moduleContribution unit.declarationPath d
        else .ok (.verbatim d.source)

end BundleContext

/-- What files add up to the first fault: the files that were looked at, what they add, and the
fault. -/
structure Progress where
  seen : List Path
  added : List Contribution
  fault : Option BundleError
deriving Repr, DecidableEq, Inhabited

/-- **What files add**, up to the first fault. -/
def contributions (c : BundleContext) : List CompilationUnit → Progress
  | [] => ⟨[], [], none⟩
  | unit :: units =>
    match c.contribution unit with
    | .error fault => ⟨[unit.sourcePath], [], some fault⟩
    | .ok added =>
      let rest := contributions c units
      ⟨unit.sourcePath :: rest.seen, added :: rest.added, rest.fault⟩

end AmbientBundle

import AmbientBundle.Bundle.Contribution
import AmbientBundle.Compiler.Search

/-!
# Generating a bundle

A run makes a plan, creates the output, has the program compiled, and writes the entries of all
files that belong to the bundle. What it told the caller on the way is part of its outcome.

* `generateWith`: a run with a given way to compile.
* `generate`: a run that looks for the compiler.
-/

namespace AmbientBundle

/-- A way to compile a request in a workspace. -/
abbrev Emitter := Workspace → Request → Except CompilerFault Compilation

/-- The outcome of a run: what it leaves behind, what it told the caller, and whether there is a
bundle. -/
structure Outcome where
  workspace : Workspace
  messages : List String
  requests : List Request
  idCalls : List IdRequest
  importCalls : List ImportRequest
  result : Except BundleError Unit
deriving Inhabited

/-- The references at the front of a bundle. -/
def referenceEntries (o : Options) : List Entry :=
  o.externs.map .referencePath ++ o.types.map .referenceTypes

/-- The messages about references. -/
def referenceMessages (o : Options) : List String :=
  o.externs.map (fun path => "Writing external dependency " ++ path) ++
    o.types.map fun name => "Writing type dependency " ++ name

/-- The exports of the main module: those of all files that are it, together. -/
def mainShape (added : List Contribution) : ExportShape :=
  (added.filterMap Contribution.mainShape).foldl .merge .empty

/-- The name of the package and the main module that it stands for, if both are given. -/
def mainAlias? (o : Options) : Option (String × String) := do return (← o.name, ← o.main)

/-- The block for the main module. -/
def aliasEntries (plan : Plan) (o : Options) (added : List Contribution) : List Entry :=
  match mainAlias? o with
  | some (name, main) => [.mainAlias name main (mainShape added) plan.target]
  | none => []

/-- The message about the main module. -/
def aliasMessages (o : Options) : List String :=
  match mainAlias? o with
  | some (name, main) => ["Aliased main module " ++ name ++ " to " ++ main]
  | none => []

/-- **The entries of a bundle.** -/
def bundleEntries (plan : Plan) (o : Options) (added : List Contribution) : List Entry :=
  referenceEntries o ++ added.filterMap Contribution.entry ++ aliasEntries plan o added

/-- **The text of a bundle.** -/
def bundleText (plan : Plan) (o : Options) (added : List Contribution) : String :=
  String.join ((bundleEntries plan o added).map (Entry.text o.layout))

/-- What the files of a compilation add, if the program as a whole is in order. -/
def progressOf (plan : Plan) (o : Options) (c : Compilation) : Progress :=
  if c.diagnostics.isEmpty then
    contributions (.ofUnits plan o c.units) (c.units.filter plan.accepts)
  else ⟨[], [], some (.diagnostics none c.diagnostics)⟩

/-- The end of a run that has its compilation: the output, which is there already, gets its
text. After a fault the output is taken to be empty: how much of the text of earlier units has
reached it by then depends on buffers, and it is to be discarded. -/
def finish (w : Workspace) (plan : Plan) (o : Options) (messages : List String)
    (requests : List Request) (c : Compilation) : Outcome :=
  let progress := progressOf plan o c
  let told := messages ++ progress.seen.map fun path => "Processing " ++ path.text
  let outcome : Outcome :=
    { workspace := w
      messages := told
      requests
      idCalls := progress.added.flatMap Contribution.idCalls
      importCalls := progress.added.flatMap Contribution.importCalls
      result := .ok () }
  match progress.fault with
  | some fault => { outcome with result := .error fault }
  | none =>
    match w.create plan.out (.ofText (bundleText plan o progress.added)) with
    | .error cause => { outcome with result := .error (.write plan.out cause) }
    | .ok written =>
      { outcome with workspace := written, messages := told ++ aliasMessages o }

/-- A run of a plan. -/
def execute (emit : Emitter) (w : Workspace) (plan : Plan) (o : Options) : Outcome :=
  let reported := if o.verbose then plan.report else []
  let stop (w : Workspace) (messages : List String) (requests : List Request)
      (fault : BundleError) : Outcome := ⟨w, messages, requests, [], [], .error fault⟩
  match w.create plan.out (.ofText "") with
  | .error cause => stop w reported [] (.write plan.out cause)
  | .ok opened =>
    let messages := reported ++ referenceMessages o
    let request := plan.request o
    match emit opened request with
    | .error fault => stop opened messages [request] (.compiler fault)
    | .ok compilation => finish opened plan o messages [request] compilation

/-- A run that has not come to anything. -/
def Outcome.failed (w : Workspace) (fault : BundleError) : Outcome :=
  ⟨w, [], [], [], [], .error fault⟩

/-- **Generates a bundle** with a given way to compile. -/
def generateWith (emit : Emitter) (w : Workspace) (o : Options) : Outcome :=
  match Plan.resolve w o with
  | .error fault => .failed w fault
  | .ok plan => execute emit w plan o

/-- **Generates a bundle** with the compiler that is found from the base directory on. The compiler
writes its declarations to a directory of its own. -/
def generate (env : Environment) (outDir : Path) (w : Workspace) (o : Options) : Outcome :=
  match Plan.resolve w o with
  | .error fault => .failed w fault
  | .ok plan =>
    match env.findCompiler? w plan.baseDir with
    | none => .failed w (.compiler .notFound)
    | some compiler => execute (fun w r => compile w compiler outDir r) w plan o

end AmbientBundle

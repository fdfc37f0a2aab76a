import AmbientBundle.Bundle.Exclude
import AmbientBundle.Bundle.Options
import AmbientBundle.Compiler.Run
import AmbientBundle.Project.Load

/-!
# Plans

A plan is what options come down to in a workspace: all paths are absolute, and the settings of a
project have been taken in.

* `BundleError`: why there is no bundle.
* `Plan.resolve`: the plan of options.
* `Plan.request`, `Plan.accepts`: what is compiled, and which files belong to the bundle.
-/

namespace AmbientBundle

open Text

/-- Why options come down to nothing. -/
inductive OptionFault where
  | outMissing
  | nameMissing
  | inputsMissing
  | projectMissing (location : Path)
  | noInputs
  | badExclude (fault : PatternFault)
deriving Repr, DecidableEq, Inhabited

/-- The text of a fault. -/
def OptionFault.message : OptionFault → String
  | .outMissing => "an output path is required"
  | .nameMissing => "a name is required to alias the main module"
  | .inputsMissing =>
    "either input files with a base directory or a project configuration is required"
  | .projectMissing location => "no project configuration found at " ++ location.text
  | .noInputs => "no input files"
  | .badExclude fault =>
    "invalid exclude pattern '" ++ fault.pattern ++ "': " ++ fault.fault.message fault.glob

/-- **Why there is no bundle.** -/
inductive BundleError where
  | options (fault : OptionFault)
  | project (fault : Project.Fault)
  /-- The compiler has something to say about a file, or about the program. -/
  | diagnostics (file : Option Path) (diagnostics : List Diagnostic)
  /-- The declarations of a file make no sense. -/
  | declaration (path : Path) (place : LineColumn)
  /-- A replacement in the declarations of a file cuts through a character. The run breaks off. -/
  | brokenOff (path : Path)
  | write (path : Path) (cause : FileFault)
  | compiler (fault : CompilerFault)
deriving Repr, DecidableEq, Inhabited

/-- **The text of an error.** -/
def BundleError.message : BundleError → String
  | .options fault => fault.message
  | .project fault => fault.message
  | .diagnostics file found =>
    "Declaration generation failed" ++ (file.elim "" fun path => " for " ++ path.text) ++
      String.join (found.map fun d => "\n" ++ d.text)
  | .declaration path place =>
    path.text ++ "(" ++ toString place.line ++ "," ++ toString place.column ++ ")"
  | .brokenOff path => path.text ++ ": a replacement cuts through a character"
  | .write path cause => "failed to write " ++ path.text ++ ": " ++ cause.message
  | .compiler fault => fault.message

/-- **What options come down to.** -/
structure Plan where
  project : Option Path
  baseDir : Path
  files : List Path
  target : Target
  moduleResolution : Option ModuleResolution
  jsx : Option String
  outDir : Option Path
  excludes : ExcludeSet
  out : Path
deriving Repr, Inhabited

namespace Plan

/-- The location of the project: the one asked for, or the base directory. -/
def projectLocation (o : Options) (cwd : Path) : Except OptionFault Path :=
  match o.project, o.baseDir with
  | some project, _ => .ok (project.absolutize cwd)
  | none, some base => .ok ((base.absolutize cwd).join ⟨"tsconfig.json"⟩)
  | none, none => .error .inputsMissing

/-- The project, if one is asked for or there are no files. -/
def loadProject (w : Workspace) (o : Options) : Except BundleError (Option Project.Config) :=
  if o.project.isSome || o.files.isEmpty then do
    let location ← (projectLocation o w.cwd).mapError .options
    match Project.Config.find? w location with
    | none => throw (.options (.projectMissing location))
    | some path => some <$> (Project.Config.load w path).mapError .project
  else .ok none

/-- The root of the sources. -/
def baseOf (w : Workspace) (o : Options) (config : Option Project.Config) : Path :=
  let base : Path :=
    match config with
    | some config => config.rootDir.getD config.dir
    | none => (o.baseDir.map fun dir : Path => dir.absolutize w.cwd).getD w.cwd
  base.normalize

/-- The input files. -/
def filesOf (o : Options) (base : Path) (config : Option Project.Config) : List Path :=
  match config with
  | some config => config.files
  | none => o.files.map fun file => file.absolutize base

/-- **The plan of options.** -/
def resolve (w : Workspace) (o : Options) : Except BundleError Plan := do
  if o.out.text == "" then throw (.options .outMissing)
  if o.main.isSome && (nonEmpty o.name).isNone then throw (.options .nameMissing)
  let config ← loadProject w o
  let baseDir := baseOf w o config
  let files := filesOf o baseDir config
  if files.isEmpty then throw (.options .noInputs)
  let excludes ← (ExcludeSet.ofPatterns baseDir o.exclude).mapError fun f => .options (.badExclude f)
  return {
    baseDir, files, excludes
    project := config.map Project.Config.path
    target := ((config.bind Project.Config.target).or o.target).getD .esnext
    moduleResolution := (config.bind Project.Config.moduleResolution).or o.moduleResolution
    jsx := config.bind Project.Config.jsx
    outDir := config.bind Project.Config.outDir
    out := o.out.absolutize w.cwd }

/-- The report of a plan, line by line. -/
def report (p : Plan) : List String :=
  (p.project.map fun path => "project = \"" ++ path.text ++ "\"").toList ++
    ["baseDir = \"" ++ p.baseDir.text ++ "\"", "target = " ++ p.target.name] ++
    (p.outDir.map fun path => "outDir = \"" ++ path.text ++ "\"").toList ++
    (p.moduleResolution.map fun mode => "moduleResolution = " ++ mode.name).toList ++
    ["filenames:"] ++ p.files.map (fun file => "  " ++ file.text) ++
    ["excludes:"] ++ p.excludes.patterns.map fun pattern => "  " ++ pattern

/-- What the compiler is asked for. -/
def request (p : Plan) (o : Options) : Request where
  rootDir := p.baseDir
  project := p.project
  files := p.files
  target := some p.target
  moduleResolution := p.moduleResolution
  jsx := p.jsx
  types := o.types
  newLine := .ofText o.effectiveEol

/-- **Whether a file belongs to the bundle.** -/
def accepts (p : Plan) (unit : CompilationUnit) : Bool :=
  unit.sourcePath.startsWith p.baseDir && !p.excludes.excludes unit.sourcePath

end Plan

end AmbientBundle

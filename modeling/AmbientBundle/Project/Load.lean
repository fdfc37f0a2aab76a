import AmbientBundle.Compiler.Settings
import AmbientBundle.FileTree.Workspace
import AmbientBundle.Project.Inputs

/-!
# Loading a project

A configuration file may start from others, which may do so in turn. They are read in the order in
which they are named, each one completely before the next.

* `parentPath?`: the file that is meant by a name.
* `loadSettings`: the settings of a file and all that it starts from.
* `Config.find?`, `Config.load`: a project.
-/

namespace AmbientBundle.Project

/-- Why a project cannot be loaded. -/
inductive Cause where
  | circular (path : Path)
  | unreadable (cause : FileFault)
  | malformed (path : Path) (place : Json.Place) (cause : Json.Cause)
  | parentMissing (name : String)
  | unknownValue (value : UnknownValue)
  | badPattern (fault : PatternFault)
deriving Repr, DecidableEq, Inhabited

/-- The text of a cause. -/
def Cause.message : Cause → String
  | .circular path => "circularity detected while resolving configuration: " ++ path.text
  | .unreadable cause => cause.message
  | .malformed path place cause =>
    path.text ++ "(" ++ toString place.line ++ "," ++ toString place.column ++ "): " ++
      cause.message ++ " at line " ++ toString place.line ++ " column " ++ toString place.column
  | .parentMissing name => "File '" ++ name ++ "' not found."
  | .unknownValue value => value.message
  | .badPattern fault =>
    "invalid pattern '" ++ fault.pattern ++ "': " ++ fault.fault.message fault.glob

/-- A fault in a configuration file. -/
structure Fault where
  path : Path
  cause : Cause
deriving Repr, DecidableEq, Inhabited

/-- The text of a fault. -/
def Fault.message (fault : Fault) : String :=
  "failed to load " ++ fault.path.text ++ ":\n" ++ fault.cause.message

/-- The directory of a file. -/
def directoryOf (path : Path) : Path := path.parent?.getD ⟨""⟩

/-! ### Parents -/

/-- The configuration file at a path, which may lack its ending or name a directory. -/
def configAt? (w : Workspace) (path : Path) : Option Path :=
  ([path, ⟨path.text ++ ".json"⟩, path.join ⟨"tsconfig.json"⟩].find? w.isFile).map Path.normalize

/-- **The file that a file in a directory starts from**, given by its name: a path, or a package of
the directory or of one above it. -/
def parentPath? (w : Workspace) (dir : Path) (name : String) : Option Path :=
  let path : Path := ⟨name⟩
  if name.toList.head? == some '.' || path.isAbsolute then configAt? w (path.absolutize dir)
  else dir.ancestors.findSome? fun up => configAt? w ((up.join ⟨"node_modules"⟩).join path)

/-- Reads a configuration file. -/
def readConfig (w : Workspace) (path : Path) : Except Fault ConfigFile :=
  match w.readText path with
  | .error cause => .error ⟨path, .unreadable cause⟩
  | .ok text =>
    (ConfigFile.parse text).mapError fun (cause, place) => ⟨path, .malformed path place cause⟩

/-- **The settings of a file** and of all that it starts from, where some files are being read
already. The fuel bounds their number. -/
def loadSettings (w : Workspace) : Nat → List Path → Path → Except Fault Settings
  | 0, _, path => .error ⟨path, .circular path⟩
  | n + 1, chain, path => do
    if chain.contains path then throw ⟨path, .circular path⟩
    let file ← readConfig w path
    let dir := directoryOf path
    let inherited ← file.parents.foldlM
      (fun under name => do
        match parentPath? w dir name with
        | none => throw ⟨path, .parentMissing name⟩
        | some parent => return under.override (← loadSettings w n (chain ++ [path]) parent))
      Settings.empty
    return inherited.override (.ofFile dir file)

/-! ### Projects -/

/-- **A loaded project.** -/
structure Config where
  path : Path
  files : List Path
  target : Option Target
  outDir : Option Path
  rootDir : Option Path
  moduleResolution : Option ModuleResolution
  jsx : Option String
deriving Repr, DecidableEq, Inhabited

namespace Config

/-- The directory of the configuration file. -/
def dir (c : Config) : Path := directoryOf c.path

/-- The configuration file of a project given by its file or its directory. -/
def find? (w : Workspace) (project : Path) : Option Path :=
  let candidate := if w.isDirectory project then project.join ⟨"tsconfig.json"⟩ else project
  if w.isFile candidate then some candidate else none

/-- A bound on how many files can be read before one comes twice: each can be reached under as many
paths as the working directory is deep, and under an absolute one. -/
def fuel (w : Workspace) : Nat :=
  ((w.filesBelow (fun _ => true) ⟨"/"⟩).length + 1) * (w.cwd.components.length + 2)

/-- **Loads a project** and finds its input files. -/
def load (w : Workspace) (file : Path) : Except Fault Config := do
  let path := file.normalize
  let settings ← loadSettings w (fuel w) [] path
  let target ← (settings.target.mapM Target.parse).mapError fun v => ⟨path, .unknownValue v⟩
  let moduleResolution ←
    (settings.moduleResolution.mapM ModuleResolution.parse).mapError fun v =>
      ⟨path, .unknownValue v⟩
  let files ← (inputFiles w settings (directoryOf path)).mapError fun f => ⟨path, .badPattern f⟩
  return {
    path, files, target, moduleResolution
    outDir := settings.outDir
    rootDir := settings.rootDir
    jsx := settings.jsx }

end Config

end AmbientBundle.Project

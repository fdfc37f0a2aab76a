import AmbientBundle.Compiler.Report
import AmbientBundle.Compiler.Request
import AmbientBundle.Compiler.Unit
import AmbientBundle.FileTree.Workspace
import AmbientBundle.Path.Declaration
import AmbientBundle.Text.Lossy

/-!
# Running the compiler

The compiler is a program that writes declarations into a directory of its own, and reports the
files of the program and its diagnostics. Each file is then paired with its declarations and its
diagnostics.

* `runCompiler`: a run, up to its report.
* `collectUnits`: the units of a report.
* `compile`: both.
-/

namespace AmbientBundle

open Text

/-- Why there is no compilation. -/
inductive CompilerFault where
  | spawnFailed (path : Path) (cause : FileFault)
  /-- The compiler failed without reporting anything. -/
  | processFailed (code : Int) (output : String)
  | notFound
  | binaryMissing (path : Path)
  | readFailed (path : Path) (cause : FileFault)
deriving Repr, DecidableEq, Inhabited

/-- The text of a fault. -/
def CompilerFault.message : CompilerFault → String
  | .spawnFailed path cause => "failed to spawn " ++ path.text ++ ": " ++ cause.message
  | .processFailed code output => "compiler exited with code " ++ toString code ++ ": " ++ output
  | .notFound => "TypeScript compiler not found; install typescript or set DTS_BUNDLE_TSC"
  | .binaryMissing path => "compiler binary not found at: " ++ path.text
  | .readFailed path cause => "failed to read " ++ path.text ++ ": " ++ cause.message

/-- A run of a program: its arguments and its working directory. -/
structure Call where
  arguments : List String
  cwd : Path
deriving Repr, DecidableEq, Inhabited

/-! ### Runs -/

/-- The program of an executable file. -/
def programOf : FileTree → Except FileFault Program
  | .directory _ => .error .permissionDenied
  | .file file =>
    if !file.executable then .error .permissionDenied
    else match file.program with
      | some program => .ok program
      | none => .error .notProgram

/-- Starts a program in a directory, which is entered first: the names of the directory, and the
program. -/
def startProgram (w : Workspace) (program dir : Path) :
    Except FileFault (List String × Program) := do
  let names ← w.locate dir
  match w.tree.lookup? names with
  | some (.directory _) =>
    let inside : Workspace := { w with cwd := ⟨"/" ++ "/".intercalate names⟩ }
    return (names, ← programOf (← inside.node program))
  | _ => throw .notDirectory

/-- The files that a program writes, as a tree of their own. -/
def Program.emittedTree (p : Program) : FileTree :=
  p.emits.foldl
    (fun tree (path, content) =>
      let names := Workspace.namesOf path
      match tree.makeDirectories names.dropLast >>= FileTree.createFile ⟨content, false, none⟩ names with
      | .ok tree => tree
      | .error _ => tree)
    .empty

/-- The call that a request leads to, if the compiler can be started. -/
def compilerCall? (w : Workspace) (compiler : Path) (r : Request) (outDir : Path) : Option Call :=
  if w.has compiler then
    match startProgram w compiler r.rootDir with
    | .ok (names, _) => some ⟨r.arguments outDir, ⟨"/" ++ "/".intercalate names⟩⟩
    | .error _ => none
  else none

/-- The report of a program that has run. A failure counts only if nothing was reported. -/
def Program.report (p : Program) (cwd : Path) : Except CompilerFault Report :=
  let stdout := decodeLossy p.stdout
  let stderr := decodeLossy p.stderr
  let report := Report.read cwd stdout
  if p.exit != some 0 && report.listed.isEmpty && report.diagnostics.isEmpty then
    .error (.processFailed (p.exit.elim (-1) Int.ofNat)
      (if (trim stderr.toList).isEmpty then stdout else stderr))
  else .ok report

/-- **Runs the compiler**: its report, and the tree of declarations it wrote. -/
def runCompiler (w : Workspace) (compiler : Path) (r : Request) :
    Except CompilerFault (Report × FileTree) :=
  if !w.has compiler then .error (.binaryMissing compiler)
  else match startProgram w compiler r.rootDir with
    | .error cause => .error (.spawnFailed compiler cause)
    | .ok (_, program) => (program.report r.rootDir).map fun report => (report, program.emittedTree)

/-! ### Units -/

/-- Reads a text, with a fault that names a path. -/
def readAs (w : Workspace) (path shown : Path) : Except CompilerFault String :=
  (w.readText path).mapError (.readFailed shown)

/-- The unit of a file below the root, whose declarations are looked up among those written. -/
def emittedUnit (written : Workspace) (outDir root path relative : Path)
    (diagnostics : List Diagnostic) : Except CompilerFault CompilationUnit :=
  let name := relative.declarationName
  let place := (Path.mk "/").join name
  if written.has place then
    (readAs written place (outDir.join name)).map fun text =>
      .emitted path (root.join name) text diagnostics
  else .ok (.notEmitted path diagnostics)

/-- The unit of a file of the program. -/
def unitOf (w written : Workspace) (outDir root path : Path) (diagnostics : List Diagnostic) :
    Except CompilerFault CompilationUnit :=
  if path.isDeclaration then
    (readAs w path path).map fun text => .declaration path text diagnostics
  else match path.relativeTo? root with
    | some relative => emittedUnit written outDir root path relative diagnostics
    | none => .ok (.notEmitted path diagnostics)

/-- The diagnostics of a file; those of a file listed before are taken. Files are compared by the
components of their paths. -/
def diagnosticsFor (all : List Diagnostic) (before : List Path) (path : Path) : List Diagnostic :=
  if (before.map Path.components).contains path.components then []
  else all.filter fun d => d.fileComponents == some path.components

/-- The diagnostics that belong to no listed file: first those about the whole program, then the
others, grouped by file. -/
def remainingDiagnostics (all : List Diagnostic) (listed : List Path) : List Diagnostic :=
  let others := (all.filterMap Diagnostic.fileComponents).eraseDups.filter fun file =>
    !(listed.map Path.components).contains file
  (all.filter fun d => d.file.isNone) ++
    others.flatMap fun file => all.filter fun d => d.fileComponents == some file

/-- The units of files, after those listed before them. -/
def unitsFrom (w written : Workspace) (outDir root : Path) (all : List Diagnostic) :
    List Path → List Path → Except CompilerFault (List CompilationUnit)
  | _, [] => .ok []
  | before, path :: paths => do
    let unit ← unitOf w written outDir root path (diagnosticsFor all before path)
    return unit :: (← unitsFrom w written outDir root all (before ++ [path]) paths)

/-- **Pairs the files of a report with their declarations and diagnostics.** -/
def collectUnits (w : Workspace) (emitted : FileTree) (outDir rootDir : Path) (report : Report) :
    Except CompilerFault Compilation := do
  let root := rootDir.normalize
  let listed := report.listed.map fun path => path.absolutize root
  let units ← unitsFrom w ⟨emitted, ⟨"/"⟩⟩ outDir root report.diagnostics [] listed
  return ⟨units, remainingDiagnostics report.diagnostics listed⟩

/-- **Compiles a request** with the compiler at a path, with declarations written to a directory. -/
def compile (w : Workspace) (compiler outDir : Path) (r : Request) :
    Except CompilerFault Compilation := do
  let (report, emitted) ← runCompiler w compiler r
  collectUnits w emitted outDir r.rootDir report

end AmbientBundle

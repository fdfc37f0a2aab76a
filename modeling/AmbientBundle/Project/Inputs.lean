import AmbientBundle.Bundle.Exclude
import AmbientBundle.FileTree.Workspace
import AmbientBundle.Project.Settings

/-!
# Input files of a project

The files that are named, and then those that the patterns take in and do not leave out.

* `readPatterns`: patterns, which stand for what is below a directory too.
* `inputFiles`: the input files.
-/

namespace AmbientBundle.Project

open Text

/-- The ends of names of source files. -/
def sourceExtensions : List String := [".ts", ".tsx", ".mts", ".cts"]

/-- What is taken in if neither files nor patterns are given. -/
def defaultIncludes : List String := ["**/*"]

/-- What is left out if nothing is said. -/
def defaultExcludes : List String := ["node_modules", "bower_components", "jspm_packages"]

/-- A pattern without `./` at its front and slashes at its end. -/
def trimPattern (pattern : String) : String :=
  String.ofList (dropTrailing '/' (dropHere pattern).toList)

/-- Whether a pattern seems to name a directory: its last segment has no wildcard and no dot. -/
def namesDirectory (pattern : String) : Bool :=
  let last := ((split '/' pattern.toList).getLast?).getD []
  !(last.contains '*' || last.contains '?' || last.contains '.')

/-- Which patterns are read. -/
inductive PatternUse where
  | takeIn
  | leaveOut
deriving Repr, DecidableEq, Inhabited

/-- The patterns that one stands for. -/
def expandPattern (use : PatternUse) (pattern : String) : List String :=
  match use with
  | .leaveOut => [pattern, pattern ++ "/**"]
  | .takeIn => if namesDirectory pattern then [pattern, pattern ++ "/**/*"] else [pattern]

/-- **Reads patterns** and what they stand for. -/
def readPatterns (use : PatternUse) (patterns : List String) : Except PatternFault (List Glob) := do
  let globs ← patterns.mapM fun pattern =>
    let pattern := trimPattern pattern
    (expandPattern use pattern).mapM (readPattern pattern)
  return globs.flatten

/-- Whether a path ends as source files do. -/
def isSource (path : Path) : Bool :=
  sourceExtensions.any fun ext => endsWith ext.toList (path.fileName?.getD "").toList

/-- The patterns of files to take in, if there are any. -/
def includesOf (settings : Settings) (dir : Path) : Option PatternList :=
  match settings.includes, settings.files with
  | some includes, _ => some includes
  | none, none => some ⟨dir, defaultIncludes⟩
  | none, some _ => none

/-- The patterns of files to leave out. -/
def excludesOf (settings : Settings) (dir : Path) : PatternList :=
  settings.excludes.getD ⟨dir, defaultExcludes⟩

/-- Whether a path is left out: it lies in the output directory, or a pattern matches it. -/
def isLeftOut (outDir : Option Path) (dir : Path) (globs : List Glob) (path : Path) : Bool :=
  outDir.any path.startsWith || (path.relativeTo? dir).any (Glob.anyMatch globs)

/-- Whether a file is taken in. -/
def isTakenIn (dir : Path) (globs : List Glob) (path : Path) : Bool :=
  isSource path && (path.relativeTo? dir).any (Glob.anyMatch globs)

/-- **The input files** of a project with its configuration in a directory. What is left out is not
searched. -/
def inputFiles (w : Workspace) (settings : Settings) (dir : Path) :
    Except PatternFault (List Path) := do
  let named := settings.files.getD []
  match includesOf settings dir with
  | none => return named.eraseDups
  | some includes =>
    let excludes := excludesOf settings dir
    let taken ← readPatterns .takeIn includes.patterns
    let left ← readPatterns .leaveOut excludes.patterns
    let keep := fun path => !isLeftOut settings.outDir excludes.dir left path
    let found := (w.filesBelow keep includes.dir).filter (isTakenIn includes.dir taken)
    return (named ++ found.map Path.normalize).eraseDups

end AmbientBundle.Project

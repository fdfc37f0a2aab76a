import AmbientBundle.Glob.Match

/-!
# Files left out of a bundle

Patterns say which files are left out. A path is matched as it is, and also as the rest below the
base directory.
-/

namespace AmbientBundle

/-- What is left out when nothing is said. -/
def defaultExclude : String := "node_modules/**/*.d.ts"

/-- A text without the leading occurrences of another. -/
def dropFronts (front : List Char) : Nat → List Char → List Char
  | 0, cs => cs
  | n + 1, cs =>
    match Text.cutFront? front cs with
    | some rest => dropFronts front n rest
    | none => cs

/-- A pattern without the `./` at its front. -/
def dropHere (pattern : String) : String :=
  String.ofList (dropFronts ['.', '/'] pattern.length pattern.toList)

/-- A pattern that cannot be read. -/
structure PatternFault where
  pattern : String
  /-- The pattern with what was added to it. -/
  glob : String
  fault : Glob.Fault
deriving Repr, DecidableEq, Inhabited

/-- Reads a pattern of which a part was given by the user. -/
def readPattern (pattern glob : String) : Except PatternFault Glob :=
  (Glob.parse glob).mapError fun fault => ⟨pattern, glob, fault⟩

/-- The files left out of a bundle. -/
structure ExcludeSet where
  base : Path
  /-- The patterns in force. -/
  patterns : List String
  globs : List Glob
deriving Repr, Inhabited

namespace ExcludeSet

/-- The patterns in force when these are given. -/
def effective (patterns : List String) : List String :=
  if patterns.isEmpty then [defaultExclude] else patterns.map dropHere

/-- **The files that patterns leave out**, below a base directory. -/
def ofPatterns (base : Path) (patterns : List String) : Except PatternFault ExcludeSet := do
  let patterns := effective patterns
  let globs ← patterns.mapM fun pattern => readPattern pattern pattern
  return ⟨base, patterns, globs⟩

/-- **Whether a file is left out.** -/
def excludes (set : ExcludeSet) (path : Path) : Bool :=
  Glob.anyMatch set.globs path || (path.relativeTo? set.base).any (Glob.anyMatch set.globs)

end ExcludeSet

end AmbientBundle

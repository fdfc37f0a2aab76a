import AmbientBundle.FileTree.Workspace
import AmbientBundle.Text.Blank

/-!
# Finding the compiler

The compiler is the one that the environment names, or else the first one found: among the programs
of a project, on the search path, and in the usual places.
-/

namespace AmbientBundle

/-- What the environment says. -/
structure Environment where
  /-- A compiler to be used instead of any other. -/
  compiler : Option String
  searchPath : List Path
  home : Path
deriving Repr, DecidableEq, Inhabited

/-- The names of compilers. -/
def compilerNames : List String := ["tsc", "tsgo"]

/-- The usual places of compilers. -/
def usualPlaces : List String :=
  ["/usr/local/bin/tsc", "/usr/bin/tsc", "~/.local/bin/tsc", "~/.npm-global/bin/tsc"]

namespace Environment

/-- A path with the home directory in the place of a leading tilde. -/
def expand (env : Environment) (text : String) : Path :=
  match text.toList with
  | '~' :: [] => env.home
  | '~' :: '/' :: rest => ⟨env.home.text ++ String.ofList ('/' :: rest)⟩
  | _ => ⟨text⟩

/-- The compiler that the environment names, unless the name is blank. -/
def named? (env : Environment) : Option Path :=
  (env.compiler.filter fun text => !(Text.trim text.toList).isEmpty).map env.expand

/-- The first compiler among the programs of a project, in a directory or one above it. -/
def inProject? (w : Workspace) (start : Path) : Option Path :=
  start.ancestors.findSome? fun dir =>
    (compilerNames.map fun name => (dir.join ⟨"node_modules/.bin"⟩).join ⟨name⟩).find? w.has

/-- The first compiler on the search path. It has to be an executable file. -/
def onSearchPath? (env : Environment) (w : Workspace) : Option Path :=
  (compilerNames.flatMap fun name => env.searchPath.map fun dir => dir.join ⟨name⟩).find? fun path =>
    (w.file? path).any File.executable

/-- **The compiler**, looked for from a directory on. -/
def findCompiler? (env : Environment) (w : Workspace) (start : Option Path) : Option Path :=
  env.named?
    <|> start.bind (inProject? w)
    <|> env.onSearchPath? w
    <|> (usualPlaces.map env.expand).find? w.has

end Environment

end AmbientBundle

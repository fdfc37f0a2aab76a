import AmbientBundle.Compiler.Settings
import AmbientBundle.Path.Basic

/-!
# Requests to the compiler

A request says what to compile; `Request.arguments` is the command line for it.
-/

namespace AmbientBundle

/-- What to compile and how. -/
structure Request where
  /-- The root of the sources; declarations are laid out below it. -/
  rootDir : Path
  /-- The project configuration. If there is one, it decides on the files and most settings. -/
  project : Option Path
  files : List Path
  target : Option Target
  moduleResolution : Option ModuleResolution
  jsx : Option String
  types : List String
  newLine : NewLine
deriving Repr, DecidableEq, Inhabited

namespace Request

/-- An option with its value, if it is set. -/
def option (name : String) (value : Option String) : List String :=
  match value with
  | some value => [name, value]
  | none => []

/-- The files and the settings that belong to them. -/
def sourceArguments (r : Request) : List String :=
  match r.project with
  | some project => ["--project", project.text]
  | none =>
    r.files.map Path.text ++
      option "--module" (r.moduleResolution.map ModuleResolution.moduleKind) ++
      option "--moduleResolution" (r.moduleResolution.map ModuleResolution.name) ++
      option "--target" (r.target.map Target.name) ++ option "--jsx" r.jsx

/-- **The command line of a request**, with declarations to be written below a directory. -/
def arguments (r : Request) (outDir : Path) : List String :=
  r.sourceArguments ++
    (if r.types.isEmpty then [] else ["--types", ",".intercalate r.types]) ++
    ["--declaration", "--emitDeclarationOnly", "--listFiles", "--noEmit", "false", "--pretty",
      "false", "--newLine", r.newLine.name, "--outDir", outDir.text, "--rootDir", r.rootDir.text]

end Request

end AmbientBundle

import AmbientBundle.Bundle.Generate
import AmbientBundle.CommandLine.Arguments

/-!
# The program

A run of the program in a workspace: its exit code, what it prints, and what it leaves behind.
-/

namespace AmbientBundle.CommandLine

/-- The outcome of a run of the program. -/
structure ProgramOutcome where
  exit : Nat
  stdout : String
  stderr : String
  /-- What the compiler was asked for. -/
  requests : List Request
  workspace : Workspace
deriving Inhabited

/-- The explanation of an option. -/
def Setting.help : Setting → String
  | .name => "Package name, prepended to every module identifier"
  | .baseDir => "Directory the module identifiers are relative to"
  | .project => "Path to tsconfig.json, or a directory containing one"
  | .out => "Output file"
  | .main => "Module identifier to alias as the package name"
  | .idPrefix => "Prefix for computed module identifiers"
  | .exclude => "Glob pattern of files to leave out (repeatable)"
  | .externPath => "Path to reference with \x60/// <reference path>\x60 (repeatable)"
  | .types => "Type package to reference with \x60/// <reference types>\x60 (repeatable)"
  | .eol => "End of line sequence: lf, crlf, or an escaped literal such as \"\\r\\n\""
  | .indent => "Indentation, escapes such as \"\\t\" allowed"
  | .target => "Language level of the emitted declarations (es5, es2015, ..., esnext)"
  | .moduleResolution => "Module resolution mode (classic, node, node16, nodenext, bundler)"

/-- A line of the help text. -/
def helpLine (usage help : String) : String :=
  "  " ++ usage ++ "".pushn ' ' (41 - usage.length) ++ "  " ++ help ++ "\n"

/-- The help text. -/
def helpText : String :=
  "Bundles TypeScript declaration files into a single module declaration file\n\n" ++
    "Usage: dts-bundle [OPTIONS] --out <OUT> [FILES]...\n\n" ++
    "Arguments:\n  [FILES]...  Input files, relative to the base directory\n\nOptions:\n" ++
    String.join (Setting.all.map fun s => helpLine ("    " ++ s.usage) s.help) ++
    helpLine "    --verbose" "Print the resolved configuration" ++
    helpLine "-h, --help" "Print help" ++ helpLine "-V, --version" "Print version"

/-- Lines of output. -/
def lines (texts : List String) : String := String.join (texts.map (· ++ "\n"))

/-- A run that ends with its arguments: what was asked for is printed, and all else is a fault. -/
def refuse (w : Workspace) (fault : ArgumentFault) : ProgramOutcome :=
  match fault with
  | .version => ⟨0, lines [versionText], "", [], w⟩
  | .help => ⟨0, helpText, "", [], w⟩
  | fault => ⟨2, "", lines fault.message.toList, [], w⟩

/-- The exit code of a run without a bundle. -/
def exitCode : BundleError → Nat
  | .brokenOff _ => 101
  | _ => 1

/-- **Runs the program** with arguments. The compiler writes to a directory of its own. -/
def runProgram (env : Environment) (outDir : Path) (w : Workspace) (arguments : List String) :
    ProgramOutcome :=
  match parseArguments arguments with
  | .error fault => refuse w fault
  | .ok read =>
    let run := generate env outDir w read.options
    let told := "Starting" :: run.messages
    match run.result with
    | .ok _ => ⟨0, lines (told ++ ["Done!"]), "", run.requests, run.workspace⟩
    | .error fault =>
      ⟨exitCode fault, lines told, lines ["Error: " ++ fault.message], run.requests, run.workspace⟩

end AmbientBundle.CommandLine

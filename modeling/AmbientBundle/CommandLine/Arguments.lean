import AmbientBundle.Bundle.Options
import AmbientBundle.CommandLine.Escape

/-!
# Arguments

Options have long names and take one value each, apart from one flag; everything else is an input
file. The value of an option is looked at only when the next argument shows that it is complete.

* `State.step`: reads one argument.
* `parseArguments`: reads all of them.
* `ArgumentFault.message`: what is said about arguments that make no sense.
-/

namespace AmbientBundle.CommandLine

open Text

/-- The options that take a value. -/
inductive Setting where
  | name
  | baseDir
  | project
  | out
  | main
  | idPrefix
  | exclude
  | externPath
  | types
  | eol
  | indent
  | target
  | moduleResolution
deriving Repr, DecidableEq, Inhabited

namespace Setting

/-- All options that take a value. -/
def all : List Setting :=
  [.name, .baseDir, .project, .out, .main, .idPrefix, .exclude, .externPath, .types, .eol, .indent,
    .target, .moduleResolution]

/-- The name of an option on the command line. -/
def flag : Setting → String
  | .name => "name"
  | .baseDir => "baseDir"
  | .project => "project"
  | .out => "out"
  | .main => "main"
  | .idPrefix => "prefix"
  | .exclude => "exclude"
  | .externPath => "extern"
  | .types => "types"
  | .eol => "eol"
  | .indent => "indent"
  | .target => "target"
  | .moduleResolution => "moduleResolution"

/-- The name of the value of an option. -/
def valueName : Setting → String
  | .name => "NAME"
  | .baseDir => "BASE_DIR"
  | .project => "PROJECT"
  | .out => "OUT"
  | .main => "MAIN"
  | .idPrefix => "PREFIX"
  | .exclude => "EXCLUDE"
  | .externPath => "EXTERNS"
  | .types => "TYPES"
  | .eol => "EOL"
  | .indent => "INDENT"
  | .target => "TARGET"
  | .moduleResolution => "MODULE_RESOLUTION"

/-- An option with the name of its value. -/
def usage (s : Setting) : String := "--" ++ s.flag ++ " <" ++ s.valueName ++ ">"

/-- Whether an option may be given more than once. -/
def isRepeatable : Setting → Bool
  | .exclude | .externPath | .types => true
  | _ => false

/-- The option of a name. -/
def ofFlag? (flag : String) : Option Setting := all.find? fun s => s.flag == flag

end Setting

/-- Why there are no options: faults, and the requests that are answered at once. -/
inductive ArgumentFault where
  | outMissing
  | valueMissing (setting : Setting)
  | badValue (setting : Setting) (value reason : String)
  | unknown (argument : String)
  | repeated (usage : String)
  | unneededValue (value usage : String)
  | version
  | help
deriving Repr, DecidableEq, Inhabited

/-- The name and the version of the program. -/
def versionText : String := "dts-bundle 0.3.0"

/-- **What is said about arguments** that give no options. Nothing is said where help is asked
for. -/
def ArgumentFault.message : ArgumentFault → Option String
  | .outMissing => some "error: the following required arguments were not provided:"
  | .valueMissing s =>
    some ("error: a value is required for '" ++ s.usage ++ "' but none was supplied")
  | .badValue s value reason =>
    some ("error: invalid value '" ++ value ++ "' for '" ++ s.usage ++ "': " ++ reason)
  | .unknown argument => some ("error: unexpected argument '" ++ argument ++ "' found")
  | .repeated usage => some ("error: the argument '" ++ usage ++ "' cannot be used multiple times")
  | .unneededValue value usage =>
    some ("error: unexpected value '" ++ value ++ "' for '" ++ usage ++
      "' found; no more were expected")
  | .version => some versionText
  | .help => none

/-- The arguments read so far. -/
structure Arguments where
  name : Option String
  baseDir : Option String
  project : Option String
  out : Option String
  main : Option String
  idPrefix : Option String
  exclude : List String
  externs : List String
  types : List String
  eol : Option String
  indent : Option String
  target : Option Target
  moduleResolution : Option ModuleResolution
  verbose : Bool
  files : List String
deriving Repr, DecidableEq, Inhabited

namespace Arguments

/-- No arguments. -/
def empty : Arguments :=
  ⟨none, none, none, none, none, none, [], [], [], none, none, none, none, false, []⟩

/-- Whether an option has been given. -/
def has (a : Arguments) : Setting → Bool
  | .name => a.name.isSome
  | .baseDir => a.baseDir.isSome
  | .project => a.project.isSome
  | .out => a.out.isSome
  | .main => a.main.isSome
  | .idPrefix => a.idPrefix.isSome
  | .exclude => !a.exclude.isEmpty
  | .externPath => !a.externs.isEmpty
  | .types => !a.types.isEmpty
  | .eol => a.eol.isSome
  | .indent => a.indent.isSome
  | .target => a.target.isSome
  | .moduleResolution => a.moduleResolution.isSome

/-- Takes in the value of an option. -/
def put (a : Arguments) (s : Setting) (value : String) : Except ArgumentFault Arguments := do
  if a.has s && !s.isRepeatable then throw (.repeated s.usage)
  match s with
  | .name => return { a with name := value }
  | .baseDir => return { a with baseDir := value }
  | .project => return { a with project := value }
  | .out => return { a with out := value }
  | .main => return { a with main := value }
  | .idPrefix => return { a with idPrefix := value }
  | .exclude => return { a with exclude := a.exclude ++ [value] }
  | .externPath => return { a with externs := a.externs ++ [value] }
  | .types => return { a with types := a.types ++ [value] }
  | .eol =>
    return { a with eol := ← (readEol value).mapError fun f => .badValue s value f.message }
  | .indent =>
    return { a with indent := ← (unescape value).mapError fun f => .badValue s value f.message }
  | .target =>
    return { a with target := ← (Target.parse value).mapError fun u => .badValue s value u.message }
  | .moduleResolution =>
    return { a with
      moduleResolution :=
        ← (ModuleResolution.parse value).mapError fun u => .badValue s value u.message }

/-- Takes in the flag. -/
def putVerbose (a : Arguments) : Except ArgumentFault Arguments :=
  if a.verbose then .error (.repeated "--verbose") else .ok { a with verbose := true }

end Arguments

/-- What has been read but not yet taken in. -/
inductive Pending where
  | nothing
  /-- An option without its value. -/
  | awaiting (setting : Setting)
  | value (setting : Setting) (value : String)
  | files (files : List String)
deriving Repr, DecidableEq, Inhabited

/-- The reader of arguments. -/
structure State where
  arguments : Arguments
  pending : Pending
  /-- Whether only files follow. -/
  onlyFiles : Bool
deriving Repr, DecidableEq, Inhabited

namespace State

/-- The reader before any argument. -/
def start : State := ⟨.empty, .nothing, false⟩

/-- Takes in what is pending. -/
def settle (s : State) : Except ArgumentFault Arguments :=
  match s.pending with
  | .nothing => .ok s.arguments
  | .awaiting setting => .error (.valueMissing setting)
  | .value setting value => s.arguments.put setting value
  | .files files => .ok { s.arguments with files := s.arguments.files ++ files }

/-- An option that has no value, of the program itself or for help and version. -/
def plainFlag? (name : String) : Option (Arguments → Except ArgumentFault Arguments) :=
  match name with
  | "verbose" => some Arguments.putVerbose
  | "help" => some fun _ => .error .help
  | "version" => some fun _ => .error .version
  | _ => none

/-- An argument that starts with two dashes: a name, and perhaps a value after an equals sign. -/
def longStep (s : State) (name : String) (value : Option String) : Except ArgumentFault State := do
  match Setting.ofFlag? name, plainFlag? name with
  | some setting, _ =>
    let settled ← s.settle
    match value with
    | some value => return { s with arguments := ← settled.put setting value, pending := .nothing }
    | none => return { s with arguments := settled, pending := .awaiting setting }
  | none, some put =>
    match value with
    | some value => throw (.unneededValue value ("--" ++ name))
    | none => return { s with arguments := ← put (← s.settle), pending := .nothing }
  | none, none => throw (.unknown ("--" ++ name))

/-- An argument that starts with one dash, by its first letter. -/
def shortStep (s : State) (c : Char) : Except ArgumentFault State := do
  match c with
  | 'h' => let _ ← s.settle; throw .help
  | 'V' => let _ ← s.settle; throw .version
  | c => throw (.unknown ("-" ++ c.toString))

/-- An argument that is no option: the value that is awaited, or a file. -/
def plainStep (s : State) (argument : String) : Except ArgumentFault State := do
  match s.onlyFiles, s.pending with
  | false, .awaiting setting => return { s with pending := .value setting argument }
  | _, .files files => return { s with pending := .files (files ++ [argument]) }
  | _, _ => return { s with arguments := ← s.settle, pending := .files [argument] }

/-- **Reads one argument.** After a double dash everything is a file. -/
def step (s : State) (argument : String) : Except ArgumentFault State :=
  if s.onlyFiles then s.plainStep argument
  else match argument.toList with
    | ['-', '-'] => .ok { s with onlyFiles := true }
    | '-' :: '-' :: rest =>
      match splitFirst? ['='] rest with
      | some (name, value) => s.longStep (String.ofList name) (some (String.ofList value))
      | none => s.longStep (String.ofList rest) none
    | '-' :: c :: _ => s.shortStep c
    | _ => s.plainStep argument

end State

/-- **Reads all arguments.** There has to be an output. -/
def parseArguments (arguments : List String) : Except ArgumentFault Arguments := do
  let read ← (← arguments.foldlM State.step .start).settle
  if read.out.isNone then throw .outMissing else return read

/-- The options that arguments ask for. -/
def Arguments.options (a : Arguments) : Options where
  baseDir := a.baseDir.map Path.mk
  project := a.project.map Path.mk
  files := a.files.map Path.mk
  exclude := a.exclude
  externs := a.externs
  types := a.types
  eol := a.eol
  indent := a.indent
  main := a.main
  name := a.name
  out := ⟨a.out.getD ""⟩
  moduleResolution := a.moduleResolution
  target := a.target
  idPrefix := a.idPrefix
  verbose := a.verbose
  idHook := none
  importHook := none

end AmbientBundle.CommandLine

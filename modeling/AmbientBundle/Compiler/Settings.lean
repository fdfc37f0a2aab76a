import AmbientBundle.Text.Blank

/-!
# Compiler settings

The settings that a run of the compiler is told by name: the language level, the way modules are
looked up, and the line ends. Names are read without regard to case and to blanks around them.
-/

namespace AmbientBundle

/-- A value that names no setting. -/
inductive UnknownValue where
  | target (value : String)
  | moduleResolution (value : String)
deriving Repr, DecidableEq, Inhabited

/-- The text of an unknown value. -/
def UnknownValue.message : UnknownValue → String
  | .target value => "unknown target '" ++ value ++ "'"
  | .moduleResolution value => "unknown module resolution '" ++ value ++ "'"

/-- A name as it is compared: without blanks around it and in lower case. -/
def settingKey (text : String) : String :=
  String.ofList ((Text.trim text.toList).map Char.toLower)

/-- The language level of the emitted code, from the oldest to the newest. -/
inductive Target where
  | es3
  | es5
  | es2015
  | es2016
  | es2017
  | es2018
  | es2019
  | es2020
  | es2021
  | es2022
  | es2023
  | es2024
  | esnext
deriving Repr, DecidableEq, Inhabited

namespace Target

/-- The name of a level. -/
def name : Target → String
  | .es3 => "es3"
  | .es5 => "es5"
  | .es2015 => "es2015"
  | .es2016 => "es2016"
  | .es2017 => "es2017"
  | .es2018 => "es2018"
  | .es2019 => "es2019"
  | .es2020 => "es2020"
  | .es2021 => "es2021"
  | .es2022 => "es2022"
  | .es2023 => "es2023"
  | .es2024 => "es2024"
  | .esnext => "esnext"

/-- All levels. -/
def all : List Target :=
  [.es3, .es5, .es2015, .es2016, .es2017, .es2018, .es2019, .es2020, .es2021, .es2022, .es2023,
    .es2024, .esnext]

/-- Whether imports and exports are part of the language at this level. -/
def hasModules : Target → Bool
  | .es3 | .es5 => false
  | _ => true

/-- Reads the name of a level. -/
def parse (text : String) : Except UnknownValue Target :=
  match settingKey text with
  | "es6" => .ok .es2015
  | "latest" => .ok .esnext
  | key =>
    match all.find? fun target => target.name == key with
    | some target => .ok target
    | none => .error (.target text)

end Target

/-- How the compiler looks up modules. -/
inductive ModuleResolution where
  | classic
  | node10
  | node16
  | nodenext
  | bundler
deriving Repr, DecidableEq, Inhabited

namespace ModuleResolution

/-- The name of a mode. -/
def name : ModuleResolution → String
  | .classic => "classic"
  | .node10 => "node10"
  | .node16 => "node16"
  | .nodenext => "nodenext"
  | .bundler => "bundler"

/-- All modes. -/
def all : List ModuleResolution := [.classic, .node10, .node16, .nodenext, .bundler]

/-- The kind of modules that the compiler takes together with a mode. -/
def moduleKind : ModuleResolution → String
  | .classic | .node10 => "commonjs"
  | .node16 => "node16"
  | .nodenext => "nodenext"
  | .bundler => "esnext"

/-- Reads the name of a mode. -/
def parse (text : String) : Except UnknownValue ModuleResolution :=
  match settingKey text with
  | "node" => .ok .node10
  | key =>
    match all.find? fun mode => mode.name == key with
    | some mode => .ok mode
    | none => .error (.moduleResolution text)

end ModuleResolution

/-- The line ends of emitted files. -/
inductive NewLine where
  | lf
  | crlf
deriving Repr, DecidableEq, Inhabited

namespace NewLine

/-- The name of a kind of line end. -/
def name : NewLine → String
  | .lf => "lf"
  | .crlf => "crlf"

/-- The kind of a line end. -/
def ofText (eol : String) : NewLine := if eol == "\r\n" then .crlf else .lf

end NewLine

end AmbientBundle

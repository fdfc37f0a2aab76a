import AmbientBundle.Path.Basic

/-!
# Diagnostics

What a compiler has to say about a file at a place, or about the whole program.

* `Diagnostic.text`: the line of a diagnostic, in the form that names the place in parentheses.
* `Diagnostic.fileComponents`: the file that it is about, in whatever spelling.
-/

namespace AmbientBundle

/-- How grave a diagnostic is. -/
inductive Severity where
  | error
  | warning
  | suggestion
  | message
deriving Repr, DecidableEq, Inhabited

/-- The word for a severity. -/
def Severity.name : Severity → String
  | .error => "error"
  | .warning => "warning"
  | .suggestion => "suggestion"
  | .message => "message"

/-- All severities, the gravest first. -/
def Severity.all : List Severity := [.error, .warning, .suggestion, .message]

/-- A diagnostic. One about the whole program has no file, and the place zero. -/
structure Diagnostic where
  file : Option Path
  line : Nat
  column : Nat
  code : String
  message : String
  severity : Severity
deriving Repr, DecidableEq, Inhabited

namespace Diagnostic

/-- Severity, code and message. -/
def body (d : Diagnostic) : String := d.severity.name ++ " " ++ d.code ++ ": " ++ d.message

/-- **The text of a diagnostic**: `file(line,column): severity code: message`. -/
def text (d : Diagnostic) : String :=
  match d.file with
  | some file =>
    file.text ++ "(" ++ toString d.line ++ "," ++ toString d.column ++ "): " ++ d.body
  | none => d.body

/-- **The file of a diagnostic by its components.** Spellings with the same ones are one file. -/
def fileComponents (d : Diagnostic) : Option (List Component) := d.file.map Path.components

end Diagnostic

end AmbientBundle

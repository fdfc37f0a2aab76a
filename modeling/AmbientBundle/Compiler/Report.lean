import AmbientBundle.Compiler.Diagnostic
import AmbientBundle.Path.Normal
import AmbientBundle.Text.Blank

/-!
# The report of a compiler

A compiler prints diagnostics, each on a line with its further lines indented below it, and the
files of the program, each on a line as an absolute path. A blank line ends a diagnostic.

* `readDiagnostic?`: a line as a diagnostic, in either form.
* `Report.read`: a whole output.
-/

namespace AmbientBundle

open Text

/-- What a compiler reported. -/
structure Report where
  diagnostics : List Diagnostic
  /-- The files of the program, in the order of the compiler. -/
  listed : List Path
deriving Repr, DecidableEq, Inhabited

/-! ### Lines -/

/-- A line or column number: digits, perhaps after a plus sign, below 2³². -/
def readNumber? (cs : List Char) : Option Nat :=
  let digits := (cutFront? ['+'] cs).getD cs
  if digits.isEmpty || !digits.all Char.isDigit then none
  else
    let n := digits.foldl (fun n c => 10 * n + (c.toNat - '0'.toNat)) 0
    if n < 4294967296 then some n else none

/-- The severity at the front of a text and what follows it, which has to start as a code does. -/
def readSeverity? (cs : List Char) : Option (Severity × List Char) :=
  Severity.all.findSome? fun severity => do
    let rest ← cutFront? (severity.name.toList ++ [' ']) cs
    if startsWith ['T', 'S'] rest then some (severity, rest) else none

/-- The code before the first colon and the message after it, both without blanks around them. -/
def readCode? (cs : List Char) : Option (List Char × List Char) := do
  let (before, after) ← splitFirst? [':'] cs
  let code := trim before
  let digits ← cutFront? ['T', 'S'] code
  if digits.all Char.isDigit then some (code, trim after) else none

/-- What stands before the code of a diagnostic: the place, the severity, and the rest of the
line. -/
structure Lead where
  file : List Char
  line : Nat
  column : Nat
  severity : Severity
  rest : List Char

/-- The place in parentheses, given the text before and after its closing parenthesis. -/
def Lead.ofParentheses? (before after : List Char) : Option Lead := do
  let (file, place) ← splitLast? '(' before
  let (line, column) ← splitFirst? [','] place
  let line ← readNumber? line
  let column ← readNumber? column
  let (severity, rest) ← readSeverity? after
  return ⟨file, line, column, severity, rest⟩

/-- The place before a dash. -/
def Lead.ofDash? (cs : List Char) : Option Lead := do
  let (place, after) ← splitFirst? [' ', '-', ' '] cs
  let (front, column) ← splitLast? ':' place
  let (file, line) ← splitLast? ':' front
  let column ← readNumber? column
  let line ← readNumber? line
  let (severity, rest) ← readSeverity? after
  return ⟨file, line, column, severity, rest⟩

/-- The diagnostic that a lead starts. Its file is read from the working directory. -/
def Lead.diagnostic? (cwd : Path) (lead : Lead) : Option Diagnostic := do
  let (code, message) ← readCode? lead.rest
  return {
    file := some (Path.absolutize ⟨String.ofList lead.file⟩ cwd)
    line := lead.line
    column := lead.column
    code := String.ofList code
    message := String.ofList message
    severity := lead.severity }

/-- A diagnostic about the whole program, after its severity. -/
def programDiagnostic? (severity : Severity) (rest : List Char) : Option Diagnostic := do
  let (code, message) ← readCode? rest
  return ⟨none, 0, 0, String.ofList code, String.ofList message, severity⟩

/-- **A line as a diagnostic.** A line that starts with a severity is about the whole program or no
diagnostic at all. -/
def readDiagnostic? (cwd : Path) (line : List Char) : Option Diagnostic :=
  match readSeverity? line with
  | some (severity, rest) => programDiagnostic? severity rest
  | none =>
    let parenthesised :=
      (occurrences [')', ':', ' '] line).findSome? fun (before, after) =>
        Lead.ofParentheses? before after
    match parenthesised.bind (Lead.diagnostic? cwd) with
    | some diagnostic => some diagnostic
    | none => (Lead.ofDash? line).bind (Lead.diagnostic? cwd)

/-! ### Whole outputs -/

namespace Report

/-- Nothing reported. -/
def empty : Report := ⟨[], []⟩

/-- A report in progress: what was read, and whether the next line may belong to the last
diagnostic. -/
structure State where
  report : Report
  continues : Bool

/-- Adds a line to the message of the last diagnostic. -/
def extendLast (line : List Char) : List Diagnostic → List Diagnostic
  | [] => []
  | [d] => [{ d with message := d.message ++ "\n" ++ String.ofList line }]
  | d :: ds => d :: extendLast line ds

/-- A line, without the blanks at its end, after the lines so far. -/
def State.step (cwd : Path) (s : State) (line : List Char) : State :=
  if line.isEmpty then { s with continues := false }
  else match readDiagnostic? cwd line with
    | some d => ⟨{ s.report with diagnostics := s.report.diagnostics ++ [d] }, true⟩
    | none =>
      if s.continues && line.head? == some ' ' then
        { s with report.diagnostics := extendLast line s.report.diagnostics }
      else
        let path : Path := ⟨String.ofList (trim line)⟩
        if path.isAbsolute then
          ⟨{ s.report with listed := s.report.listed ++ [path.absolutize cwd] }, false⟩
        else { s with continues := false }

/-- **Reads the output of a compiler** that ran in a directory. -/
def read (cwd : Path) (output : String) : Report :=
  (((split '\n' output.toList).map trimEnd).foldl (State.step cwd) ⟨empty, false⟩).report

end Report

end AmbientBundle

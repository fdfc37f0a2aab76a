import AmbientBundle.Json.Shape
import AmbientBundle.Project.Cleaning

/-!
# Configuration files

What a configuration file says, as it is written: nothing is resolved yet.
-/

namespace AmbientBundle.Project

open Json

/-- The compiler options that matter. -/
structure CompilerOptions where
  target : Option String
  outDir : Option String
  rootDir : Option String
  moduleResolution : Option String
  jsx : Option String
deriving Repr, DecidableEq, Inhabited

/-- **What a configuration file says.** -/
structure ConfigFile where
  /-- The files it starts from. -/
  parents : List String
  files : Option (List String)
  includes : Option (List String)
  excludes : Option (List String)
  options : CompilerOptions
deriving Repr, DecidableEq, Inhabited

/-- No options. -/
def CompilerOptions.empty : CompilerOptions := ⟨none, none, none, none, none⟩

/-- A file that says nothing. -/
def ConfigFile.empty : ConfigFile := ⟨[], none, none, none, .empty⟩

/-- The shape of the compiler options. -/
def optionsShape : RecordShape CompilerOptions where
  name := "CompilerOptions"
  fields := ["target", "outDir", "rootDir", "moduleResolution", "jsx"]
  required := 5
  read key options := do
    let value ← optional text
    return match key with
      | "target" => { options with target := value }
      | "outDir" => { options with outDir := value }
      | "rootDir" => { options with rootDir := value }
      | "moduleResolution" => { options with moduleResolution := value }
      | _ => { options with jsx := value }

/-- How deep values may nest below the one that is read. -/
def nestingLimit : Nat := 127

/-- The shape of a configuration file. -/
def fileShape : RecordShape ConfigFile where
  name := "TsConfig"
  fields := ["extends", "files", "include", "exclude", "compilerOptions"]
  required := 4
  read key file := do
    match key with
    | "extends" =>
      return { file with parents := (← optional (textOrTexts "Extends" nestingLimit)).getD [] }
    | "files" => return { file with files := ← optional (listOf text) }
    | "include" => return { file with includes := ← optional (listOf text) }
    | "exclude" => return { file with excludes := ← optional (listOf text) }
    | _ => return { file with options := ← record optionsShape .empty }

/-- **Reads a configuration file.** A fault comes with its place in the cleaned text, whose lines
are those of the file. -/
def ConfigFile.parse (source : String) : Except (Json.Cause × Json.Place) ConfigFile :=
  let clean := cleaned source
  (document (record fileShape .empty) clean).mapError fun fault =>
    (fault.cause, .ofOffset clean.toList (fault.offset.getD 0))

end AmbientBundle.Project

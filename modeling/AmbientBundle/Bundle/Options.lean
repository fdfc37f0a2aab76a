import AmbientBundle.Bundle.Entry
import AmbientBundle.Resolver

/-!
# Options of a bundle

What a caller asks for.
-/

namespace AmbientBundle

/-- **What a caller asks for.** -/
structure Options where
  /-- The root of the sources, to which identifiers are relative. -/
  baseDir : Option Path
  /-- The configuration file of a project, or its directory. -/
  project : Option Path
  /-- Input files, seen from the base directory. -/
  files : List Path
  /-- Patterns of files to leave out. -/
  exclude : List String
  /-- Paths to refer to. -/
  externs : List String
  /-- Type packages to refer to. -/
  types : List String
  eol : Option String
  indent : Option String
  /-- The identifier of the module that the name stands for. -/
  main : Option String
  /-- The name of the package, which comes before every identifier. -/
  name : Option String
  /-- Where the bundle is written. -/
  out : Path
  moduleResolution : Option ModuleResolution
  target : Option Target
  /-- What comes before identifiers that no hook has chosen. -/
  idPrefix : Option String
  /-- Whether the settings in force are reported. -/
  verbose : Bool
  idHook : Option (IdRequest → Option String)
  importHook : Option (ImportRequest → Option String)

namespace Options

/-- The line end in force. -/
def effectiveEol (o : Options) : String := o.eol.getD "\n"

/-- The indentation in force. -/
def effectiveIndent (o : Options) : String := o.indent.getD "\t"

/-- The layout of the bundle. -/
def layout (o : Options) : Layout := ⟨o.effectiveEol, o.effectiveIndent⟩

end Options

end AmbientBundle

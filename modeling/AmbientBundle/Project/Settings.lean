import AmbientBundle.Path.Normal
import AmbientBundle.Project.File

/-!
# Settings of a project

The settings that a configuration file and those it starts from give together. Each setting comes
from the last file that has it.

* `Settings.ofFile`: the settings of one file, with its paths made absolute.
* `Settings.override`: settings over others.
-/

namespace AmbientBundle.Project

/-- Patterns and the directory that they are seen from. -/
structure PatternList where
  dir : Path
  patterns : List String
deriving Repr, DecidableEq, Inhabited

/-- The settings of a project. -/
structure Settings where
  files : Option (List Path)
  includes : Option PatternList
  excludes : Option PatternList
  target : Option String
  outDir : Option Path
  rootDir : Option Path
  moduleResolution : Option String
  jsx : Option String
deriving Repr, DecidableEq, Inhabited

namespace Settings

/-- No settings. -/
def empty : Settings := ⟨none, none, none, none, none, none, none, none⟩

/-- **Settings over others**: each one that is set wins. -/
def override (lower upper : Settings) : Settings where
  files := upper.files.or lower.files
  includes := upper.includes.or lower.includes
  excludes := upper.excludes.or lower.excludes
  target := upper.target.or lower.target
  outDir := upper.outDir.or lower.outDir
  rootDir := upper.rootDir.or lower.rootDir
  moduleResolution := upper.moduleResolution.or lower.moduleResolution
  jsx := upper.jsx.or lower.jsx

/-- **The settings of a file** in a directory. -/
def ofFile (dir : Path) (file : ConfigFile) : Settings where
  files := file.files.map fun files => files.map fun f => Path.absolutize ⟨f⟩ dir
  includes := file.includes.map fun patterns => ⟨dir, patterns⟩
  excludes := file.excludes.map fun patterns => ⟨dir, patterns⟩
  target := file.options.target
  outDir := file.options.outDir.map fun d => Path.absolutize ⟨d⟩ dir
  rootDir := file.options.rootDir.map fun d => Path.absolutize ⟨d⟩ dir
  moduleResolution := file.options.moduleResolution
  jsx := file.options.jsx

end Settings

end AmbientBundle.Project

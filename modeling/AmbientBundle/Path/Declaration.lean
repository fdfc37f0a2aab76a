import AmbientBundle.Path.Basic

/-!
# Names of declaration files

A declaration file is told by its suffix, and the declaration of a source file is named after it.
-/

namespace AmbientBundle.Path

/-- The suffixes of declaration files. -/
def declarationSuffixes : List String := [".d.ts", ".d.mts", ".d.cts"]

/-- Whether a path names a declaration file. -/
def isDeclaration (p : Path) : Bool :=
  declarationSuffixes.any fun suffix =>
    Text.endsWith suffix.toList (p.fileName?.getD "").toList

/-- The name of the declaration file of a source file. -/
def declarationName (p : Path) : Path :=
  match p.extension? with
  | some "mts" | some "mjs" => p.withExtension "d.mts"
  | some "cts" | some "cjs" => p.withExtension "d.cts"
  | _ => p.withExtension "d.ts"

end AmbientBundle.Path

import AmbientBundle.Compiler.Diagnostic

/-!
# What a compilation gives

One unit per file of the program: its declarations, where they come from, and what the compiler has
to say about the file.
-/

namespace AmbientBundle

/-- Where the declarations of a unit come from. -/
inductive UnitKind where
  /-- The file is a declaration file itself. -/
  | declaration
  /-- The compiler wrote them. -/
  | emitted
  /-- There are none. -/
  | notEmitted
deriving Repr, DecidableEq, Inhabited

/-- A file of the program. -/
structure CompilationUnit where
  sourcePath : Path
  declarationPath : Path
  kind : UnitKind
  /-- The declarations; empty if there are none. -/
  text : String
  diagnostics : List Diagnostic
deriving Repr, DecidableEq, Inhabited

namespace CompilationUnit

/-- The unit of a declaration file. -/
def declaration (path : Path) (text : String) (diagnostics : List Diagnostic) : CompilationUnit :=
  ⟨path, path, .declaration, text, diagnostics⟩

/-- The unit of a file for which the compiler wrote declarations. -/
def emitted (path declarationPath : Path) (text : String) (diagnostics : List Diagnostic) :
    CompilationUnit :=
  ⟨path, declarationPath, .emitted, text, diagnostics⟩

/-- The unit of a file without declarations. -/
def notEmitted (path : Path) (diagnostics : List Diagnostic) : CompilationUnit :=
  ⟨path, path, .notEmitted, "", diagnostics⟩

end CompilationUnit

/-- What a compilation gives: the units in the order of the compiler, and the diagnostics that
belong to none of them. -/
structure Compilation where
  units : List CompilationUnit
  diagnostics : List Diagnostic
deriving Repr, DecidableEq, Inhabited

end AmbientBundle

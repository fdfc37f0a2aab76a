import AmbientBundle.FileTree.Basic

/-!
# Workspaces

A workspace is a file tree seen from a working directory. Paths are followed piece by piece: each
piece but the first stands in what the pieces before it lead to, which has to be a directory.

* `Workspace.locate`: the names that a path leads to.
* `Workspace.readText`, `Workspace.create`: files.
-/

namespace AmbientBundle

/-- A file tree and the directory in which relative paths start. -/
structure Workspace where
  tree : FileTree
  /-- An absolute path. -/
  cwd : Path
deriving Repr, Inhabited

namespace Workspace

/-- One piece of a path after the names so far. -/
def follow (w : Workspace) (names : List String) (piece : String) :
    Except FileFault (List String) :=
  match w.tree.lookup? names with
  | none => .error .notFound
  | some (.file _) => .error .notDirectory
  | some (.directory entries) =>
    if Path.isIdle piece then .ok names
    else if piece == ".." then .ok names.dropLast
    else if (FileTree.child? piece entries).isSome then .ok (names ++ [piece])
    else .error .notFound

/-- **The names that a path leads to**, if there is something. -/
def locate (w : Workspace) (path : Path) : Except FileFault (List String) :=
  if path.text == "" then .error .notFound
  else (w.cwd.join path).pieces.foldlM w.follow []

/-- What stands at a path. -/
def node (w : Workspace) (path : Path) : Except FileFault FileTree := do
  let names ← w.locate path
  match w.tree.lookup? names with
  | some tree => return tree
  | none => throw .notFound

/-- Whether there is something at a path. -/
def has (w : Workspace) (path : Path) : Bool := (w.node path).toOption.isSome

/-- The file at a path. -/
def file? (w : Workspace) (path : Path) : Option File :=
  match w.node path with
  | .ok (.file file) => some file
  | _ => none

/-- Whether there is a file at a path. -/
def isFile (w : Workspace) (path : Path) : Bool := (w.file? path).isSome

/-- Whether there is a directory at a path. -/
def isDirectory (w : Workspace) (path : Path) : Bool :=
  match w.node path with
  | .ok tree => tree.isDirectory
  | .error _ => false

/-- **The text of the file at a path.** -/
def readText (w : Workspace) (path : Path) : Except FileFault String := do
  match ← w.node path with
  | .directory _ => throw .isDirectory
  | .file file =>
    match file.content with
    | .text text => return text
    | .binary _ => throw .notText

/-- The names of an absolute path in normal form. -/
def namesOf (path : Path) : List String := path.pieces.filter fun piece => !Path.isIdle piece

/-- Puts a file at an absolute path in normal form, and makes its directory if that is missing. -/
def create (w : Workspace) (path : Path) (file : File) : Except FileFault Workspace := do
  let names := namesOf path
  let tree ← if names.isEmpty then pure w.tree else w.tree.makeDirectories names.dropLast
  return { w with tree := ← tree.createFile file names }

/-- The files below a directory, as `FileTree.walk` gives them. There are none if the directory
does not exist. -/
def filesBelow (w : Workspace) (keep : Path → Bool) (dir : Path) : List Path :=
  match w.node dir with
  | .ok tree => tree.walk keep dir
  | .error _ => []

end Workspace

end AmbientBundle

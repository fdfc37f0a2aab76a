import AmbientBundle.Path.Basic

/-!
# File trees

A tree of files and directories, without links. The entries of a directory are kept in the order of
their names.

* `FileTree.lookup?`: what stands at a list of names.
* `FileTree.makeDirectories`, `FileTree.createFile`, `FileTree.erase`: changes.
* `FileTree.walk`: the files below a directory, depth first, where some entries may be passed over.
-/

namespace AmbientBundle

/-- What a file holds. -/
inductive FileContent where
  | text (text : String)
  /-- Bytes that are not text. -/
  | binary (bytes : List UInt8)
deriving Repr, DecidableEq, Inhabited

/-- What a program does when it is run: what it prints, the files it writes below its output
directory, and its exit code, which is missing if a signal kills it. -/
structure Program where
  stdout : List UInt8
  stderr : List UInt8
  emits : List (Path × FileContent)
  exit : Option Nat
deriving Repr, DecidableEq, Inhabited

/-- A file. -/
structure File where
  content : FileContent
  executable : Bool
  /-- What the file does when run, if it is a program. -/
  program : Option Program
deriving Repr, DecidableEq, Inhabited

/-- A text file. -/
def File.ofText (text : String) : File := ⟨.text text, false, none⟩

/-- Why the file system refuses. -/
inductive FileFault where
  | notFound
  | isDirectory
  | notDirectory
  | alreadyExists
  | permissionDenied
  | notProgram
  | notText
deriving Repr, DecidableEq, Inhabited

/-- The text of a refusal. -/
def FileFault.message : FileFault → String
  | .notFound => "No such file or directory (os error 2)"
  | .isDirectory => "Is a directory (os error 21)"
  | .notDirectory => "Not a directory (os error 20)"
  | .alreadyExists => "File exists (os error 17)"
  | .permissionDenied => "Permission denied (os error 13)"
  | .notProgram => "Exec format error (os error 8)"
  | .notText => "stream did not contain valid UTF-8"

/-- A file, or a directory with its entries. -/
inductive FileTree where
  | file (file : File)
  | directory (entries : List (String × FileTree))
deriving Repr, Inhabited

namespace FileTree

/-- An empty directory. -/
def empty : FileTree := .directory []

/-- The entry of a name. -/
def child? (name : String) (entries : List (String × FileTree)) : Option FileTree :=
  (entries.find? fun e => e.1 == name).map Prod.snd

/-- Entries with one put in its place, over one of the same name. -/
def putEntry (name : String) (tree : FileTree) :
    List (String × FileTree) → List (String × FileTree)
  | [] => [(name, tree)]
  | e :: rest =>
    if e.1 == name then (name, tree) :: rest
    else if name < e.1 then (name, tree) :: e :: rest
    else e :: putEntry name tree rest

/-- **What stands at a list of names.** -/
def lookup? : List String → FileTree → Option FileTree
  | [], tree => some tree
  | _ :: _, .file _ => none
  | name :: names, .directory entries => (child? name entries).bind (lookup? names)

/-- Whether a tree is a directory. -/
def isDirectory : FileTree → Bool
  | .directory _ => true
  | .file _ => false

/-- **Makes a directory** and those above it, as far as they are missing. -/
def makeDirectories : List String → FileTree → Except FileFault FileTree
  | [], .directory entries => .ok (.directory entries)
  | [], .file _ => .error .alreadyExists
  | _ :: _, .file _ => .error .notDirectory
  | name :: names, .directory entries => do
    let child ← makeDirectories names ((child? name entries).getD empty)
    return .directory (putEntry name child entries)

/-- **Puts a file** at a list of names, over a file that is there. Its directory must exist. -/
def createFile (file : File) : List String → FileTree → Except FileFault FileTree
  | [], .directory _ => .error .isDirectory
  | [], .file _ => .ok (.file file)
  | _ :: _, .file _ => .error .notDirectory
  | [name], .directory entries =>
    match child? name entries with
    | some (.directory _) => .error .isDirectory
    | _ => .ok (.directory (putEntry name (.file file) entries))
  | name :: names, .directory entries =>
    match child? name entries with
    | none => .error .notFound
    | some child => do
      let child ← createFile file names child
      return .directory (putEntry name child entries)

/-- A tree without what stands at a list of names. -/
def erase : List String → FileTree → FileTree
  | [], tree => tree
  | _ :: _, .file f => .file f
  | [name], .directory entries => .directory (entries.filter fun e => e.1 != name)
  | name :: names, .directory entries =>
    match child? name entries with
    | none => .directory entries
    | some child => .directory (putEntry name (erase names child) entries)

mutual

/-- **The files at and below a path**, depth first and in the order of names. Entries that are not
kept are passed over with all that is below them. -/
def walk (keep : Path → Bool) (path : Path) : FileTree → List Path
  | .file _ => [path]
  | .directory entries => walkEntries keep path entries
termination_by structural tree => tree

/-- The files at and below the entries of a directory. -/
def walkEntries (keep : Path → Bool) (path : Path) : List (String × FileTree) → List Path
  | [] => []
  | e :: rest => walkEntry keep path e ++ walkEntries keep path rest
termination_by structural entries => entries

/-- The files at and below an entry of a directory. -/
def walkEntry (keep : Path → Bool) (path : Path) : String × FileTree → List Path
  | (name, tree) => if keep (path.join ⟨name⟩) then walk keep (path.join ⟨name⟩) tree else []
termination_by structural entry => entry

end

end FileTree

end AmbientBundle

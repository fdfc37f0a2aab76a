import AmbientBundle.CommandLine.Program

/-!
# The command line

Arguments come from the command line, and the workspace is what lies at and below the current
directory. No program is started from here: where `DTS_BUNDLE_OUT` names a directory, the compiler
is taken to have run already, with its declarations below that directory and its report on standard
input.
-/

namespace AmbientBundle.CommandLine

/-- The content of a file with these bytes. -/
def contentOfBytes (bytes : ByteArray) : FileContent :=
  match String.fromUTF8? bytes with
  | some text => .text text
  | none => .binary bytes.toList

/-- What lies at and below a directory, with every file made by the same hand. -/
partial def readDirectory (make : FileContent → File) (dir : String) : IO FileTree := do
  let mut entries : List (String × FileTree) := []
  for entry in ← IO.FS.DirEntry.path ⟨dir, "."⟩ |>.readDir do
    if ← entry.path.isDir then
      entries := FileTree.putEntry entry.fileName (← readDirectory make entry.path.toString) entries
    else
      let content := contentOfBytes (← IO.FS.readBinFile entry.path)
      entries := FileTree.putEntry entry.fileName (.file (make content)) entries
  return .directory entries

/-- A tree at a list of names. -/
def treeAt (tree : FileTree) : List String → FileTree
  | [] => tree
  | name :: names => .directory [(name, treeAt tree names)]

/-- The files of a tree, seen from its root. -/
def filesOf (tree : FileTree) : List (Path × FileContent) :=
  let w : Workspace := ⟨tree, ⟨"/"⟩⟩
  (w.filesBelow (fun _ => true) ⟨"/"⟩).filterMap fun path =>
    (w.file? path).map fun file => (path, file.content)

/-- The run of the compiler that has taken place, if there was one. -/
def pastRun : IO (Option Program) := do
  match ← IO.getEnv "DTS_BUNDLE_OUT" with
  | none => return none
  | some dir =>
    let report ← (← IO.getStdin).readToEnd
    let written ← readDirectory (fun content => ⟨content, false, none⟩) dir
    return some ⟨report.toUTF8.toList, [], filesOf written, some 0⟩

/-- What the environment says. -/
def readEnvironment : IO Environment := do
  return {
    compiler := ← IO.getEnv "DTS_BUNDLE_TSC"
    searchPath :=
      (Text.split ':' ((← IO.getEnv "PATH").getD "").toList).map fun dir => ⟨String.ofList dir⟩
    home := ⟨(← IO.getEnv "HOME").getD ""⟩ }

/-- Writes the bundle that a run has left in its workspace. -/
def writeBundle (w : Workspace) (arguments : List String) : IO Unit := do
  if let .ok read := parseArguments arguments then
    let out := read.options.out.absolutize w.cwd
    if let .ok text := w.readText out then
      if let some dir := out.parent? then IO.FS.createDirAll dir.text
      IO.FS.writeFile out.text text

/-- Runs the program, and gives its exit code. -/
def runHere (arguments : List String) : IO UInt32 := do
  let cwd : Path := ⟨(← IO.currentDir).toString⟩
  let program ← pastRun
  let tree ← readDirectory (fun content => ⟨content, program.isSome, program⟩) cwd.text
  let w : Workspace := ⟨treeAt tree (Workspace.namesOf cwd), cwd⟩
  let outcome := runProgram (← readEnvironment) ⟨"/tmp/declarations"⟩ w arguments
  IO.print outcome.stdout
  IO.eprint outcome.stderr
  writeBundle outcome.workspace arguments
  return outcome.exit.toUInt32

end AmbientBundle.CommandLine

/-- The program. -/
def main (arguments : List String) : IO UInt32 := AmbientBundle.CommandLine.runHere arguments

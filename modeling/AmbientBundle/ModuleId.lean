import AmbientBundle.Path.Basic

/-!
# Module identifiers

A module is known by an identifier: a list of segments with slashes between them, without a leading
slash and without the suffix of its file.

* `ModuleId.ofPath`: the identifier of a file below a root.
* `ModuleId.resolve`: the identifier that a relative specifier means in a module.
-/

namespace AmbientBundle.ModuleId

open Text

/-- Suffixes that are not part of an identifier, the longer ones first. -/
def moduleSuffixes : List String := [".d.mts", ".d.cts", ".d.ts", ".tsx", ".mts", ".cts", ".ts"]

/-- Script extensions that a specifier may carry. -/
def scriptExtensions : List String := [".js", ".jsx", ".mjs", ".cjs"]

/-- A text without the first of the suffixes that it ends with. -/
def stripFirst (suffixes : List String) (text : String) : String :=
  match suffixes.findSome? fun suffix => cutBack? suffix.toList text.toList with
  | some rest => String.ofList rest
  | none => text

/-- A file name without the suffix of a declaration or a source file. -/
def stripSuffix (filename : String) : String := stripFirst moduleSuffixes filename

/-- **The identifier of a file** below a root, after a name if that is given and not empty. A file
that is not below the root keeps its whole path. -/
def ofPath (path root : Path) (name : Option String) : String :=
  let relative := ((path.relativeTo? root).getD path).text
  let id := String.ofList (dropLeading '/' (stripSuffix relative).toList)
  match name with
  | none | some "" => id
  | some name => String.ofList (dropTrailing '/' name.toList) ++ "/" ++ id

/-- The segments of the directory of a module. -/
def directory (current : String) : List String :=
  match splitLast? '/' current.toList with
  | some (dir, _) => ((split '/' dir).filter (!·.isEmpty)).map String.ofList
  | none => []

/-- One segment of a specifier after the segments so far, which are kept with the last one
first. -/
def step (done : List String) (segment : String) : List String :=
  if segment == "" || segment == "." then done
  else if segment == ".." then
    match done with
    | last :: rest => if last == ".." then ".." :: done else rest
    | [] => [".."]
  else segment :: done

/-- The segments that a specifier leads to from a directory. -/
def follow (directory : List String) (specifier : String) : List String :=
  (((split '/' specifier.toList).map String.ofList).foldl step directory.reverse).reverse

/-- **The identifier that a relative specifier means** in a module. Steps that lead above the first
segment are kept. A script extension and then a module suffix are dropped. -/
def resolve (current specifier : String) : String :=
  match follow (directory current) specifier with
  | [] => "."
  | segments => stripSuffix (stripFirst scriptExtensions ("/".intercalate segments))

end AmbientBundle.ModuleId

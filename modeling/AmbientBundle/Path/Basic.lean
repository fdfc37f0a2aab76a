import AmbientBundle.Text.Cut

/-!
# Paths

A path is a text whose pieces stand between slashes. What it leads to is told by its components:
empty pieces, and single dots other than a leading one, do not count. The text itself is kept as it
was written.

* `Path.components`: the steps of a path.
* `Path.join`, `Path.parent?`, `Path.ancestors`: paths built from paths.
* `Path.relativeTo?`: the rest of a path below another.
* `Path.fileName?`, `Path.withExtension`: the last component.
-/

namespace AmbientBundle

/-- A path as written. -/
structure Path where
  text : String
deriving Repr, DecidableEq, Inhabited, Hashable

/-- A step of a path. -/
inductive Component where
  | root
  /-- A leading dot. -/
  | here
  | up
  | name (name : String)
deriving Repr, DecidableEq, Inhabited

namespace Component

/-- The step that a piece makes. -/
def ofPiece (piece : String) : Component := if piece == ".." then .up else .name piece

/-- The text of a component. -/
def text : Component → String
  | .root => "/"
  | .here => "."
  | .up => ".."
  | .name piece => piece

end Component

namespace Path

/-- The pieces of the text between slashes, empty ones included. -/
def pieces (p : Path) : List String := (Text.split '/' p.text.toList).map String.ofList

/-- The path with these pieces. -/
def ofPieces (pieces : List String) : Path := ⟨"/".intercalate pieces⟩

/-- A path that starts at the root. -/
def isAbsolute (p : Path) : Bool := p.text.toList.head? == some '/'

/-- A piece that is no step. -/
def isIdle (piece : String) : Bool := piece == "" || piece == "."

/-- The steps of pieces after the first one. -/
def steps (pieces : List String) : List Component :=
  (pieces.filter fun piece => !isIdle piece).map Component.ofPiece

/-- **The steps of a path.** -/
def components (p : Path) : List Component :=
  match p.pieces with
  | "" :: rest => if p.isAbsolute then .root :: steps rest else steps rest
  | "." :: rest => .here :: steps rest
  | all => steps all

/-- **A path continued by another.** An absolute one replaces it. -/
def join (p q : Path) : Path :=
  if q.isAbsolute then q
  else if p.text == "" || p.text.toList.getLast? == some '/' then ⟨p.text ++ q.text⟩
  else ⟨p.text ++ "/" ++ q.text⟩

/-- The path with these steps. -/
def ofComponents (cs : List Component) : Path :=
  cs.foldl (fun p c => p.join ⟨c.text⟩) ⟨""⟩

/-- Pieces without the idle ones at the end. -/
def trimBack (pieces : List String) : List String := (pieces.reverse.dropWhile isIdle).reverse

/-- Pieces without the idle ones at both ends. -/
def trimPieces (pieces : List String) : List String := trimBack (pieces.dropWhile isIdle)

/-- The path without the idle pieces at its end; a leading slash or dot stays. -/
def trimEnd (p : Path) : Path :=
  match p.pieces with
  | "" :: rest => if p.isAbsolute then ofRooted (trimBack rest) else ⟨""⟩
  | "." :: rest => ofPieces ("." :: trimBack rest)
  | all => ofPieces (trimBack all)
where
  /-- The absolute path with these pieces after the root. -/
  ofRooted (pieces : List String) : Path := ⟨"/" ++ "/".intercalate pieces⟩

/-- The pieces after the first `n` steps. -/
def dropSteps : Nat → List String → List String
  | 0, pieces => pieces
  | n + 1, pieces => dropSteps n ((pieces.dropWhile isIdle).drop 1)

/-- The pieces that are left of a path after its first `n` components, for `n` at least one. -/
def piecesAfter (p : Path) (n : Nat) : List String :=
  match p.components with
  | .root :: _ | .here :: _ => dropSteps (n - 1) (p.pieces.drop 1)
  | _ => dropSteps n p.pieces

/-- Whether a path lies at or below another, by components. -/
def startsWith (p base : Path) : Bool := base.components.isPrefixOf p.components

/-- **The rest of a path below another**, as it is written: pieces in its middle stay as they
are. -/
def relativeTo? (p base : Path) : Option Path :=
  if p.startsWith base then
    match base.components.length with
    | 0 => some p.trimEnd
    | n => some (ofPieces (trimPieces (p.piecesAfter n)))
  else none

/-- The last component, if it is a name. -/
def fileName? (p : Path) : Option String :=
  match p.components.getLast? with
  | some (.name name) => some name
  | _ => none

/-- The path without its last component; the root has no parent, and neither has the empty
path. -/
def parent? (p : Path) : Option Path :=
  match p.components.getLast? with
  | none | some .root => none
  | some .here => some ⟨""⟩
  | some _ =>
    match p.pieces with
    | "" :: rest =>
      if p.isAbsolute then some (trimEnd ⟨"/" ++ "/".intercalate (trimBack rest).dropLast⟩)
      else some ⟨""⟩
    | "." :: rest => some (trimEnd (ofPieces ("." :: (trimBack rest).dropLast)))
    | all => some (trimEnd (ofPieces (trimBack all).dropLast))

/-- The first `n` paths of the chain from a path up through its parents. -/
def chain : Nat → Path → List Path
  | 0, p => [p]
  | n + 1, p =>
    match p.parent? with
    | none => [p]
    | some up => p :: chain n up

/-- **A path and the paths above it**, up to the one without a parent. -/
def ancestors (p : Path) : List Path := chain p.components.length p

/-- The name of a file up to its last dot, and the extension after it. A leading dot starts no
extension. -/
def splitName (name : String) : String × Option String :=
  match Text.splitLast? '.' name.toList with
  | some (stem, ext) =>
    if stem.isEmpty then (name, none) else (String.ofList stem, some (String.ofList ext))
  | none => (name, none)

/-- The extension of the last component. -/
def extension? (p : Path) : Option String := p.fileName?.bind fun name => (splitName name).2

/-- The path with another extension. A path that does not end in a name stays as it is. -/
def withExtension (p : Path) (ext : String) : Path :=
  match p.fileName? with
  | none => p
  | some name =>
    ofPieces ((trimBack p.pieces).dropLast ++ [(splitName name).1 ++ "." ++ ext])

end Path

end AmbientBundle

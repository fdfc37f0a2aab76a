import AmbientBundle.Glob.Basic
import AmbientBundle.Path.Basic

/-!
# Matching paths

Patterns are matched against the UTF-8 bytes of a path, and have to match the whole path. Each
token is given what has to hold of the bytes after it.

* `Glob.Token.accepts`: a token followed by a condition on the rest.
* `Glob.isMatch`: whether a path matches a pattern.
-/

namespace AmbientBundle.Glob

/-- The bytes of a text. -/
def bytes (cs : List Char) : List UInt8 := cs.flatMap String.utf8EncodeChar

/-- The slash. -/
def slash : UInt8 := 47

/-- Whether a condition holds after some number of bytes that are not slashes. -/
def starAccepts (k : List UInt8 → Bool) : List UInt8 → Bool
  | [] => k []
  | b :: bs => k (b :: bs) || (b != slash && starAccepts k bs)

/-- Whether a condition holds right after some slash. -/
def afterSlash (k : List UInt8 → Bool) : List UInt8 → Bool
  | [] => false
  | b :: bs => (b == slash && k bs) || afterSlash k bs

/-- Whether a condition holds after some number of bytes. -/
def anyRest (k : List UInt8 → Bool) : List UInt8 → Bool
  | [] => k []
  | b :: bs => k (b :: bs) || anyRest k bs

/-- Whether a condition holds after given bytes. -/
def afterBytes (k : List UInt8 → Bool) : List UInt8 → List UInt8 → Bool
  | [], bs => k bs
  | _ :: _, [] => false
  | p :: ps, b :: bs => p == b && afterBytes k ps bs

/-- Whether a byte is one of those of a range. Between two characters of several bytes, the range
goes from the last byte of the one to the first byte of the other, and their other bytes count one
by one. -/
def inRange (b : UInt8) (range : Char × Char) : Bool :=
  let first := String.utf8EncodeChar range.1
  let last := String.utf8EncodeChar range.2
  if range.1 = range.2 then first.contains b
  else
    first.dropLast.contains b || last.tail.contains b ||
      (first.getLast?.any (· ≤ b) && last.head?.any (b ≤ ·))

mutual

/-- Whether a token is a group that says nothing: one whose branches are all empty. -/
def Token.isVoid : Token → Bool
  | .alternates branches => allVoid branches
  | _ => false

/-- Whether a branch is empty, apart from groups that are. -/
def branchVoid : List Token → Bool
  | [] => true
  | token :: tokens => Token.isVoid token && branchVoid tokens

/-- Whether all branches are empty. -/
def allVoid : List (List Token) → Bool
  | [] => true
  | branch :: branches => branchVoid branch && allVoid branches

end

mutual

/-- **Whether a token matches at the front of some bytes** and a condition holds of the rest. Empty
branches of a group do not count, and a group without others takes up nothing. -/
def Token.accepts : Token → (List UInt8 → Bool) → List UInt8 → Bool
  | .literal c, k, bs => afterBytes k (String.utf8EncodeChar c) bs
  | .any, k, bs =>
    match bs with
    | [] => false
    | b :: bs => b != slash && k bs
  | .star, k, bs => starAccepts k bs
  | .leadingDirs, k, bs => k bs || afterSlash k bs
  | .middleDirs, k, bs =>
    match bs with
    | [] => false
    | b :: bs => b == slash && (k bs || afterSlash k bs)
  | .allBelow, k, bs =>
    match bs with
    | [] => false
    | b :: bs => b == slash && anyRest k bs
  | .oneOf negated ranges, k, bs =>
    match bs with
    | [] => false
    | b :: bs => (ranges.any (inRange b) != negated) && k bs
  | .alternates branches, k, bs =>
    if allVoid branches then k bs else anyAccepts branches k bs

/-- Whether tokens match one after the other. -/
def allAccept : List Token → (List UInt8 → Bool) → List UInt8 → Bool
  | [], k, bs => k bs
  | token :: tokens, k, bs => Token.accepts token (allAccept tokens k) bs

/-- Whether one of the branches that are not empty matches. -/
def anyAccepts : List (List Token) → (List UInt8 → Bool) → List UInt8 → Bool
  | [], _, _ => false
  | branch :: branches, k, bs =>
    (!branchVoid branch && allAccept branch k bs) || anyAccepts branches k bs

end

/-- Whether a pattern stands for any path: it is a double star alone. -/
def matchesAll (g : Glob) : Bool :=
  match g.tokens with
  | [.leadingDirs] => true
  | _ => false

/-- **Whether a path matches a pattern.** -/
def isMatch (g : Glob) (path : Path) : Bool :=
  g.matchesAll || allAccept g.tokens List.isEmpty (bytes path.text.toList)

/-- Whether a path matches one of several patterns. -/
def anyMatch (globs : List Glob) (path : Path) : Bool := globs.any fun glob => glob.isMatch path

end AmbientBundle.Glob

/-!
# Cutting texts

Texts are cut at a separator, at a prefix or at a suffix. All cuts are on lists of characters.

* `split`: at every occurrence of a character.
* `cutFront?`, `cutBack?`: a given front or back of a text taken off.
* `splitFirst?`, `splitLast?`: at the first or last occurrence of a separator; `occurrences`: at
  each of them.
-/

namespace AmbientBundle.Text

/-- The pieces of a text between the occurrences of a character. -/
def split (sep : Char) : List Char → List (List Char)
  | [] => [[]]
  | c :: cs =>
    if c = sep then [] :: split sep cs
    else match split sep cs with
      | [] => [[c]]
      | w :: ws => (c :: w) :: ws

/-- A text without a given front. -/
def cutFront? : List Char → List Char → Option (List Char)
  | [], cs => some cs
  | _ :: _, [] => none
  | p :: ps, c :: cs => if p = c then cutFront? ps cs else none

/-- A text without a given back. -/
def cutBack? (back cs : List Char) : Option (List Char) :=
  (cutFront? back.reverse cs.reverse).map List.reverse

/-- Whether a text starts with another. -/
def startsWith (front cs : List Char) : Bool := (cutFront? front cs).isSome

/-- Whether a text ends with another. -/
def endsWith (back cs : List Char) : Bool := (cutBack? back cs).isSome

/-- What stands before and after the first occurrence of a text. -/
def splitFirst? (sep : List Char) : List Char → Option (List Char × List Char)
  | [] => if sep.isEmpty then some ([], []) else none
  | c :: cs =>
    match cutFront? sep (c :: cs) with
    | some rest => some ([], rest)
    | none => (splitFirst? sep cs).map fun (before, after) => (c :: before, after)

/-- What stands before and after the last occurrence of a character. -/
def splitLast? (sep : Char) : List Char → Option (List Char × List Char)
  | [] => none
  | c :: cs =>
    match splitLast? sep cs with
    | some (before, after) => some (c :: before, after)
    | none => if c = sep then some ([], cs) else none

/-- What stands before and after each occurrence of a text that is not empty, from left to
right. -/
def occurrences (sep : List Char) : List Char → List (List Char × List Char)
  | [] => []
  | c :: cs =>
    let later := (occurrences sep cs).map fun (before, after) => (c :: before, after)
    match cutFront? sep (c :: cs) with
    | some rest => ([], rest) :: later
    | none => later

/-- A text without the leading occurrences of a character. -/
def dropLeading (c : Char) (cs : List Char) : List Char := cs.dropWhile (· == c)

/-- A text without the trailing occurrences of a character. -/
def dropTrailing (c : Char) (cs : List Char) : List Char :=
  (cs.reverse.dropWhile (· == c)).reverse

end AmbientBundle.Text

/-!
# Byte offsets

Offsets into a text count the bytes of its UTF-8 form. An offset that falls inside a character cuts
nothing.

* `byteLength`: the length in bytes.
* `splitAtByte?`, `slice?`: cuts at offsets.
* `LineColumn.ofOffset`: the line and the column of an offset, both counted from one.
-/

namespace AmbientBundle.Text

/-- The number of bytes of a text. -/
def byteLength : List Char → Nat
  | [] => 0
  | c :: cs => c.utf8Size + byteLength cs

/-- The parts of a text before and after an offset, if the offset falls between characters. -/
def splitAtByte? : Nat → List Char → Option (List Char × List Char)
  | 0, cs => some ([], cs)
  | _ + 1, [] => none
  | n + 1, c :: cs =>
    if c.utf8Size ≤ n + 1 then
      (splitAtByte? (n + 1 - c.utf8Size) cs).map fun (before, after) => (c :: before, after)
    else none

/-- The part of a text between two offsets, if both fall between characters. -/
def slice? (start stop : Nat) (cs : List Char) : Option (List Char) := do
  if stop < start then none
  let (_, after) ← splitAtByte? start cs
  let (before, _) ← splitAtByte? (stop - start) after
  return before

/-- The part of a text from an offset on. -/
def dropBytes? (start : Nat) (cs : List Char) : Option (List Char) :=
  (splitAtByte? start cs).map Prod.snd

/-- A place in a text as people count: lines and columns, both from one. -/
structure LineColumn where
  line : UInt32
  column : UInt32
deriving Repr, DecidableEq, Inhabited

/-- The place right after a text. What does not fit into 32 bits is cut off. -/
def LineColumn.after (before : List Char) : LineColumn :=
  ⟨.ofNat (before.count '\n' + 1),
    .ofNat ((before.reverse.takeWhile (· != '\n')).length + 1)⟩

/-- **The place of an offset.** An offset past the end counts as the end, and so does one inside a
character. -/
def LineColumn.ofOffset (text : List Char) (offset : Nat) : LineColumn :=
  match splitAtByte? (min offset (byteLength text)) text with
  | some (before, _) => .after before
  | none => .after text

end AmbientBundle.Text

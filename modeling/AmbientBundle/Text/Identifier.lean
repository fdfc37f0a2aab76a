import AmbientBundle.Text.IdentifierRanges

/-!
# Characters of names

A name starts with a letter, `$` or `_` (`startsName`) and goes on with these, digits and marks
(`continuesName`).
-/

namespace AmbientBundle.Text

/-- Whether a code point lies in one of the ranges. -/
def inRanges (n : Nat) (ranges : List (Nat × Nat)) : Bool :=
  ranges.any fun r => r.1 ≤ n && n ≤ r.2

/-- A character that may start a name. -/
def startsName (c : Char) : Bool :=
  c.isAlpha || c == '$' || c == '_' || (128 ≤ c.toNat && inRanges c.toNat letterRanges)

/-- A character that may stand in a name after the first one. -/
def continuesName (c : Char) : Bool :=
  startsName c || c.isDigit || (128 ≤ c.toNat && inRanges c.toNat markRanges)

end AmbientBundle.Text

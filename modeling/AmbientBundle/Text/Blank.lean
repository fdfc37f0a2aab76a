/-!
# Blank characters

`isBlank` is the Unicode property White_Space. Three cuts of a text rest on it: `trimStart`,
`trimEnd` and `trim`.
-/

namespace AmbientBundle.Text

/-- **White space**: the characters with the Unicode property White_Space. -/
def isBlank (c : Char) : Bool :=
  let n := c.toNat
  (9 ≤ n && n ≤ 13) || n == 0x20 || n == 0x85 || n == 0xa0 || n == 0x1680 ||
    (0x2000 ≤ n && n ≤ 0x200a) || n == 0x2028 || n == 0x2029 || n == 0x202f || n == 0x205f ||
    n == 0x3000

/-- A text without the blanks at its front. -/
def trimStart (cs : List Char) : List Char := cs.dropWhile isBlank

/-- A text without the blanks at its end. -/
def trimEnd (cs : List Char) : List Char := (cs.reverse.dropWhile isBlank).reverse

/-- A text without the blanks at both ends. -/
def trim (cs : List Char) : List Char := trimEnd (trimStart cs)

end AmbientBundle.Text

/-!
# Quoted texts

A text in double quotes, with escapes for what would not be seen or would end it.
-/

namespace AmbientBundle.Text

/-- Ranges of characters that do not show: controls, formats, blanks other than the space, marks
that join the character before them, and what is private or not assigned. -/
def hiddenRanges : List (Nat × Nat) :=
  [(0x00, 0x1f), (0x7f, 0xa0), (0xad, 0xad), (0x300, 0x36f), (0x483, 0x489), (0x591, 0x5bd),
    (0x600, 0x605), (0x610, 0x61a), (0x61c, 0x61c), (0x64b, 0x65f), (0x6dd, 0x6dd), (0x70f, 0x70f),
    (0x1680, 0x1680), (0x180e, 0x180e), (0x1ab0, 0x1aff), (0x1dc0, 0x1dff), (0x2000, 0x200f),
    (0x2028, 0x202f), (0x205f, 0x206f), (0x20d0, 0x20f0), (0x3000, 0x3000), (0xd800, 0xf8ff),
    (0xfe00, 0xfe0f), (0xfe20, 0xfe2f), (0xfeff, 0xfeff), (0xfff0, 0xfffb), (0xfffe, 0xffff),
    (0xe0000, 0x10ffff)]

/-- Whether a character does not show. -/
def isHidden (c : Char) : Bool :=
  hiddenRanges.any fun (first, last) => first ≤ c.toNat && c.toNat ≤ last

/-- A character inside of quotes. -/
def quoteChar (c : Char) : List Char :=
  match c with
  | '"' => ['\\', '"']
  | '\\' => ['\\', '\\']
  | '\n' => ['\\', 'n']
  | '\r' => ['\\', 'r']
  | '\t' => ['\\', 't']
  | '\x00' => ['\\', '0']
  | c =>
    if isHidden c then ['\\', 'u', '\x7b'] ++ Nat.toDigits 16 c.toNat ++ ['\x7d'] else [c]

/-- **A text in quotes.** -/
def quoted (s : String) : String :=
  String.ofList (['"'] ++ s.toList.flatMap quoteChar ++ ['"'])

end AmbientBundle.Text

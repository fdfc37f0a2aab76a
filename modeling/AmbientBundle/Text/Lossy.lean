/-!
# Decoding bytes that may not be text

Bytes are read as UTF-8. Where they are not, each longest piece that could have started a character
is replaced by U+FFFD, and reading goes on after it.
-/

namespace AmbientBundle.Text

/-- The character that stands for bytes that are none. -/
def replacement : Char := '�'

/-- Whether a byte continues a character. -/
def isTail (b : UInt8) : Bool := 0x80 ≤ b && b ≤ 0xbf

/-- Whether a byte may come second in a character with this first byte. Characters are not written
longer than needed, are no surrogates, and do not go past U+10FFFF. -/
def isSecond (first b : UInt8) : Bool :=
  if first == 0xe0 then 0xa0 ≤ b && b ≤ 0xbf
  else if first == 0xed then 0x80 ≤ b && b ≤ 0x9f
  else if first == 0xf0 then 0x90 ≤ b && b ≤ 0xbf
  else if first == 0xf4 then 0x80 ≤ b && b ≤ 0x8f
  else isTail b

/-- The number of bytes of a character with this first byte, or zero if none starts so. -/
def widthOf (first : UInt8) : Nat :=
  if first < 0x80 then 1
  else if 0xc2 ≤ first && first ≤ 0xdf then 2
  else if 0xe0 ≤ first && first ≤ 0xef then 3
  else if 0xf0 ≤ first && first ≤ 0xf4 then 4
  else 0

/-- The value of the bits that a byte other than the first adds. -/
def addTail (n : Nat) (b : UInt8) : Nat := n * 64 + (b.toNat - 0x80)

/-- The first character of some bytes and what follows it. -/
def nextLossy (first : UInt8) (rest : List UInt8) : Char × List UInt8 :=
  match widthOf first, rest with
  | 1, rest => (Char.ofNat first.toNat, rest)
  | 2, b :: rest =>
    if isSecond first b then (Char.ofNat (addTail (first.toNat - 0xc0) b), rest)
    else (replacement, b :: rest)
  | 3, b :: rest =>
    if !isSecond first b then (replacement, b :: rest)
    else match rest with
      | c :: rest =>
        if isTail c then (Char.ofNat (addTail (addTail (first.toNat - 0xe0) b) c), rest)
        else (replacement, c :: rest)
      | [] => (replacement, [])
  | 4, b :: rest =>
    if !isSecond first b then (replacement, b :: rest)
    else match rest with
      | c :: rest =>
        if !isTail c then (replacement, c :: rest)
        else match rest with
          | d :: rest =>
            if isTail d then
              (Char.ofNat (addTail (addTail (addTail (first.toNat - 0xf0) b) c) d), rest)
            else (replacement, d :: rest)
          | [] => (replacement, [])
      | [] => (replacement, [])
  | _, rest => (replacement, rest)

/-- Decodes bytes; the fuel bounds the number of characters. -/
def decodeLossyFrom : Nat → List UInt8 → List Char
  | 0, _ => []
  | _ + 1, [] => []
  | n + 1, b :: bs =>
    let (c, rest) := nextLossy b bs
    c :: decodeLossyFrom n rest

/-- **Decodes bytes**, whatever they are. -/
def decodeLossy (bytes : List UInt8) : String :=
  String.ofList (decodeLossyFrom bytes.length bytes)

end AmbientBundle.Text

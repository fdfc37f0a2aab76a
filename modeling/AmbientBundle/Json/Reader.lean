import AmbientBundle.Text.Offset
import AmbientBundle.Text.Quoted

/-!
# Reading JSON

JSON is read in one pass from left to right, and the first fault ends the reading. A fault knows
the number of bytes after which it was found; one that is found only when a value is complete gets
its place from whoever read the value.

* `Reading`: the reader.
* `readText`, `readWord`, `readNumber`: scalars.
* `skipValue`: a value of any kind, read only for its form.
-/

namespace AmbientBundle.Json

open Text

/-- What was found in the place of something else. -/
inductive Found where
  | null
  | bool (value : Bool)
  | integer (value : Int)
  /-- A number with a fraction or an exponent, or one too large for an integer. -/
  | float (text : String)
  | text (text : String)
  | list
  | object
deriving Repr, DecidableEq, Inhabited

/-- The description of what was found. -/
def Found.describe : Found → String
  | .null => "null"
  | .bool true => "boolean \x60true\x60"
  | .bool false => "boolean \x60false\x60"
  | .integer value => "integer \x60" ++ toString value ++ "\x60"
  | .float digits => "floating point \x60" ++ digits ++ "\x60"
  | .text value => "string " ++ quoted value
  | .list => "sequence"
  | .object => "map"

/-- Why a text cannot be read. -/
inductive Cause where
  | endOfList
  | endOfObject
  | endOfText
  | endOfValue
  | expectedColon
  | expectedListEnd
  | expectedObjectEnd
  | expectedWord
  | expectedValue
  | invalidEscape
  | invalidNumber
  | numberOutOfRange
  | controlCharacter
  | keyNotText
  | loneSurrogate
  | trailingComma
  | trailingCharacters
  | endOfHexEscape
  | tooDeep
  | invalidType (found : Found) (expected : String)
  | invalidLength (length : Nat) (expected : String)
  | duplicateField (name : String)
  | noVariant (name : String)
deriving Repr, DecidableEq, Inhabited

/-- The text of a cause. -/
def Cause.message : Cause → String
  | .endOfList => "EOF while parsing a list"
  | .endOfObject => "EOF while parsing an object"
  | .endOfText => "EOF while parsing a string"
  | .endOfValue => "EOF while parsing a value"
  | .expectedColon => "expected \x60:\x60"
  | .expectedListEnd => "expected \x60,\x60 or \x60]\x60"
  | .expectedObjectEnd => "expected \x60,\x60 or \x60\x7d\x60"
  | .expectedWord => "expected ident"
  | .expectedValue => "expected value"
  | .invalidEscape => "invalid escape"
  | .invalidNumber => "invalid number"
  | .numberOutOfRange => "number out of range"
  | .controlCharacter => "control character (\\u0000-\\u001F) found while parsing a string"
  | .keyNotText => "key must be a string"
  | .loneSurrogate => "lone leading surrogate in hex escape"
  | .trailingComma => "trailing comma"
  | .trailingCharacters => "trailing characters"
  | .endOfHexEscape => "unexpected end of hex escape"
  | .tooDeep => "recursion limit exceeded"
  | .invalidType found expected => "invalid type: " ++ found.describe ++ ", expected " ++ expected
  | .invalidLength length expected =>
    "invalid length " ++ toString length ++ ", expected " ++ expected
  | .duplicateField name => "duplicate field \x60" ++ name ++ "\x60"
  | .noVariant name => "data did not match any variant of untagged enum " ++ name

/-- A fault: its cause, and the number of bytes before its place if that is known. -/
structure Fault where
  cause : Cause
  offset : Option Nat
deriving Repr, DecidableEq, Inhabited

/-- The line of a place, from one, and the number of bytes before it on that line. -/
structure Place where
  line : Nat
  column : Nat
deriving Repr, DecidableEq, Inhabited

/-- The place after a number of bytes: characters are passed as long as they start before it. -/
def Place.after : List Char → Nat → Place → Place
  | [], _, place => place
  | c :: cs, offset, place =>
    if offset = 0 then place
    else
      let next : Place :=
        if c = '\n' then ⟨place.line + 1, 0⟩
        else ⟨place.line, place.column + min c.utf8Size offset⟩
      Place.after cs (offset - c.utf8Size) next

/-- **The place after a number of bytes.** -/
def Place.ofOffset (text : List Char) (offset : Nat) : Place := .after text offset ⟨1, 0⟩

/-! ### The reader -/

/-- What is left to be read, and the number of bytes before it. -/
structure Cursor where
  rest : List Char
  pos : Nat
deriving Repr, DecidableEq, Inhabited

/-- A reading step: a result or a fault, and where it stops. -/
abbrev Reading := EStateM Fault Cursor

/-- The next character. -/
def peek : Reading (Option Char) := return (← get).rest.head?

/-- Moves past the next character. -/
def advance : Reading Unit :=
  modify fun s =>
    match s.rest with
    | [] => s
    | c :: cs => ⟨cs, s.pos + c.utf8Size⟩

/-- A fault at what was read so far. -/
def failBefore (cause : Cause) : Reading α := do throw ⟨cause, some (← get).pos⟩

/-- A fault at the next character: its first byte counts as read. -/
def failAt (cause : Cause) : Reading α := do
  let s ← get
  throw ⟨cause, some (if s.rest.isEmpty then s.pos else s.pos + 1)⟩

/-- A fault whose place is not known yet. -/
def failLater (cause : Cause) : Reading α := throw ⟨cause, none⟩

/-- The result of a step or its fault; reading goes on where the step stopped. -/
def outcome (step : Reading α) : Reading (Except Fault α) := fun s =>
  match step s with
  | .ok a s => .ok (.ok a) s
  | .error fault s => .ok (.error fault) s

/-- Whether a character is blank in JSON. -/
def isGap (c : Char) : Bool := c == ' ' || c == '\n' || c == '\t' || c == '\r'

/-- Moves past blanks, and gives the next character. -/
def peekToken : Reading (Option Char) := do
  modify fun s =>
    let blanks := s.rest.takeWhile isGap
    ⟨s.rest.dropWhile isGap, s.pos + blanks.length⟩
  peek

/-- Reads the characters of a word. -/
def readWord : List Char → Reading Unit
  | [] => return
  | c :: cs => do
    match ← peek with
    | none => failBefore .endOfValue
    | some d => if d = c then advance; readWord cs else failAt .expectedWord

/-! ### Texts -/

/-- The value of a hexadecimal digit. -/
def hexValue? (c : Char) : Option Nat :=
  if c.isDigit then some (c.toNat - '0'.toNat)
  else if 'a' ≤ c && c ≤ 'f' then some (c.toNat - 'a'.toNat + 10)
  else if 'A' ≤ c && c ≤ 'F' then some (c.toNat - 'A'.toNat + 10)
  else none

/-- The number that four hexadecimal digits write. -/
def hexNumber? (digits : List Char) : Option Nat :=
  if digits.length = 4 then
    digits.foldl (fun n c => do return 16 * (← n) + (← hexValue? c)) (some 0)
  else none

/-- Four bytes as hexadecimal digits. -/
def readHex : Reading Nat := do
  let s ← get
  if byteLength s.rest < 4 then throw ⟨.endOfText, some (s.pos + byteLength s.rest)⟩
  match hexNumber? (s.rest.take 4) with
  | some n => set (Cursor.mk (s.rest.drop 4) (s.pos + 4)); return n
  | none => throw ⟨.invalidEscape, some (s.pos + 4)⟩

/-- A character that has to follow the first half of a surrogate pair. -/
def readPairChar (c : Char) : Reading Unit := do
  match ← peek with
  | none => failBefore .endOfText
  | some d => if d = c then advance else failAt .endOfHexEscape

/-- The character of a hexadecimal escape. -/
def readHexEscape : Reading Char := do
  let high ← readHex
  if 0xdc00 ≤ high && high ≤ 0xdfff then failBefore .loneSurrogate
  else if high < 0xd800 || 0xdbff < high then return Char.ofNat high
  else
    readPairChar '\\'
    readPairChar 'u'
    let low ← readHex
    if low < 0xdc00 || 0xdfff < low then failBefore .loneSurrogate
    else return Char.ofNat (0x10000 + (high - 0xd800) * 0x400 + (low - 0xdc00))

/-- The characters after a backslash that stand for one character, which is given beside them. -/
def simpleEscapes : List (Char × Char) :=
  [('"', '"'), ('\\', '\\'), ('/', '/'), ('b', '\x08'), ('f', '\x0c'), ('n', '\n'), ('r', '\r'),
    ('t', '\t')]

/-- The character that an escape stands for, after its backslash. -/
def readEscape : Reading Char := do
  match ← peek with
  | none => failBefore .endOfText
  | some 'u' => advance; readHexEscape
  | some c =>
    match simpleEscapes.lookup c with
    | some d => advance; return d
    | none => failAt .invalidEscape

/-- An escape that is read only for its form: the halves of surrogate pairs need not match. -/
def skipEscape : Reading Char := do
  match ← peek with
  | some 'u' => advance; let _ ← readHex; return 'u'
  | _ => readEscape

/-- The characters up to the closing quote; the fuel bounds their number. -/
def readTextFrom (escape : Reading Char) (control : Reading Unit) : Nat → Reading (List Char)
  | 0 => failBefore .endOfText
  | n + 1 => do
    match ← peek with
    | none => failBefore .endOfText
    | some '"' => advance; return []
    | some '\\' => advance; return (← escape) :: (← readTextFrom escape control n)
    | some c =>
      if c.toNat < 0x20 then control
      advance
      return c :: (← readTextFrom escape control n)

/-- **A text after its opening quote.** -/
def readText : Reading String := do
  return String.ofList
    (← readTextFrom readEscape (failAt .controlCharacter) ((← get).rest.length + 1))

/-- A text after its opening quote, read only for its form. -/
def skipText : Reading Unit := do
  let _ ← readTextFrom skipEscape (failBefore .controlCharacter) ((← get).rest.length + 1)

/-! ### Numbers -/

/-- Digits as they are written. -/
def readDigits : Reading (List Char) :=
  modifyGet fun s =>
    let digits := s.rest.takeWhile Char.isDigit
    (digits, ⟨s.rest.dropWhile Char.isDigit, s.pos + digits.length⟩)

/-- A number as it is written. -/
structure Numeral where
  negative : Bool
  whole : List Char
  fraction : Option (List Char)
  exponent : Option Int
deriving Repr, DecidableEq, Inhabited

/-- The number that digits write. -/
def digitsValue (digits : List Char) : Nat :=
  digits.foldl (fun n c => 10 * n + (c.toNat - '0'.toNat)) 0

/-- The digits before the point: no zero comes before others. `ended` is the cause where the text
ends. -/
def readWhole (ended : Cause) : Reading (List Char) := do
  match ← peek with
  | none => failBefore ended
  | some '0' =>
    advance
    if (← peek).any Char.isDigit then failAt .invalidNumber else return ['0']
  | some c => if c.isDigit then readDigits else failAt .invalidNumber

/-- The digits after the point, which stands next. -/
def readFraction (ended : Cause) : Reading (List Char) := do
  advance
  let digits ← readDigits
  if digits.isEmpty then failAt (if (← peek).isNone then ended else .invalidNumber)
  else return digits

/-- The exponent, whose mark stands next. -/
def readExponent (ended : Cause) : Reading Int := do
  advance
  let sign ← peek
  if sign == some '+' || sign == some '-' then advance
  match ← peek with
  | none => failBefore ended
  | some c =>
    if c.isDigit then
      let n := digitsValue (← readDigits)
      return if sign == some '-' then -n else n
    else failAt .invalidNumber

/-- **A number** after its sign. -/
def readNumeral (negative : Bool) (ended : Cause) : Reading Numeral := do
  let whole ← readWhole ended
  let fraction ← if (← peek) == some '.' then some <$> readFraction ended else pure none
  let mark ← peek
  let exponent ←
    if mark == some 'e' || mark == some 'E' then some <$> readExponent ended else pure none
  return ⟨negative, whole, fraction, exponent⟩

namespace Numeral

/-- Whether a number is too large. -/
def isHuge (n : Numeral) : Bool :=
  let digits := (n.whole ++ n.fraction.getD []).dropWhile (· == '0')
  let scale := n.exponent.getD 0 - ((n.fraction.getD []).length : Int)
  !digits.isEmpty && decide (308 < digits.length + scale - 1)

/-- The digits of a number without zeros at their ends, and the power of ten after the last. -/
def significand (n : Numeral) : List Char × Int :=
  let digits := (n.whole ++ n.fraction.getD []).dropWhile (· == '0')
  let short := (digits.reverse.dropWhile (· == '0')).reverse
  (short, n.exponent.getD 0 - ((n.fraction.getD []).length : Int) + (digits.length - short.length : Nat))

/-- The text of a number that is no integer: positional from five zeros after the point up to
sixteen digits before it, and with an exponent otherwise. -/
def floatText (n : Numeral) : String :=
  let (digits, scale) := n.significand
  let point : Int := digits.length + scale
  let body : List Char :=
    if digits.isEmpty then ['0', '.', '0']
    else if 0 ≤ scale && point ≤ 16 then
      digits ++ List.replicate scale.toNat '0' ++ ['.', '0']
    else if 0 < point && point ≤ 16 then
      digits.take point.toNat ++ ['.'] ++ digits.drop point.toNat
    else if -5 < point && point ≤ 0 then
      ['0', '.'] ++ List.replicate (-point).toNat '0' ++ digits
    else
      digits.take 1 ++ (if digits.length = 1 then [] else '.' :: digits.drop 1) ++
        'e' :: (toString (point - 1)).toList
  String.ofList (if n.negative then '-' :: body else body)

/-- What a number counts as: integers have to fit into 64 bits, and there is no negative zero among
them. -/
def found (n : Numeral) : Found :=
  let value := digitsValue n.whole
  if n.fraction.isSome || n.exponent.isSome then .float n.floatText
  else if n.negative then
    if value = 0 || 9223372036854775808 < value then .float n.floatText else .integer (-value)
  else if 18446744073709551615 < value then .float n.floatText
  else .integer value

end Numeral

/-- A number after its sign, with its size checked. -/
def readNumber (negative : Bool) : Reading Found := do
  let n ← readNumeral negative .endOfValue
  if n.isHuge then failBefore .numberOutOfRange else return n.found

/-! ### Values without a use -/

mutual

/-- A value of any kind, read only for its form. The fuel bounds the depth and the length. -/
def skipValueFrom : Nat → Reading Unit
  | 0 => failAt .expectedValue
  | n + 1 => do
    match ← peekToken with
    | none => failAt .endOfValue
    | some 'n' => advance; readWord ['u', 'l', 'l']
    | some 't' => advance; readWord ['r', 'u', 'e']
    | some 'f' => advance; readWord ['a', 'l', 's', 'e']
    | some '"' => advance; skipText
    | some '-' => advance; let _ ← readNumeral true .invalidNumber
    | some '[' =>
      advance
      match ← peekToken with
      | none => failAt .endOfList
      | some ']' => advance
      | some _ => skipItems n
    | some '\x7b' =>
      advance
      match ← peekToken with
      | none => failAt .endOfObject
      | some '\x7d' => advance
      | some _ => skipFields n
    | some c =>
      if c.isDigit then let _ ← readNumeral false .invalidNumber else failAt .expectedValue

/-- The items of a list that has one, up to its end. -/
def skipItems : Nat → Reading Unit
  | 0 => failAt .expectedValue
  | n + 1 => do
    skipValueFrom n
    match ← peekToken with
    | none => failAt .endOfList
    | some ',' => advance; skipItems n
    | some ']' => advance
    | some _ => failAt .expectedListEnd

/-- The fields of an object that has one, up to its end. -/
def skipFields : Nat → Reading Unit
  | 0 => failAt .expectedValue
  | n + 1 => do
    match ← peekToken with
    | none => failAt .endOfObject
    | some '"' => advance
    | some _ => failAt .keyNotText
    skipText
    match ← peekToken with
    | none => failAt .endOfObject
    | some ':' => advance
    | some _ => failAt .expectedColon
    skipValueFrom n
    match ← peekToken with
    | none => failAt .endOfObject
    | some ',' => advance; skipFields n
    | some '\x7d' => advance
    | some _ => failAt .expectedObjectEnd

end

/-- **A value of any kind, read only for its form.** -/
def skipValue : Reading Unit := do skipValueFrom (2 * (← get).rest.length + 2)

end AmbientBundle.Json

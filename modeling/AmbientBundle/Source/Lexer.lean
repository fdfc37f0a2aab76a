import AmbientBundle.Source.Token
import AmbientBundle.Text.Blank
import AmbientBundle.Text.Offset

/-!
# Reading tokens

The lexer reads one token from a cursor. The marks `<` and `>` depend on where they are read: in a
type they always stand alone, elsewhere they join with what follows.

* `skipGap`: blanks and comments before a token.
* `readString`: string literals and their escapes.
* `readTemplate`, `readRegex`: the two literals that the grammar asks for by name, since only it
  can tell a closing brace from the end of a substitution, and a division from a pattern.
* `nextLexeme`: one token.
-/

namespace AmbientBundle.Source

open Text

/-- The unread text and its byte offset. -/
structure Cursor where
  rest : List Char
  pos : Nat
deriving Repr, DecidableEq, Inhabited

/-- The cursor after the characters of `read`, with `rest` left. -/
def Cursor.past (c : Cursor) (read rest : List Char) : Cursor :=
  ⟨rest, c.pos + Text.byteLength read⟩

/-- The characters that end a line. -/
def endsLine (c : Char) : Bool :=
  c == '\n' || c == '\r' || c == '\u2028' || c == '\u2029'

/-- Blanks between tokens that do not end a line. -/
def isGap (c : Char) : Bool :=
  c == '\t' || c == '\x0b' || c == '\x0c' || c == ' ' || c == '\ufeff' ||
    (128 ≤ c.toNat && isBlank c)

/-- What the lexer is passing over between two tokens. -/
inductive Gap where
  | blank
  | line
  | block

/-- The end of a gap: where the next token is, whether a line ended before it, and where a markup
comment in the gap started. -/
structure GapEnd where
  cursor : Cursor
  afterLine : Bool
  markup : Option Nat

/-- **Skips blanks and comments.** A comment may open with `<!--`, and, at the front of a line, with
`-->`; the token after such a comment counts as starting with it. -/
def skipGap : Gap → List Char → Nat → Bool → Option Nat → GapEnd
  | _, [], pos, nl, mk => ⟨⟨[], pos⟩, nl, mk⟩
  | .blank, '/' :: '/' :: cs, pos, nl, mk => skipGap .line cs (pos + 2) nl mk
  | .blank, '/' :: '*' :: cs, pos, nl, mk => skipGap .block cs (pos + 2) nl mk
  | .blank, '<' :: '!' :: '-' :: '-' :: cs, pos, nl, mk =>
    skipGap .line cs (pos + 4) nl (mk.or (some pos))
  | .blank, '-' :: '-' :: '>' :: cs, pos, nl, mk =>
    if nl then skipGap .line cs (pos + 3) nl (mk.or (some pos))
    else ⟨⟨'-' :: '-' :: '>' :: cs, pos⟩, nl, mk⟩
  | .blank, c :: cs, pos, nl, mk =>
    if endsLine c then skipGap .blank cs (pos + c.utf8Size) true mk
    else if isGap c then skipGap .blank cs (pos + c.utf8Size) nl mk
    else ⟨⟨c :: cs, pos⟩, nl, mk⟩
  | .line, c :: cs, pos, nl, mk =>
    if endsLine c then skipGap .blank cs (pos + c.utf8Size) true mk
    else skipGap .line cs (pos + c.utf8Size) nl mk
  | .block, '*' :: '/' :: cs, pos, nl, mk => skipGap .blank cs (pos + 2) nl mk
  | .block, c :: cs, pos, nl, mk => skipGap .block cs (pos + c.utf8Size) (nl || endsLine c) mk

/-! ### Digits and escapes -/

/-- The value of a hexadecimal digit. -/
def hexValue? (c : Char) : Option Nat :=
  if c.isDigit then some (c.toNat - 48)
  else if 'a' ≤ c && c ≤ 'f' then some (c.toNat - 87)
  else if 'A' ≤ c && c ≤ 'F' then some (c.toNat - 55)
  else none

/-- The number written by hexadecimal digits. -/
def hexNumber (cs : List Char) : Nat :=
  cs.foldl (fun n c => 16 * n + (hexValue? c).getD 0) 0

/-- Exactly `n` hexadecimal digits at the front of a text. -/
def takeHex (n : Nat) (cs : List Char) : Option (Nat × List Char) :=
  let ds := cs.take n
  if ds.length == n && ds.all fun c => (hexValue? c).isSome then some (hexNumber ds, cs.drop n)
  else none

/-- The code point after `\u`: four digits, or digits in braces. -/
def takeCodePoint : List Char → Option (Nat × List Char)
  | '{' :: cs =>
    let ds := cs.takeWhile fun c => (hexValue? c).isSome
    match cs.drop ds.length with
    | '}' :: rest => if ds.isEmpty || hexNumber ds > 0x10ffff then none else some (hexNumber ds, rest)
    | _ => none
  | cs => takeHex 4 cs

/-- The number written by octal digits. -/
def octalNumber (cs : List Char) : Nat := cs.foldl (fun n c => 8 * n + (c.toNat - 48)) 0

/-- The digits of an octal escape: at most three, and only as many as stay below 256. -/
def octalEscape (cs : List Char) : List Char :=
  let digits := (cs.takeWhile fun c => '0' ≤ c && c ≤ '7').take 3
  if octalNumber digits ≤ 255 then digits else digits.take 2

/-- The reading of an escape, after its backslash: a code point or nothing (a continued line), and
the text after it. -/
def readEscape : List Char → Option (Option Nat × List Char)
  | [] => none
  | 'n' :: cs => some (some 10, cs)
  | 'r' :: cs => some (some 13, cs)
  | 't' :: cs => some (some 9, cs)
  | 'b' :: cs => some (some 8, cs)
  | 'v' :: cs => some (some 11, cs)
  | 'f' :: cs => some (some 12, cs)
  | '\r' :: '\n' :: cs => some (none, cs)
  | 'x' :: cs => (takeHex 2 cs).map fun (n, rest) => (some n, rest)
  | 'u' :: cs => (takeCodePoint cs).map fun (n, rest) => (some n, rest)
  | c :: cs =>
    if endsLine c then some (none, cs)
    else if '0' ≤ c && c ≤ '7' then
      let digits := octalEscape (c :: cs)
      some (some (octalNumber digits), (c :: cs).drop digits.length)
    else some (some c.toNat, cs)

/-- A high surrogate followed by a low one is one character; every other code point stands for
itself. `none` if a surrogate is left over. -/
def joinSurrogates : List Nat → Option (List Char)
  | [] => some []
  | h :: l :: rest =>
    if 0xd800 ≤ h && h < 0xdc00 then
      if 0xdc00 ≤ l && l < 0xe000 then
        (joinSurrogates rest).map (Char.ofNat (0x10000 + (h - 0xd800) * 0x400 + (l - 0xdc00)) :: ·)
      else none
    else if 0xdc00 ≤ h && h < 0xe000 then none
    else (joinSurrogates (l :: rest)).map (Char.ofNat h :: ·)
  | [n] => if 0xd800 ≤ n && n < 0xe000 then none else some [Char.ofNat n]

/-- The body of a string: the code points it denotes and the text from its closing quote, or from
the end of its line, on. `none` on a malformed escape. The fuel is the length of the text. -/
def readStringBody (quote : Char) : Nat → List Char → Option (List Nat × List Char)
  | 0, cs => some ([], cs)
  | _ + 1, [] => some ([], [])
  | n + 1, '\\' :: cs =>
    match readEscape cs with
    | none => none
    | some (code, rest) =>
      (readStringBody quote n rest).map fun (codes, left) => (code.toList ++ codes, left)
  | n + 1, c :: cs =>
    if c == quote || c == '\n' || c == '\r' then some ([], c :: cs)
    else (readStringBody quote n cs).map fun (codes, left) => (c.toNat :: codes, left)

/-- How much longer one end of a text is than a later one. -/
def consumed (whole rest : List Char) : List Char := whole.take (whole.length - rest.length)

/-- **A string literal**, at its opening quote. A string that its line does not close ends with the
line. -/
def readString (quote : Char) (c : Cursor) : Token × Cursor :=
  match readStringBody quote c.rest.length (c.rest.drop 1) with
  | none => (.bad c.pos, ⟨[], c.pos⟩)
  | some (codes, rest) =>
    let left := if rest.head? == some quote then rest.drop 1 else rest
    (.string ((joinSurrogates codes).map String.ofList), c.past (consumed c.rest left) left)

/-! ### Templates and patterns -/

/-- The text of a template up to its closing mark or its next substitution: whether it closes, and
the text after. -/
def readTemplateBody : List Char → Option (Bool × List Char)
  | [] => none
  | '\x60' :: cs => some (true, cs)
  | '$' :: '{' :: cs => some (false, cs)
  | '\\' :: _ :: cs => readTemplateBody cs
  | _ :: cs => readTemplateBody cs

/-- **A piece of a template**, at its opening mark or at the brace that ends a substitution. -/
def readTemplate (c : Cursor) : Token × Cursor :=
  match readTemplateBody (c.rest.drop 1) with
  | none => (.bad c.pos, ⟨[], c.pos⟩)
  | some (closed, rest) =>
    (if closed then .template else .templateHead, c.past (consumed c.rest rest) rest)

/-- The body of a pattern, up to the slash that closes it. -/
def readRegexBody : Bool → List Char → Option (List Char)
  | _, [] => none
  | inClass, '\\' :: c :: cs => if endsLine c then none else readRegexBody inClass cs
  | inClass, c :: cs =>
    if endsLine c then none
    else if c == '/' && !inClass then some cs
    else readRegexBody (if c == '[' then true else if c == ']' then false else inClass) cs

/-- **A pattern literal** with its flags, at its opening slash. -/
def readRegex (c : Cursor) : Token × Cursor :=
  match readRegexBody false (c.rest.drop 1) with
  | none => (.bad c.pos, ⟨[], c.pos⟩)
  | some rest =>
    let left := rest.dropWhile continuesName
    (.regex, c.past (consumed c.rest left) left)

/-! ### Words and numbers -/

/-- The characters of a word, escapes decoded, and the text after it. The fuel is the length of the
text. `none` on a malformed escape. -/
def readWordBody : Nat → List Char → Option (List Char × List Char)
  | 0, cs => some ([], cs)
  | n + 1, '\\' :: 'u' :: cs =>
    match takeCodePoint cs with
    | none => none
    | some (code, rest) =>
      if continuesName (Char.ofNat code) then
        (readWordBody n rest).map fun (w, left) => (Char.ofNat code :: w, left)
      else none
  | n + 1, c :: cs =>
    if continuesName c then (readWordBody n cs).map fun (w, left) => (c :: w, left)
    else if c == '\\' then none
    else some ([], c :: cs)
  | _ + 1, [] => some ([], [])

/-- A word. -/
def readWord (c : Cursor) : Token × Cursor :=
  match readWordBody c.rest.length c.rest with
  | none => (.bad c.pos, ⟨[], c.pos⟩)
  | some (name, rest) => (.word (String.ofList name), c.past (consumed c.rest rest) rest)

/-- The rest of a text after digits of a base, with separators. -/
def dropDigits (isDigit : Char → Bool) (cs : List Char) : List Char :=
  cs.dropWhile fun c => isDigit c || c == '_'

/-- The text after the exponent of a number, if it has one. -/
def dropExponent (cs : List Char) : List Char :=
  match cs with
  | e :: s :: d :: rest =>
    if e == 'e' || e == 'E' then
      if (s == '+' || s == '-') && d.isDigit then dropDigits Char.isDigit rest
      else if s.isDigit then dropDigits Char.isDigit (d :: rest)
      else cs
    else cs
  | e :: s :: rest =>
    if (e == 'e' || e == 'E') && s.isDigit then dropDigits Char.isDigit rest else cs
  | _ => cs

/-- The text after a decimal number. -/
def dropDecimal (cs : List Char) : List Char :=
  match dropDigits Char.isDigit cs with
  | '.' :: rest => dropExponent (dropDigits Char.isDigit rest)
  | rest => dropExponent rest

/-- **A number.** A name may not follow it directly. -/
def readNumber (c : Cursor) : Token × Cursor :=
  let radix := fun (isDigit : Char → Bool) (ds : List Char) =>
    let rest := dropDigits isDigit ds
    if rest.length == ds.length then none else some rest
  let body : Option (List Char) :=
    match c.rest with
    | '0' :: x :: ds =>
      if x == 'x' || x == 'X' then radix (fun d => (hexValue? d).isSome) ds
      else if x == 'o' || x == 'O' then radix (fun d => '0' ≤ d && d ≤ '7') ds
      else if x == 'b' || x == 'B' then radix (fun d => d == '0' || d == '1') ds
      else some (dropDecimal c.rest)
    | cs => some (dropDecimal cs)
  match body with
  | none => (.bad c.pos, ⟨[], c.pos⟩)
  | some rest =>
    let (token, left) :=
      match rest with
      | 'n' :: left => (Token.bigint, left)
      | left => (Token.number, left)
    let after := c.past (consumed c.rest left) left
    match left with
    | d :: _ => if startsName d then (.bad after.pos, after) else (token, after)
    | [] => (token, after)

/-! ### Marks -/

/-- The mark at the front of a text and the number of its characters. In a type, `<` and `>` stand
alone. -/
def readMark (inType : Bool) : List Char → Option (Mark × Nat)
  | '{' :: _ => some (.lbrace, 1)
  | '}' :: _ => some (.rbrace, 1)
  | '(' :: _ => some (.lparen, 1)
  | ')' :: _ => some (.rparen, 1)
  | '[' :: _ => some (.lbracket, 1)
  | ']' :: _ => some (.rbracket, 1)
  | ';' :: _ => some (.semi, 1)
  | ',' :: _ => some (.comma, 1)
  | ':' :: _ => some (.colon, 1)
  | '.' :: '.' :: '.' :: _ => some (.ellipsis, 3)
  | '.' :: _ => some (.dot, 1)
  | '?' :: '?' :: '=' :: _ => some (.opAssign, 3)
  | '?' :: '?' :: _ => some (.binary, 2)
  | '?' :: '.' :: c :: _ => if c.isDigit then some (.question, 1) else some (.questionDot, 2)
  | '?' :: '.' :: _ => some (.questionDot, 2)
  | '?' :: _ => some (.question, 1)
  | '#' :: _ => some (.hash, 1)
  | '@' :: _ => some (.at, 1)
  | '~' :: _ => some (.tilde, 1)
  | '=' :: '=' :: '=' :: _ => some (.binary, 3)
  | '=' :: '=' :: _ => some (.binary, 2)
  | '=' :: '>' :: _ => some (.arrow, 2)
  | '=' :: _ => some (.assign, 1)
  | '!' :: '=' :: '=' :: _ => some (.binary, 3)
  | '!' :: '=' :: _ => some (.binary, 2)
  | '!' :: _ => some (.bang, 1)
  | '+' :: '+' :: _ => some (.plusPlus, 2)
  | '+' :: '=' :: _ => some (.opAssign, 2)
  | '+' :: _ => some (.plus, 1)
  | '-' :: '-' :: _ => some (.minusMinus, 2)
  | '-' :: '=' :: _ => some (.opAssign, 2)
  | '-' :: _ => some (.minus, 1)
  | '*' :: '*' :: '=' :: _ => some (.opAssign, 3)
  | '*' :: '*' :: _ => some (.binary, 2)
  | '*' :: '=' :: _ => some (.opAssign, 2)
  | '*' :: _ => some (.star, 1)
  | '/' :: '=' :: _ => some (.slashAssign, 2)
  | '/' :: _ => some (.slash, 1)
  | '%' :: '=' :: _ => some (.opAssign, 2)
  | '%' :: _ => some (.binary, 1)
  | '&' :: '&' :: '=' :: _ => some (.opAssign, 3)
  | '&' :: '&' :: _ => some (.binary, 2)
  | '&' :: '=' :: _ => some (.opAssign, 2)
  | '&' :: _ => some (.amp, 1)
  | '|' :: '|' :: '=' :: _ => some (.opAssign, 3)
  | '|' :: '|' :: _ => some (.binary, 2)
  | '|' :: '=' :: _ => some (.opAssign, 2)
  | '|' :: _ => some (.pipe, 1)
  | '^' :: '=' :: _ => some (.opAssign, 2)
  | '^' :: _ => some (.binary, 1)
  | '<' :: cs =>
    if inType then some (.lt, 1)
    else match cs with
      | '<' :: '=' :: _ => some (.opAssign, 3)
      | '<' :: _ => some (.shiftLeft, 2)
      | '=' :: _ => some (.binary, 2)
      | _ => some (.lt, 1)
  | '>' :: cs =>
    if inType then some (.gt, 1)
    else match cs with
      | '>' :: '>' :: '=' :: _ => some (.opAssign, 4)
      | '>' :: '>' :: _ => some (.binary, 3)
      | '>' :: '=' :: _ => some (.opAssign, 3)
      | '>' :: _ => some (.binary, 2)
      | '=' :: _ => some (.binary, 2)
      | _ => some (.gt, 1)
  | _ => none

/-! ### One token -/

/-- The token at a cursor that stands on no blank. -/
def readToken (inType : Bool) (c : Cursor) : Token × Cursor :=
  match c.rest with
  | [] => (.eof, c)
  | '.' :: d :: rest =>
    if d.isDigit then readNumber c
    else match readMark inType ('.' :: d :: rest) with
      | some (m, n) => (.mark m, ⟨c.rest.drop n, c.pos + n⟩)
      | none => (.bad c.pos, c)
  | h :: cs =>
    if h == '"' || h == '\'' then readString h c
    else if h == '\x60' then readTemplate c
    else if h.isDigit then readNumber c
    else if startsName h || h == '\\' then readWord c
    else match readMark inType (h :: cs) with
      | some (m, n) => (.mark m, ⟨c.rest.drop n, c.pos + n⟩)
      | none => (.bad c.pos, ⟨[], c.pos⟩)

/-- **The next token**, past the gap before it. `afterLine` tells whether a line is known to have
ended already. -/
def nextLexeme (inType afterLine : Bool) (c : Cursor) : Lexeme × Cursor :=
  let gap := skipGap .blank c.rest c.pos afterLine none
  let (token, after) := readToken inType gap.cursor
  (⟨token, ⟨gap.markup.getD gap.cursor.pos, after.pos⟩, gap.afterLine⟩, after)

end AmbientBundle.Source

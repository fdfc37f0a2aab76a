/-!
# Escaped values

Values on the command line may have escapes for the characters that are hard to type.

* `unescape`: the text that a value stands for.
* `readEol`: a line end, which also has names.
-/

namespace AmbientBundle.CommandLine

/-- Why a value stands for nothing. -/
inductive EscapeFault where
  | unsupported (c : Char)
  | trailingBackslash
  | empty
deriving Repr, DecidableEq, Inhabited

/-- The text of a fault. -/
def EscapeFault.message : EscapeFault → String
  | .unsupported c => "unsupported escape '\\" ++ c.toString ++ "'"
  | .trailingBackslash => "trailing backslash"
  | .empty => "value must not be empty"

/-- The characters of an escaped value. -/
def unescapeChars : List Char → Except EscapeFault (List Char)
  | [] => .ok []
  | ['\\'] => .error .trailingBackslash
  | '\\' :: 'n' :: cs => ('\n' :: ·) <$> unescapeChars cs
  | '\\' :: 'r' :: cs => ('\r' :: ·) <$> unescapeChars cs
  | '\\' :: 't' :: cs => ('\t' :: ·) <$> unescapeChars cs
  | '\\' :: '\\' :: cs => ('\\' :: ·) <$> unescapeChars cs
  | '\\' :: c :: _ => .error (.unsupported c)
  | c :: cs => (c :: ·) <$> unescapeChars cs

/-- **The text that an escaped value stands for.** It may not be empty. -/
def unescape (value : String) : Except EscapeFault String := do
  let cs ← unescapeChars value.toList
  if cs.isEmpty then throw .empty else return String.ofList cs

/-- **A line end**: `lf` and `crlf` in any case, or an escaped value. -/
def readEol (value : String) : Except EscapeFault String :=
  match String.ofList (value.toList.map Char.toLower) with
  | "lf" => .ok "\n"
  | "crlf" => .ok "\r\n"
  | _ => unescape value

end AmbientBundle.CommandLine

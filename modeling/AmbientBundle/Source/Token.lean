import AmbientBundle.Text.Identifier

/-!
# Tokens of a declaration file

Words (names and reserved words alike), literals and marks. A token carries what the grammar
needs to know of it: a word its name, a string what it denotes. Positions are byte offsets into
the text.

* `Token`, `Lexeme`: a token, and a token with its place.
* `Literal`: a string literal with its place.
* `isReserved`: the words that cannot name a binding.
-/

namespace AmbientBundle.Source

/-- A stretch of the text, from `start` up to but not including `stop`, in bytes. -/
structure Span where
  start : Nat
  stop : Nat
deriving Repr, DecidableEq, Inhabited

/-- **A string literal as written.** The span covers the quotes. `value` is what the literal
denotes, and `none` when it denotes an unpaired surrogate. -/
structure Literal where
  span : Span
  value : Option String
deriving Repr, DecidableEq, Inhabited

/-- Punctuation. Operators that the grammar never tells apart share one mark. -/
inductive Mark where
  | lbrace | rbrace | lparen | rparen | lbracket | rbracket
  | semi | comma | colon | dot | ellipsis | question | questionDot
  | hash | at | arrow | assign
  /-- An assignment that also computes, such as `+=`. -/
  | opAssign
  | slashAssign | lt | gt | shiftLeft | star | slash | pipe | amp | plus | minus
  | bang | tilde | plusPlus | minusMinus
  /-- Any other operator between two operands, such as `===`. -/
  | binary
deriving Repr, DecidableEq, Inhabited

/-- A token of the text. -/
inductive Token where
  /-- A name or a reserved word. -/
  | word (name : String)
  /-- A string, by what it denotes. -/
  | string (value : Option String)
  | number
  | bigint
  /-- A template without substitutions. -/
  | template
  /-- A template up to its first substitution, or from one substitution to the next. -/
  | templateHead
  | regex
  | mark (m : Mark)
  /-- Text that is no token; `offset` is where it went wrong. -/
  | bad (offset : Nat)
  | eof
deriving Repr, DecidableEq, Inhabited

/-- A token with its place, and whether a line ended between it and the token before. -/
structure Lexeme where
  token : Token
  span : Span
  afterLine : Bool
deriving Repr, DecidableEq, Inhabited

/-- The words that have a fixed role wherever they stand. -/
def keywords : List String :=
  ["await", "break", "case", "catch", "class", "const", "continue", "debugger", "default",
    "delete", "do", "else", "export", "extends", "finally", "for", "function", "if", "import",
    "in", "instanceof", "let", "new", "return", "super", "switch", "this", "throw", "try",
    "typeof", "var", "void", "while", "with", "yield", "null", "true", "false"]

/-- Whether a word has a fixed role. -/
def isKeyword (name : String) : Bool := keywords.contains name

/-- Whether a word is refused as the name of a binding: module code is strict. -/
def isReserved (name : String) : Bool :=
  isKeyword name ||
    ["enum", "implements", "package", "protected", "interface", "private", "public"].contains name

/-- A word of any kind. -/
def Token.isWord : Token → Bool
  | .word _ => true
  | _ => false

/-- A word that may name a binding. -/
def Token.isName : Token → Bool
  | .word name => !isReserved name
  | _ => false

/-- A word without a fixed role. -/
def Token.isPlainWord : Token → Bool
  | .word name => !isKeyword name
  | _ => false

/-- A template from its opening mark on. -/
def Token.isTemplate : Token → Bool
  | .template | .templateHead => true
  | _ => false

/-- An operator that stands between two operands and is written with marks. -/
def Token.isBinaryMark : Token → Bool
  | .mark .lt | .mark .gt | .mark .shiftLeft | .mark .star | .mark .slash | .mark .pipe
  | .mark .amp | .mark .plus | .mark .minus | .mark .binary => true
  | _ => false

end AmbientBundle.Source

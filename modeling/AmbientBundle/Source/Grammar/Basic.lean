import AmbientBundle.Source.Lexer
import AmbientBundle.Source.Tree

/-!
# Reading a declaration file: the machinery

A reader looks at one current token and moves on. It either yields a value or stops at a fault, and
in both cases says where it stands, so that a caller may take the fault back (`attempt`), or leave
it and go on from there (`recover`).

* `Reading`: readers, with the mode they read in and the place they stand at.
* `attempt`, `recover`, `lookAhead`: three ways to go on after a fault.
* `collect`: repetition.
* `Grammar`: the readers that call each other. Its entries are tied together level by level, one
  level for each step of nesting, so every reader is a plain definition.
-/

namespace AmbientBundle.Source

/-- **A fault**: where the text stops making sense. -/
structure Fault where
  offset : Nat
deriving Repr, DecidableEq, Inhabited

/-- How the text is read at a place. -/
structure Mode where
  /-- In a type, where `<` and `>` are brackets. -/
  inType : Bool
  /-- Whether `in` is an operator; it is not in the head of a loop. -/
  allowIn : Bool
  /-- In the first branch of a conditional expression, where a colon is still to come. -/
  beforeColon : Bool
  /-- In a branch of a conditional expression. -/
  inConditional : Bool
  /-- In the tested part of a conditional type. -/
  testedType : Bool
  /-- In the body of a generator. -/
  inGenerator : Bool
deriving Repr, DecidableEq, Inhabited

/-- The mode at the front of a file. -/
def Mode.initial : Mode := ⟨false, true, false, false, false, false⟩

/-- Where a reader stands. -/
structure Place where
  /-- The current token. -/
  current : Lexeme
  /-- The text after it. -/
  after : Cursor
  /-- Where the token before it ended. -/
  lastStop : Nat
  /-- Where an arrow function may start. -/
  arrowStart : Option Nat
deriving Repr, DecidableEq, Inhabited

/-- **A reader** of a part of the text. -/
abbrev Reading (α : Type) := ReaderT Mode (EStateM Fault Place) α

namespace Reading

variable {α β : Type}

/-- The current token. -/
def token : Reading Token := return (← get).current.token

/-- Where the current token starts. -/
def start : Reading Nat := return (← get).current.span.start

/-- Where the last token ended. -/
def lastStop : Reading Nat := return (← get).lastStop

/-- Whether a line ended before the current token. -/
def afterLine : Reading Bool := return (← get).current.afterLine

/-- The stretch from a start to the end of the last token. -/
def spanFrom (start : Nat) : Reading Span := return ⟨start, ← lastStop⟩

/-- The token after the current one, with its place. -/
def peekLexeme : Reading Lexeme := do
  return (nextLexeme (← read).inType false (← get).after).1

/-- The token after the current one. -/
def peek : Reading Token := return (← peekLexeme).token

/-- Moves past the current token. -/
def advance : Reading Unit := do
  let mode ← read
  modify fun s =>
    let (next, after) := nextLexeme mode.inType false s.after
    { s with current := next, after := after, lastStop := s.current.span.stop }

/-- Reads the current token anew with `scan`, as if the text went on with `front` where the token
started. -/
def rescan (front : List Char) (scan : Cursor → Token × Cursor) : Reading Unit :=
  modify fun s =>
    let (token, after) := scan ⟨front ++ s.after.rest, s.after.pos - front.length⟩
    { s with current := { s.current with token := token, span := ⟨s.current.span.start, after.pos⟩ }
             after := after }

/-- A fault at an offset. -/
def faultAt (offset : Nat) : Reading α := throw ⟨offset⟩

/-- A fault at the current token. -/
def fault : Reading α := do faultAt (← start)

/-- A fault at the current token, or, if that is no token at all, where it went wrong. -/
def unexpected : Reading α := do
  match ← token with
  | .bad offset => faultAt offset
  | _ => fault

/-- Runs a reader in a changed mode. -/
def within (change : Mode → Mode) (p : Reading α) : Reading α := fun mode => p (change mode)

/-- Runs a reader in a type. -/
def inType (p : Reading α) : Reading α := within (fun m => { m with inType := true }) p

/-- **Takes a fault back**: nothing is read if the reader stops or yields nothing. -/
def attempt (p : Reading (Option α)) : Reading (Option α) := fun mode s =>
  match p mode s with
  | .ok (some a) t => .ok (some a) t
  | .ok none _ => .ok none s
  | .error _ _ => .ok none s

/-- **Leaves a fault**: goes on from where the reader stopped. -/
def recover (p : Reading α) : Reading (Option α) := fun mode s =>
  match p mode s with
  | .ok a t => .ok (some a) t
  | .error _ t => .ok none t

/-- Looks without moving; a fault counts as no. -/
def lookAhead (p : Reading Bool) : Reading Bool := fun mode s =>
  match p mode s with
  | .ok b _ => .ok b s
  | .error _ _ => .ok false s

/-- Whether the current token is this one. -/
def isToken (t : Token) : Reading Bool := return (← token) == t

/-- Whether the current token is this mark. -/
def is (m : Mark) : Reading Bool := isToken (.mark m)

/-- Whether the current token is this word. -/
def isWord (w : String) : Reading Bool := isToken (.word w)

/-- Whether the next token is this mark. -/
def peekIs (m : Mark) : Reading Bool := return (← peek) == .mark m

/-- Whether the next token is this word. -/
def peekIsWord (w : String) : Reading Bool := return (← peek) == .word w

/-- Whether the next token is this word, on the same line. -/
def peekIsWordHere (w : String) : Reading Bool := do
  let next ← peekLexeme
  return next.token == .word w && !next.afterLine

/-- Moves past the token if it is this one. -/
def eatToken (t : Token) : Reading Bool := do
  if ← isToken t then advance; return true else return false

/-- Moves past the mark if it is there. -/
def eat (m : Mark) : Reading Bool := eatToken (.mark m)

/-- Moves past the word if it is there. -/
def eatWord (w : String) : Reading Bool := eatToken (.word w)

/-- Moves past the mark, which must be there. -/
def expect (m : Mark) : Reading Unit := do
  unless ← eat m do fault

/-- Moves past the word, which must be there. -/
def expectWord (w : String) : Reading Unit := do
  unless ← eatWord w do fault

/-- Whether a statement may end here: at a semicolon, before a closing brace, at the end of a line
or of the file. -/
def atEnd : Reading Bool := do
  match ← token with
  | .mark .semi | .mark .rbrace | .eof => return true
  | _ => afterLine

/-- Ends a statement, and moves past the semicolon if there is one. -/
def eatEnd : Reading Bool := do
  if ← eat .semi then return true else atEnd

/-- Ends a statement that must end here. -/
def expectEnd : Reading Unit := do
  unless ← eatEnd do fault

/-- One more than the number of characters that are left: no repetition makes more steps. -/
def fuel : Reading Nat := return (← get).after.rest.length + 2

/-- Repeats a step, at most as often as the first argument says, until it yields nothing. -/
def repeatUpTo (step : Reading (Option α)) : Nat → Reading (List α)
  | 0 => fault
  | n + 1 => do
    match ← step with
    | none => return []
    | some a => return a :: (← repeatUpTo step n)

/-- **Repeats a step until it yields nothing.** -/
def collect (step : Reading (Option α)) : Reading (List α) := do repeatUpTo step (← fuel)

/-- Elements until a stop, with commas between them; one may also stand after the last. -/
def commaList (stop : Reading Bool) (element : Reading α) : Reading (List α) :=
  collect do
    if ← stop then return none
    let a ← element
    unless ← stop do expect .comma
    return some a

/-- The reader applied if the condition holds. -/
def optional (condition : Reading Bool) (p : Reading α) : Reading (Option α) := do
  if ← condition then return some (← p) else return none

/-- The trees of a reader applied if the condition holds. -/
def treesIf (condition : Reading Bool) (p : Reading (List Tree)) : Reading (List Tree) := do
  if ← condition then p else return []

end Reading

/-- What an expression turned out to be, as far as what follows depends on it. -/
inductive Shape where
  | name (name : String)
  | arrow
  /-- An operator applied to its operands, which nothing can be assigned to. -/
  | operator
  | array
  | object
  | assignment
  /-- `new` without arguments in parentheses. -/
  | bareNew
  /-- An expression with type arguments that is not called. -/
  | instantiated (base : Tree) (arguments : List Tree)
  /-- Something that can be assigned to: a member, or a wrapped target. -/
  | target
  | superWord
  | importWord
  | other
deriving Repr, Inhabited

/-- An expression: where it starts, its shape, and what stands in it. -/
structure Expression where
  start : Nat
  shape : Shape
  tree : Tree
deriving Repr, Inhabited

/-- The kinds of binding patterns. -/
inductive PatternKind where
  | name | array | object | rest | assigned
deriving Repr, DecidableEq, Inhabited

/-- A binding pattern: where it starts, its kind, and what stands in it. -/
structure Pattern where
  start : Nat
  kind : PatternKind
  tree : Tree
deriving Repr, Inhabited

/-- **The readers that call each other.** -/
structure Grammar where
  /-- A type. -/
  type : Reading Tree
  /-- A type that is not conditional. -/
  plainType : Reading Tree
  /-- An expression without a comma. -/
  assignment : Reading Expression
  /-- Operands with operators between them. -/
  operation : Reading Expression
  /-- An operand, with the operators before it. -/
  unary : Reading Expression
  /-- The callee of `new`. -/
  callee : Reading Expression
  /-- A binding pattern. -/
  pattern : Reading Pattern
  /-- An object literal. -/
  object : Reading Tree
  /-- A class in an expression. -/
  classExpression : Reading Tree
  /-- A statement in a block or after a condition. -/
  statement : Reading Tree
  /-- An item of a file or of a module block. -/
  item : Reading Item

/-- The grammar with no level left: every reader stops. -/
def Grammar.exhausted : Grammar :=
  ⟨Reading.fault, Reading.fault, Reading.fault, Reading.fault, Reading.fault, Reading.fault,
    Reading.fault, Reading.fault, Reading.fault, Reading.fault, Reading.fault⟩

end AmbientBundle.Source

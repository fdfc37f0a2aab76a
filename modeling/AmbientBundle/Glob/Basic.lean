import AmbientBundle.Text.Cut

/-!
# Glob patterns

A pattern is read from left to right, one character at a time. What a run of stars means depends on
the characters around it: as a whole component it stands for any number of directories, and
otherwise for any text without a slash.

* `Glob.Token`: what a pattern is made of.
* `Glob.State.step`, `Glob.State.finish`: the reader.
* `Glob.parse`: a whole pattern.
-/

namespace AmbientBundle

namespace Glob

/-- What a pattern is made of. -/
inductive Token where
  | literal (c : Char)
  /-- One byte other than a slash. -/
  | any
  /-- Any number of bytes other than slashes. -/
  | star
  /-- Any directories at the front: nothing, or anything up to a slash. -/
  | leadingDirs
  /-- Any directories in the middle: a slash, or anything between two slashes. -/
  | middleDirs
  /-- Everything below: a slash and anything after it. -/
  | allBelow
  /-- One byte of a set of ranges, or one outside of it. -/
  | oneOf (negated : Bool) (ranges : List (Char × Char))
  | alternates (branches : List (List Token))
deriving Repr, Inhabited

/-- Why a pattern cannot be read. -/
inductive Fault where
  | unclosedClass
  | invalidRange (first last : Char)
  | unclosedAlternates
  | unopenedAlternates
  | danglingEscape
deriving Repr, DecidableEq, Inhabited

/-- The text of a fault. -/
def Fault.reason : Fault → String
  | .unclosedClass => "unclosed character class; missing ']'"
  | .invalidRange first last =>
    "invalid range; '" ++ first.toString ++ "' > '" ++ last.toString ++ "'"
  | .unclosedAlternates =>
    "unclosed alternate group; missing '\x7d' (maybe escape '\x7b' with '[\x7b]'?)"
  | .unopenedAlternates =>
    "unopened alternate group; missing '\x7b' (maybe escape '\x7d' with '[\x7d]'?)"
  | .danglingEscape => "dangling '\\'"

/-- The text of a fault in a pattern. -/
def Fault.message (fault : Fault) (pattern : String) : String :=
  "error parsing glob '" ++ pattern ++ "': " ++ fault.reason

/-! ### Reading -/

/-- A character class being read. -/
structure ClassState where
  negated : Bool
  /-- The ranges so far, the last one first. -/
  ranges : List (Char × Char)
  /-- Whether a range has its first character and its dash. -/
  inRange : Bool
deriving Repr, DecidableEq, Inhabited

/-- What the next character is part of. The star modes keep the character before the stars. -/
inductive Mode where
  | plain
  | escape
  | oneStar (before : Option Char)
  | twoStars (before : Option Char)
  /-- Right after an opening bracket. -/
  | classStart
  /-- Before the first member of a class. -/
  | classFirst (negated : Bool)
  | classRest (state : ClassState)
deriving Repr, DecidableEq, Inhabited

/-- A group of alternates being read: the tokens before it, and its finished branches. -/
structure OpenGroup where
  outer : List Token
  branches : List (List Token)
deriving Repr, Inhabited

/-- The reader of patterns. -/
structure State where
  /-- The open groups, the innermost first. -/
  groups : List OpenGroup
  /-- The tokens of the branch being read. -/
  tokens : List Token
  mode : Mode
  /-- The character read last. -/
  last : Option Char
deriving Repr, Inhabited

namespace State

/-- The reader before a pattern. -/
def start : State := ⟨[], [], .plain, none⟩

/-- Adds a token to the branch. -/
def push (s : State) (token : Token) : State := { s with tokens := s.tokens ++ [token] }

/-- Adds two stars that are not a whole component. -/
def pushStars (s : State) : State := (s.push .star).push .star

/-- Whether the reader is inside of a group. -/
def inGroup (s : State) : Bool := !s.groups.isEmpty

/-- Puts the directories of a whole-component double star in the place of the slash before it.
Directories that are already there absorb it. -/
def absorb (s : State) (token : Token) : State :=
  match s.tokens.getLast? with
  | some .leadingDirs | some .allBelow => s
  | _ => { s with tokens := s.tokens.dropLast ++ [token] }

/-- Whether a double star after this character may be a whole component. -/
def opensComponent (s : State) (before : Option Char) : Bool :=
  before == some '/' || s.inGroup && (before == some ',' || before == some '\x7b')

/-- A character outside of stars, escapes and classes. -/
def plainStep (s : State) (c : Char) : Except Fault State :=
  let s := { s with mode := .plain, last := some c }
  match c with
  | '?' => .ok (s.push .any)
  | '[' => .ok { s with mode := .classStart }
  | '\\' => .ok { s with mode := .escape }
  | '\x7b' => .ok { s with groups := ⟨s.tokens, []⟩ :: s.groups, tokens := [] }
  | '\x7d' =>
    match s.groups with
    | [] => .error .unopenedAlternates
    | group :: groups =>
      .ok { s with
        groups := groups
        tokens := group.outer ++ [.alternates (group.branches ++ [s.tokens])] }
  | ',' =>
    match s.groups with
    | [] => .ok (s.push (.literal ','))
    | group :: groups =>
      .ok { s with
        groups := { group with branches := group.branches ++ [s.tokens] } :: groups
        tokens := [] }
  | c => .ok (s.push (.literal c))

/-- A character outside of escapes and classes, with no star pending. -/
def baseStep (s : State) (c : Char) : Except Fault State :=
  if c = '*' then .ok { s with mode := .oneStar s.last, last := some c } else s.plainStep c

/-- Two stars and the character after them. A slash after a whole component belongs to it. -/
def starsStep (s : State) (before : Option Char) (c : Char) : Except Fault State :=
  let slash : State → State := fun s => { s with mode := .plain, last := some '/' }
  if s.tokens.isEmpty then
    if c = '/' then .ok (slash (s.push .leadingDirs)) else s.pushStars.baseStep c
  else if !s.opensComponent before then s.pushStars.baseStep c
  else if c = '/' then .ok (slash (s.absorb .middleDirs))
  else if s.inGroup && (c == ',' || c == '\x7d') then (s.absorb .allBelow).baseStep c
  else s.pushStars.baseStep c

/-- A member of a class after the first one, or its end. -/
def classStep (s : State) (k : ClassState) (c : Char) : Except Fault State :=
  let s := { s with last := some c }
  match c, k.inRange, k.ranges with
  | ']', inRange, ranges =>
    let all := if inRange then ('-', '-') :: ranges else ranges
    .ok { s.push (.oneOf k.negated all.reverse) with mode := .plain }
  | '-', false, _ => .ok { s with mode := .classRest { k with inRange := true } }
  | c, true, (first, _) :: rest =>
    if c < first then .error (.invalidRange first c)
    else .ok { s with mode := .classRest ⟨k.negated, (first, c) :: rest, false⟩ }
  | c, _, ranges => .ok { s with mode := .classRest ⟨k.negated, (c, c) :: ranges, false⟩ }

/-- The first member of a class, which is never its end. -/
def classFirstStep (s : State) (negated : Bool) (c : Char) : State :=
  { s with mode := .classRest ⟨negated, [(c, c)], false⟩, last := some c }

/-- **Reads one character of a pattern.** -/
def step (s : State) (c : Char) : Except Fault State :=
  match s.mode with
  | .plain => s.baseStep c
  | .escape => .ok { s.push (.literal c) with mode := .plain, last := some c }
  | .oneStar before =>
    if c = '*' then .ok { s with mode := .twoStars before, last := some c }
    else (s.push .star).baseStep c
  | .twoStars before => s.starsStep before c
  | .classStart =>
    if c = '!' || c = '^' then .ok { s with mode := .classFirst true, last := some c }
    else .ok (s.classFirstStep false c)
  | .classFirst negated => .ok (s.classFirstStep negated c)
  | .classRest k => s.classStep k c

/-- The tokens of the branch at the end of a pattern. -/
def settle (s : State) : Except Fault (List Token) :=
  match s.mode with
  | .plain => .ok s.tokens
  | .escape => .error .danglingEscape
  | .oneStar _ => .ok (s.push .star).tokens
  | .twoStars before =>
    if s.tokens.isEmpty then .ok (s.push .leadingDirs).tokens
    else if s.opensComponent before then .ok (s.absorb .allBelow).tokens
    else .ok s.pushStars.tokens
  | .classStart | .classFirst _ | .classRest _ => .error .unclosedClass

/-- The end of a pattern: no group may be open. -/
def finish (s : State) : Except Fault (List Token) := do
  let tokens ← s.settle
  if s.inGroup then .error .unclosedAlternates else .ok tokens

end State

end Glob

/-- A pattern that was read. -/
structure Glob where
  tokens : List Glob.Token
deriving Repr, Inhabited

/-- **Reads a pattern.** -/
def Glob.parse (pattern : String) : Except Glob.Fault Glob := do
  let state ← pattern.toList.foldlM Glob.State.step .start
  return ⟨← state.finish⟩

end AmbientBundle

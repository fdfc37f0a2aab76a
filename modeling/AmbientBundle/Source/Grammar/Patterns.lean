import AmbientBundle.Source.Grammar.Names

/-!
# Binding patterns and parameters

Patterns bind names, take arrays and objects apart, and may carry types and default values. Only
the latter two hold anything to look at.

* `bindingPattern`, `bindingElement`: a pattern, and a pattern with a default value.
* `parameters`: the parameters of a function, up to the closing parenthesis.
* `propertyName`: the key of a member.
-/

namespace AmbientBundle.Source.Reading

variable (g : Grammar)

/-- A type after a colon that has been read. -/
def typeHere : Reading Tree := inType g.type

/-- A colon and a type. -/
def typeAnnotation : Reading Tree := inType do
  expect .colon
  g.type

/-- A colon and a type, if there is a colon. -/
def typeAnnotation? : Reading (List Tree) := do
  if ← is .colon then return [← typeAnnotation g] else return []

/-- A mark and a type, if the mark is there. -/
def typeAfter? (m : Token) : Reading (List Tree) := inType do
  if ← eatToken m then return [← g.type] else return []

/-- An expression without a comma, where `in` is an operator. -/
def assignmentIn : Reading Tree := do
  return (← within (fun m => { m with allowIn := true }) g.assignment).tree

/-- The key of a member: its name if it is a word, and what stands in it. -/
def propertyName : Reading (Option String × Tree) := do
  match ← token with
  | .string _ | .number | .bigint => advance; return (none, .none)
  | .word name => advance; return (some name, .none)
  | .mark .lbracket =>
    advance
    let first ← assignmentIn g
    let more ← collect do
      if ← eat .comma then return some (← assignmentIn g) else return none
    expect .rbracket
    return (none, .group (first :: more))
  | .mark .hash =>
    privateName
    return (none, .none)
  | _ => unexpected

/-- A pattern with a default value, if it has one. -/
def bindingElement : Reading Pattern := do
  let left ← g.pattern
  if ← eat .assign then
    let right ← assignmentIn g
    return ⟨left.start, .assigned, .group [left.tree, right]⟩
  return left

/-- An array pattern. -/
def arrayPattern : Reading Tree := do
  expect .lbracket
  let elements ← collect do
    if (← is .rbracket) || (← isToken .eof) then return none
    if ← eat .comma then return some Tree.none
    let tree ← if ← eat .ellipsis then pure (← g.pattern).tree else pure (← bindingElement g).tree
    unless ← is .rbracket do expect .comma
    return some tree
  expect .rbracket
  let _ ← eat .question
  return .group elements

/-- A property of an object pattern. -/
def patternProperty : Reading Tree := do
  if ← eat .ellipsis then return (← g.pattern).tree
  let (name, key) ← propertyName g
  if ← eat .colon then
    return .group [key, (← bindingElement g).tree]
  if name.isNone then unexpected
  if ← eat .assign then return ← assignmentIn g
  return .none

/-- An object pattern. -/
def objectPattern : Reading Tree := do
  expect .lbrace
  let properties ← commaList (is .rbrace) (patternProperty g)
  expect .rbrace
  let _ ← eat .question
  return .group properties

/-- **A binding pattern.** -/
def bindingPattern : Reading Pattern := do
  let start ← start
  match ← token with
  | .word _ =>
    let _ ← bindingName
    return ⟨start, .name, .none⟩
  | .mark .lbracket => return ⟨start, .array, ← arrayPattern g⟩
  | .mark .lbrace => return ⟨start, .object, ← objectPattern g⟩
  | _ => unexpected

/-- A parameter that gathers the rest, after its dots. -/
def restParameter (start : Nat) : Reading Pattern := do
  let pattern ← g.pattern
  let value ← treesIf (eat .assign) do return [← assignmentIn g]
  let type ← typeAnnotation? g
  let _ ← eat .question
  return ⟨start, .rest, .group ([pattern.tree] ++ value ++ type)⟩

/-- A parameter that does not gather the rest. -/
def plainParameter : Reading Pattern := do
  eatParameterModifier
  let pattern ← g.pattern
  let _ ← eat .question
  let type ← typeAnnotation? g
  if ← eat .assign then
    let value := (← g.assignment).tree
    return ⟨pattern.start, .assigned, .group ([pattern.tree] ++ type ++ [value])⟩
  return ⟨pattern.start, pattern.kind, .group ([pattern.tree] ++ type)⟩

/-- One parameter. -/
def parameter : Reading Pattern := do
  let start ← start
  if ← eat .ellipsis then restParameter g start else plainParameter g

/-- Whether a parameter list ends here. -/
def endsParameters : Reading Bool := return (← is .rparen) || (← isToken .eof)

/-- **Parameters**, after the opening parenthesis and up to the closing one. -/
def parameters : Reading (List Pattern) :=
  collect do
    if ← endsParameters then return none
    let p ← parameter g
    unless ← is .rparen do expect .comma
    return some p

/-- The parameter of a constructor; one with a modifier is also a member, and a plain name. -/
def constructorParameter : Reading Pattern := do
  let start ← start
  if ← eat .ellipsis then return ← restParameter g start
  let access ← modifier ["public", "protected", "private", "in", "out"] false
  let override ← modifier ["override"] false
  let readonly ← modifier ["readonly"] false
  let pattern ← plainParameter g
  if (access.isSome || override.isSome || readonly.isSome) &&
      pattern.kind != .name && pattern.kind != .assigned then
    faultAt pattern.start
  return pattern

/-- Parameters of a constructor, after the opening parenthesis and up to the closing one. -/
def constructorParameters : Reading (List Pattern) :=
  collect do
    if ← endsParameters then return none
    let p ← constructorParameter g
    unless ← is .rparen do expect .comma
    return some p

end AmbientBundle.Source.Reading

import AmbientBundle.Source.Grammar.Basic

/-!
# Names, literals and modifiers

Small readers that need no other part of the grammar.
-/

namespace AmbientBundle.Source.Reading

/-- Any word, reserved or not. -/
def anyWord : Reading String := do
  match ← token with
  | .word name => advance; return name
  | _ => fault

/-- The name of a binding. `this` counts as one, and so do `let`, `yield` and `await`. -/
def bindingName : Reading String := do
  match ← token with
  | .word name =>
    if isKeyword name && !(["this", "let", "yield", "await"].contains name) then fault
    advance
    return name
  | _ => fault

/-- A string literal. -/
def literal : Reading Literal := do
  match ← token with
  | .string value =>
    let span := (← get).current.span
    advance
    return ⟨span, value⟩
  | _ => unexpected

/-- A word or a string that names an import or an export; `none` for a string with an unpaired
surrogate. -/
def moduleExportName : Reading (Option String × Bool) := do
  match ← token with
  | .string value => advance; return (value, true)
  | .word name => advance; return (some name, false)
  | _ => unexpected

/-- A private name, at its mark. -/
def privateName : Reading Unit := do
  expect .hash
  let _ ← anyWord

/-- A word, or a private name. -/
def memberName : Reading Unit := do
  if ← is .hash then privateName
  else
    let _ ← anyWord

/-- Names with dots between them; `reserved` tells whether a reserved word may stand after a dot. A
dot that no name follows ends the name. -/
def dottedName (reserved : Bool) : Reading Unit := do
  let _ ← anyWord
  let _ ← collect do
    unless ← eat .dot do return none
    match ← token with
    | .word name =>
      if reserved || name == "await" then advance
      else if name == "yield" then fault
      else
        let _ ← bindingName
      return some ()
    | .mark .hash => fault
    | _ => return none

/-- Whether the token after a modifier can follow one: it stands on the same line and starts a
member, a parameter or a pattern. -/
def followsModifier : Reading Bool := do
  advance
  if ← afterLine then return false
  match ← token with
  | .mark .lbracket | .mark .lbrace | .mark .star | .mark .ellipsis | .mark .hash => return true
  | .word _ | .string _ | .number | .bigint => return true
  | _ => return false

/-- One of the modifiers, if it stands here as one. -/
def modifier (allowed : List String) (exceptStaticBlock : Bool) : Reading (Option String) := do
  match ← token with
  | .word name =>
    if isKeyword name && name != "in" && name != "const" then return none
    unless allowed.contains name do return none
    if exceptStaticBlock && name == "static" && (← peekIs .lbrace) then return none
    attempt do
      if ← followsModifier then return some name else return none
  | _ => return none

/-- Moves past one of the modifiers of a parameter, if a name or a pattern follows it. -/
def eatParameterModifier : Reading Unit := do
  match ← token with
  | .word name =>
    if ["public", "protected", "private", "readonly"].contains name then
      let next ← peek
      if next.isWord || next == .mark .lbrace || next == .mark .lbracket then
        let _ ← modifier ["public", "protected", "private", "readonly"] false
  | _ => return ()

end AmbientBundle.Source.Reading

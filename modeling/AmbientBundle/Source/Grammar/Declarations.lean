import AmbientBundle.Source.Grammar.Classes

/-!
# Declarations

Variables, interfaces, aliases, enumerations and modules, with or without the `declare` modifier.

* `variableStatement`: a variable statement; what does not belong to it is passed over to its end.
* `moduleBody`: items in braces.
* `declarationAfter`: the declaration that a contextual word such as `type` starts.
* `declared`: the declaration after `declare`.
-/

namespace AmbientBundle.Source.Reading

variable (g : Grammar)

/-- A declaration: what it declares, and what stands in it. -/
abbrev Declared := DeclarationKind × Tree

/-! ### Variables -/

/-- A variable with its type and its initial value; in the head of a loop a value may be missing
because `in` or `of` follows. -/
def declarator (inLoop : Bool) : Reading Tree := do
  let pattern ← g.pattern
  if pattern.kind == .name then
    let _ ← eat .bang
  let type ← typeAnnotation? g
  let value ← treesIf
    (return !(inLoop && ((← isWord "in") || (← isWord "of"))) && (← eat .assign)) do
      return [(← g.assignment).tree]
  return .group ([pattern.tree] ++ type ++ value)

/-- The variables of a declaration, after its keyword. A comma may stand before the semicolon. -/
def variableList (inLoop : Bool) : Reading (List Tree) := do
  if ← is .semi then return []
  let first ← declarator g inLoop
  let more ← collect do
    unless ← eat .comma do return none
    if ← is .semi then return none
    return some (← declarator g inLoop)
  return first :: more

/-- Passes over the rest of a statement that does not end where it should. -/
def skipStatement : Reading Unit := do
  if ← eatEnd then return ()
  let _ ← recover (commaExpression g)
  let _ ← collect do
    if ← eatEnd then return none
    advance
    match ← token with
    | .bad _ => return none
    | _ => return some ()

/-- **A variable statement.** -/
def variableStatement : Reading Tree := do
  advance
  let trees ← within (fun m => { m with allowIn := true }) (variableList g false)
  skipStatement g
  return .group trees

/-! ### Interfaces, aliases and enumerations -/

/-- An interface, after `interface`. -/
def interfaceFrom : Reading Declared := do
  let _ ← anyWord
  let typeParams ← typeParameters? g
  let bases ← treesIf (eatWord "extends") (heritage g)
  if ← isWord "extends" then
    let _ ← collect do
      if (← is .lbrace) || (← isToken .eof) then return none
      advance
      return some ()
  let members ← inType (typeMembers g)
  return (.interface, .group [.group typeParams, .group bases, .group members])

/-- A type alias, after `type`. -/
def aliasFrom : Reading Declared := do
  let _ ← anyWord
  let typeParams ← typeParameters? g
  let type ← inType do
    expect .assign
    g.type
  expectEnd
  return (.alias, .group [.group typeParams, type])

/-- A member of an enumeration. A token that cannot follow its name is passed over. -/
def enumMember : Reading Tree := do
  match ← token with
  | .string _ | .number => advance
  | .mark .lbracket =>
    advance
    let _ ← commaExpression g
    expect .rbracket
  | _ =>
    let _ ← anyWord
  if ← eat .assign then return (← g.assignment).tree
  unless (← is .comma) || (← is .rbrace) do advance
  return .none

/-- An enumeration, after `enum`. Commas between its members may be missing. -/
def enumFrom : Reading Declared := do
  let _ ← anyWord
  expect .lbrace
  let members ← collect do
    if ← is .rbrace then return none
    let member ← enumMember g
    let _ ← eat .comma
    return some member
  expect .rbrace
  return (.enumeration, .group members)

/-! ### Modules -/

/-- **Items in braces.** The end of the file closes the braces. -/
def moduleBody : Reading (List Tree) := do
  expect .lbrace
  collect do
    if ← isToken .eof then return none
    if ← eat .rbrace then return none
    return some (← g.item).tree

/-- A module or namespace with a name, after its keyword. -/
def namedModuleFrom (start : Nat) : Reading Declared := do
  let name ← anyWord
  let _ ← collect (optional (eat .dot) anyWord)
  let body ← within (fun m => { m with inType := false }) (moduleBody g)
  let name := ModuleName.ident name
  return (.moduleBlock name, .moduleBlock (← spanFrom start) name body)

/-- A module named by a string, or the global scope; it may be without a body. -/
def ambientModule (start : Nat) : Reading Declared := do
  let name ← do
    if ← isWord "global" then pure (ModuleName.ident (← anyWord))
    else pure (ModuleName.string (← literal).value)
  if ← is .lbrace then
    let body ← moduleBody g
    return (.moduleBlock name, .moduleBlock (← spanFrom start) name body)
  expectEnd
  return (.moduleBlock name, .moduleBlock (← spanFrom start) name [])

/-! ### Contextual words -/

/-- **The declaration that a contextual word starts**, if it starts one. The word is the current
token if `ahead` holds, and has been read already otherwise. -/
def declarationAfter (start : Nat) (name : String) (ahead : Bool) : Reading (Option Declared) := do
  match name with
  | "abstract" =>
    unless ahead || ((← isWord "class") && !(← afterLine)) do return none
    if ahead then advance
    return some (.classLike, ← namedClass g true)
  | "enum" =>
    unless ahead || (← token).isName do return none
    if ahead then advance
    return some (← enumFrom g)
  | "interface" =>
    unless ahead || (← token).isName do return none
    if ahead then advance
    return some (← interfaceFrom g)
  | "module" =>
    if ← afterLine then return none
    if ahead then advance
    match ← token with
    | .string _ => return some (← ambientModule g start)
    | t => if ahead || t.isName then return some (← namedModuleFrom g start) else return none
  | "namespace" =>
    unless ahead || (← token).isName do return none
    if ahead then advance
    return some (← namedModuleFrom g start)
  | "type" =>
    unless ahead || (!(← afterLine) && (← token).isName) do return none
    if ahead then advance
    return some (← aliasFrom g)
  | _ => return none

/-- **The declaration after `declare`**, if there is one. -/
def declared (start : Nat) : Reading (Option Declared) := do
  match ← token with
  | .word "function" => return some (.function, ← namedFunction g true)
  | .word "class" => return some (.classLike, ← namedClass g true)
  | .word "const" =>
    if ← peekIsWord "enum" then
      advance
      advance
      return some (← enumFrom g)
    return some (.binding, ← variableStatement g)
  | .word "var" | .word "let" => return some (.binding, ← variableStatement g)
  | .word "global" => return some (← ambientModule g start)
  | .word name => declarationAfter g start name true
  | _ => return none

end AmbientBundle.Source.Reading

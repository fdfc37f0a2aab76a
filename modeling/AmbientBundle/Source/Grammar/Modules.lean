import AmbientBundle.Source.Grammar.Statements

/-!
# Imports and exports

* `importItem`, `exportItem`: the items that make a file a module.
* `item`: any item of a file or of a module block.
-/

namespace AmbientBundle.Source.Reading

variable (g : Grammar)

/-- The attributes of an import or export, if they follow on the same line. Nothing in them is
looked at. -/
def skipAttributes : Reading Unit := do
  unless ← afterLine do
    if ← eatWord "assert" <||> eatWord "with" then
      let _ ← g.object

/-- The source of an import or export, from `from` on. -/
def fromClause : Reading Literal := do
  expectWord "from"
  let source ← literal
  skipAttributes g
  expectEnd
  return source

/-! ### Imports -/

/-- The right side of an import assignment, from `=` on: another module, or a name. -/
def importAssignmentFrom : Reading Tree := do
  expect .assign
  let tree ← if (← isWord "require") && (← peekIs .lparen) then do
      let start ← start
      advance
      advance
      let target ← literal
      expect .rparen
      pure (Tree.external (← spanFrom start) target)
    else do
      dottedName false
      pure Tree.none
  expectEnd
  return tree

/-- A specifier of an import: what is imported, and the name it gets. A reserved word or a string
needs a name. -/
def importSpecifier : Reading Unit := do
  let start ← start
  let (name, isString) ← moduleExportName
  if isString then
    unless ← eatWord "as" do faultAt start
    let _ ← bindingName
    return ()
  if name == some "type" && (← token).isWord then
    let second ← Reading.start
    let word ← anyWord
    if word == "as" then
      unless (← token).isWord do return ()
      let third ← bindingName
      if third == "as" && (← token).isWord then
        let _ ← bindingName
      return ()
    return ← named second word
  named start (name.getD "")
where
  /-- The rest of a specifier of a name. -/
  named (start : Nat) (name : String) : Reading Unit := do
    if ← eatWord "as" then
      let _ ← bindingName
    else if isReserved name then faultAt start

/-- The names in braces or the namespace of an import, if it has them. -/
def importNames : Reading Unit := do
  if ← eat .star then
    expectWord "as"
    let _ ← bindingName
  else if ← eat .lbrace then
    let _ ← commaList (return (← is .rbrace) || (← isToken .eof)) importSpecifier
    expect .rbrace

/-- Whether a modifier of an import, such as `type`, is followed by a name it modifies. -/
def modifiesName : Reading Bool := do
  unless (← token).isName do return false
  return !(← isWord "from") || (← peekIsWord "from")

/-- The default name of an import after the modifier `type`. The first part tells whether names in
braces come next instead; the second is the name. -/
def importAfterType : Reading (Bool × String) := do
  if (← is .star) || (← is .lbrace) then return (true, "type")
  if ← modifiesName then return (false, ← bindingName)
  if (← isWord "from") && (← peekIs .assign) then return (false, ← anyWord)
  return (false, "type")

/-- The default name of an import after a phase such as `defer`, or whether names in braces come
next instead. -/
def importAfterPhase : Reading Bool := do
  if (← is .star) || (← is .lbrace) then return true
  if ← modifiesName then
    let _ ← bindingName
  return false

/-- An import that starts with a name: an assignment, or a declaration with a default name. -/
def importWithName : Reading (Option Tree) := do
  let first ← bindingName
  let (bare, name) ← if first == "type" then importAfterType else pure (false, first)
  if bare then return none
  if ← is .assign then return some (← importAssignmentFrom)
  if name == "source" || name == "defer" then
    if ← importAfterPhase then return none
  unless ← isWord "from" do expect .comma
  return none

/-- **An import.** -/
def importItem : Reading Item := do
  let start ← start
  if (← peekIs .dot) || (← peekIs .lparen) then
    let e ← commaExpression g
    let _ ← eatEnd
    return ⟨start, .statement, e.tree⟩
  expectWord "import"
  if let .string _ ← token then
    let source ← literal
    skipAttributes g
    let _ ← eatEnd
    return ⟨start, .importDeclaration, .specifier source⟩
  if (← token).isName then
    if let some tree ← importWithName then return ⟨start, .importAssignment false, tree⟩
  importNames
  let source ← fromClause g
  return ⟨start, .importDeclaration, .specifier source⟩

/-! ### Exports -/

/-- A specifier of an export, by the name under which it is exported. -/
def exportSpecifier : Reading (Option String) := do
  let (name, isString) ← moduleExportName
  if !isString && name == some "type" && (← token).isWord then
    let word ← anyWord
    if word == "as" then
      unless (← token).isWord do return some "as"
      let third ← anyWord
      if third == "as" && (← token).isWord then return some (← anyWord)
      return some third
    return ← exported (some word)
  exported name
where
  /-- The name after `as`, if there is one. -/
  exported (name : Option String) : Reading (Option String) := do
    if ← eatWord "as" then return (← moduleExportName).1
    return name

/-- What follows `export default`. -/
def exportDefault : Reading Tree := do
  if (← isWord "abstract") && (← peekIsWordHere "class") then
    advance
    return ← namedClass g false
  if (← isWord "abstract") && (← peekIsWord "interface") then advance
  if ← eatWord "interface" then return (← interfaceFrom g).2
  if ← isWord "class" then return ← namedClass g false
  if (← isWord "async") && (← peekIsWordHere "function") then
    advance
    return ← namedFunction g false
  if ← isWord "function" then return ← namedFunction g false
  let tree ← assignmentIn g
  expectEnd
  return tree

/-- Exported names in braces, from the brace on. -/
def exportNames (start : Nat) : Reading Item := do
  expect .lbrace
  let names ← commaList (return (← is .rbrace) || (← isToken .eof)) exportSpecifier
  expect .rbrace
  if ← isWord "from" then
    return ⟨start, .exportNames names, .specifier (← fromClause g)⟩
  let _ ← eatEnd
  return ⟨start, .exportNames names, .none⟩

/-- An export of everything in another module, from the star on. -/
def exportStar (start : Nat) : Reading Item := do
  expect .star
  unless ← eatWord "as" do
    return ⟨start, .exportAll, .specifier (← fromClause g)⟩
  let _ ← moduleExportName
  return ⟨start, .exportNamespace, .specifier (← fromClause g)⟩

/-- The declaration that `export` stands before, if a keyword starts it. -/
def exportedKeyword? : Reading (Option Declared) := do
  match ← token with
  | .word name => keywordDeclaration? g name
  | _ => return none

/-- The declaration that `export` stands before, if a contextual word starts it. If it cannot be
read to its end, it is not one. -/
def exportedContextual? (start : Nat) : Reading (Option Declared) := do
  match ← token with
  | .word name => attempt (declarationAfter g start name true)
  | _ => return none

/-- The item of an exported declaration. -/
def exportedItem (start inner : Nat) (isDeclared : Bool) (d : Declared) : Item :=
  ⟨start, .exportDeclaration ⟨d.1, isDeclared, inner⟩, d.2⟩

/-- An export, after `export` and `declare`. -/
def exportFrom (start : Nat) : Reading Item := do
  let inner ← Reading.start
  if let some d ← exportedContextual? g inner then return exportedItem start inner false d
  if ← eatWord "import" then
    if (← isWord "type") && (← peek).isName then advance
    let _ ← anyWord
    return ⟨start, .importAssignment true, ← importAssignmentFrom⟩
  if ← eat .assign then
    let e ← commaExpression g
    expectEnd
    return ⟨start, .exportAssignment, e.tree⟩
  if ← eatWord "as" then
    expectWord "namespace"
    let _ ← bindingName
    expectEnd
    return ⟨start, .globalName, .none⟩
  let typeOnly ← eatWord "type"
  unless typeOnly do
    if ← eatWord "default" then return ⟨start, .exportDefault, ← exportDefault g⟩
    if let some d ← exportedKeyword? g then return exportedItem start inner false d
  if ← is .star then return ← exportStar g start
  exportNames g start

/-- **An export.** -/
def exportItem : Reading Item := do
  let start ← start
  expectWord "export"
  let inner ← Reading.start
  if ← eatWord "declare" then
    if let some d ← declared g inner then return exportedItem start inner true d
  exportFrom g start

/-- **An item** of a file or of a module block. -/
def item : Reading Item := do
  if ← isWord "import" then importItem g
  else if ← isWord "export" then exportItem g
  else statementItem g

end AmbientBundle.Source.Reading

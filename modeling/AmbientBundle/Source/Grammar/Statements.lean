import AmbientBundle.Source.Grammar.Declarations

/-!
# Statements

Declaration files rarely hold statements, but they are read all the same. A statement is read as an
item, so that a declaration keeps its head.

* `statementItem`: a statement or a declaration.
-/

namespace AmbientBundle.Source.Reading

variable (g : Grammar)

/-- A condition in parentheses. -/
def condition : Reading Tree := do
  expect .lparen
  let e ← commaExpression g
  expect .rparen
  return e.tree

/-- The words and marks that make `let` a keyword when they follow it. -/
def followsLet : Token → Bool
  | .mark .lbracket | .mark .lbrace => true
  | .word name => !isKeyword name || name == "let" || name == "yield" || name == "await"
  | _ => false

/-- What comes after the first part of the head of a loop: what is walked over, or a condition and
a step. -/
def loopHeadFrom (first : List Tree) : Reading Tree := do
  if ← eatWord "of" then return .group (first ++ [← assignmentIn g])
  if ← eatWord "in" then return .group (first ++ [(← commaExpression g).tree])
  expect .semi
  let test ← if ← eat .semi then pure [] else do
    let e ← commaExpression g
    expect .semi
    pure [e.tree]
  let step ← if ← is .rparen then pure [] else pure [(← commaExpression g).tree]
  return .group (first ++ test ++ step)

/-- The head of a `for` loop, between its parentheses. -/
def loopHead : Reading Tree := do
  let isDeclaration := (← isWord "const") || (← isWord "var") ||
    ((← isWord "let") && followsLet (← peek))
  if isDeclaration then
    let isVar ← isWord "var"
    advance
    let trees ← within (fun m => { m with allowIn := !isVar }) (variableList g true)
    return ← loopHeadFrom g trees
  if ← is .semi then return ← loopHeadFrom g []
  let first ← within (fun m => { m with allowIn := false }) g.assignment
  let more ← collect do
    if ← eat .comma then
      return some (← within (fun m => { m with allowIn := false }) g.assignment).tree
    return none
  loopHeadFrom g (first.tree :: more)

/-- A `for` loop. -/
def forLoop : Reading Tree := do
  expectWord "for"
  let _ ← eatWord "await"
  expect .lparen
  let head ← loopHead g
  expect .rparen
  return .group [head, ← g.statement]

/-- The statements of a case, up to the next case. -/
def caseBody : Reading (List Tree) :=
  collect do
    if (← isWord "case") || (← isWord "default") || (← is .rbrace) || (← isToken .eof) then
      return none
    return some (← g.statement)

/-- The test of a case, which `default` does without, if a case starts here. -/
def caseTest? : Reading (Option (List Tree)) := do
  if ← eatWord "case" then return some [(← commaExpression g).tree]
  if ← eatWord "default" then return some []
  return none

/-- A `switch` statement. -/
def switchStatement : Reading Tree := do
  expectWord "switch"
  let subject ← condition g
  expect .lbrace
  let cases ← collect do
    let some test ← caseTest? g | return none
    expect .colon
    return some (Tree.group (test ++ (← caseBody g)))
  expect .rbrace
  return .group (subject :: cases)

/-- The `catch` clause, if there is one. -/
def catchClause : Reading (List Tree) :=
  treesIf (eatWord "catch") do
    let param ← if ← eat .lparen then do
        let p ← g.pattern
        let type ← typeAnnotation? g
        expect .rparen
        pure [Tree.group (p.tree :: type)]
      else pure []
    return param ++ [← block g]

/-- The `finally` clause, if there is one. -/
def finallyClause : Reading (List Tree) :=
  treesIf (eatWord "finally") do return [← block g]

/-- A `try` statement; one of the two clauses must be there. -/
def tryStatement : Reading Tree := do
  expectWord "try"
  let body ← block g
  let start ← start
  let handler ← catchClause g
  let last ← finallyClause g
  if handler.isEmpty && last.isEmpty then faultAt start
  return .group ([body] ++ handler ++ last)

/-- An `if` statement. -/
def ifStatement : Reading Tree := do
  expectWord "if"
  let test ← condition g
  let onTrue ← g.statement
  let onFalse ← treesIf (eatWord "else") do return [← g.statement]
  return .group ([test, onTrue] ++ onFalse)

/-- A loop that tests last. -/
def doLoop : Reading Tree := do
  expectWord "do"
  let body ← g.statement
  expectWord "while"
  let test ← condition g
  let _ ← eatEnd
  return .parts .loopLast [body, test]

/-- A statement that is told by the word it starts with, if this is one. -/
def keywordStatement? (name : String) : Reading (Option Tree) := do
  match name with
  | "break" | "continue" =>
    advance
    unless ← eatEnd do
      let _ ← bindingName
      expectEnd
    return some .none
  | "debugger" =>
    advance
    expectEnd
    return some .none
  | "do" => return some (← doLoop g)
  | "for" => return some (← forLoop g)
  | "if" => return some (← ifStatement g)
  | "return" =>
    advance
    if ← eatEnd then return some .none
    let e ← commaExpression g
    expectEnd
    return some e.tree
  | "switch" => return some (← switchStatement g)
  | "throw" =>
    advance
    if ← afterLine then fault
    let e ← commaExpression g
    expectEnd
    return some e.tree
  | "try" => return some (← tryStatement g)
  | "with" | "while" =>
    advance
    let test ← condition g
    return some (.group [test, ← g.statement])
  | "catch" | "finally" =>
    let _ ← recover (catchClause g)
    let _ ← recover (finallyClause g)
    return some .none
  | _ => return none

/-- The item of a declaration. -/
def declarationItem (start : Nat) (isDeclared : Bool) (d : Declared) : Item :=
  ⟨start, .declaration ⟨d.1, isDeclared, start⟩, d.2⟩

/-- A declaration that is told by the word it starts with, if this is one. -/
def keywordDeclaration? (name : String) : Reading (Option Declared) := do
  match name with
  | "const" =>
    if ← peekIsWord "enum" then
      advance
      advance
      return some (← enumFrom g)
    return some (.binding, ← variableStatement g)
  | "var" => return some (.binding, ← variableStatement g)
  | "let" =>
    if followsLet (← peek) then return some (.binding, ← variableStatement g) else return none
  | "function" => return some (.function, ← namedFunction g true)
  | "class" => return some (.classLike, ← namedClass g true)
  | "async" =>
    if ← peekIsWordHere "function" then
      advance
      return some (.function, ← namedFunction g true)
    return none
  | _ => return none

/-- The declaration that a name starts, if it is a contextual word. -/
def declarationFromName? (start : Nat) (name : String) : Reading (Option Item) := do
  match name with
  | "declare" => return (← declared g start).map (declarationItem start true)
  | "global" =>
    unless ← is .lbrace do return none
    let body ← moduleBody g
    let name := ModuleName.ident "global"
    let tree : Tree := .moduleBlock (← spanFrom start) name body
    return some (declarationItem start false (.moduleBlock name, tree))
  | _ => return (← declarationAfter g start name false).map (declarationItem start false)

/-- The end of a statement that is an expression. An operator may still follow what was read. -/
def expressionEnd (start : Nat) (e : Expression) : Reading Item := do
  if ← eatEnd then return ⟨start, .statement, e.tree⟩
  if (← token).isBinaryMark then
    return ⟨start, .statement, (← operationFrom g e).tree⟩
  fault

/-- A statement that starts with a name: a label, a declaration after a contextual word, or the
expression itself. -/
def nameItem (start : Nat) (e : Expression) (name : String) : Reading Item := do
  if ← eat .colon then return ⟨start, .statement, ← g.statement⟩
  if name == "interface" && (← afterLine) then
    let _ ← eatEnd
    return ⟨start, .statement, e.tree⟩
  if let some item ← declarationFromName? g start name then return item
  if ← pure (["public", "static", "abstract"].contains name) <&&> eatWord "interface" then
    return declarationItem start false (← interfaceFrom g)
  expressionEnd g start e

/-- A statement that starts with an expression. -/
def expressionItem : Reading Item := do
  let start ← start
  let e ← commaExpression g
  match e.shape with
  | .name name => nameItem g start e name
  | _ => expressionEnd g start e

/-- An import in an expression, at `import` in a place where none can be declared. -/
def importStatement : Reading Tree := do
  unless (← peekIs .lparen) || (← peekIs .dot) do fault
  let e ← commaExpression g
  let _ ← eatEnd
  return e.tree

/-- **A statement or a declaration.** -/
def statementItem : Reading Item := do
  let start ← start
  match ← token with
  | .mark .lbrace => return ⟨start, .statement, ← block g⟩
  | .mark .semi => advance; return ⟨start, .statement, .none⟩
  | .bad offset => faultAt offset
  | .word name =>
    if let some tree ← keywordStatement? g name then return ⟨start, .statement, tree⟩
    if let some d ← keywordDeclaration? g name then return declarationItem start false d
    expressionItem g
  | _ => expressionItem g

/-- A statement in a block, where nothing can be imported or exported. -/
def nestedStatement : Reading Tree := do
  if ← isWord "import" then return ← importStatement g
  if ← isWord "export" then fault
  return (← statementItem g).tree

end AmbientBundle.Source.Reading

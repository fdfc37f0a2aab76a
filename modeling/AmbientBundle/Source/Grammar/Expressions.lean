import AmbientBundle.Source.Grammar.Functions

/-!
# Expressions

From the inside out: literals, names and parentheses; then members, calls and `new`; then the
operators before, after and between operands; then conditionals and assignments.

* `primary`: an expression that no other one is the front of.
* `subscripts`: members and calls after an expression.
* `parenthesized`: parentheses, which may turn out to hold the parameters of an arrow function.
* `assignmentExpression`: an expression without a comma.
-/

namespace AmbientBundle.Source.Reading

variable (g : Grammar)

/-- Expressions with commas between them, where `in` is an operator. -/
def commaExpression : Reading Expression := within (fun m => { m with allowIn := true }) do
  let first ← g.assignment
  let more ← collect do
    if ← eat .comma then return some (← g.assignment).tree else return none
  if more.isEmpty then return first
  return ⟨first.start, .operator, .group (first.tree :: more)⟩

/-- An element of a list of expressions, with or without dots before it. -/
def spreadElement : Reading Tree := do
  let _ ← eat .ellipsis
  assignmentIn g

/-- **Arguments** in parentheses. -/
def arguments : Reading (List Tree) := within (fun m => { m with beforeColon := false }) do
  expect .lparen
  let trees ← commaList (is .rparen) (spreadElement g)
  expect .rparen
  return trees

/-- An array literal. -/
def arrayLiteral : Reading Tree := do
  expect .lbracket
  let trees ← collect do
    if ← is .rbracket then return none
    if ← eat .comma then return some Tree.none
    let tree ← spreadElement g
    unless ← is .rbracket do expect .comma
    return some tree
  expect .rbracket
  return .group trees

/-! ### Object literals -/

/-- The tokens that may follow the key of a property. -/
def followsKey : Token → Bool
  | .mark .lparen | .mark .lbracket | .mark .colon | .mark .comma | .mark .question
  | .mark .assign | .mark .star | .mark .rbrace | .mark .lt | .mark .hash => true
  | .word _ | .string _ | .number | .bigint => true
  | _ => false

/-- A getter in an object literal, from its parameters on: its type comes before its body. -/
def objectGetter : Reading Tree := do
  match ← functionFrom g false with
  | .parts .function [_, _, result, body] => return .group [result, body]
  | tree => return tree

/-- A setter in an object literal, from its parameters on. -/
def objectSetter : Reading Tree := do
  match ← functionFrom g false with
  | .parts .function [_, params, _, body] => return .group [params, body]
  | tree => return tree

/-- A property whose key is the word `name`, when neither a value nor parameters follow it. -/
def propertyAfterWord (name : String) : Reading Tree := do
  let _ ← eat .question
  match ← token with
  | .mark .assign =>
    advance
    assignmentIn g
  | .mark .comma | .mark .rbrace => return .none
  | _ =>
    match name with
    | "get" => return .group [(← propertyName g).2, ← objectGetter g]
    | "set" => return .group [(← propertyName g).2, ← objectSetter g]
    | "async" =>
      let generator ← eat .star
      return .group [(← propertyName g).2, ← functionFrom g generator]
    | _ => unexpected

/-- A property of an object literal. -/
def objectProperty : Reading Tree := do
  if ← eat .ellipsis then return ← assignmentIn g
  if ← eat .star then
    let (_, key) ← propertyName g
    return .group [key, ← functionFrom g true]
  eatParameterModifier
  let (name, key) ← propertyName g
  unless followsKey (← token) do return key
  if ← eat .colon then return .group [key, ← assignmentIn g]
  if (← is .lparen) || (← is .lt) then return .group [key, ← functionFrom g false]
  match name with
  | some name => propertyAfterWord g name
  | none => unexpected

/-- **An object literal.** -/
def objectLiteral : Reading Tree := do
  expect .lbrace
  let trees ← commaList (is .rbrace) (objectProperty g)
  expect .rbrace
  return .group trees

/-! ### Members and calls -/

/-- Whether an expression may start with this token. -/
def startsExpression : Token → Bool
  | .word name =>
    !isKeyword name || ["this", "super", "null", "true", "false", "function", "class", "new",
      "import", "delete", "typeof", "void", "await", "yield", "let"].contains name
  | .string _ | .number | .bigint | .template | .templateHead | .regex => true
  | .mark m =>
    match m with
    | .lbrace | .lparen | .lbracket | .plus | .minus | .tilde | .bang | .plusPlus | .minusMinus
    | .lt | .slash | .slashAssign | .hash | .at => true
    | _ => false
  | _ => false

/-- Type arguments after an expression that is not called: what follows them must not be the
operand of a comparison. -/
def bareTypeArguments? : Reading (Option (List Tree)) := do
  unless ← is .lt do return none
  attempt do
    let types ← typeArguments g
    match ← token with
    | .mark .lt | .mark .gt | .mark .shiftLeft | .mark .plus | .mark .minus | .mark .lparen =>
      return none
    | .template | .templateHead => return none
    | t =>
      if (← afterLine) || t.isBinaryMark || t == .word "instanceof" || t == .word "in" ||
          !startsExpression t then
        return some types
      return none

/-- A call of `callee`, from the parenthesis on. -/
def callFrom (callee : Expression) (types : List Tree) : Reading Expression := do
  let inputs ← arguments g
  return ⟨callee.start, .other, .parts .call [callee.tree, .group types, .group inputs]⟩

/-- A template with a function before it. -/
def taggedTemplate (callee : Expression) (types : List Tree) : Reading Expression := do
  let tree ← template (return (← commaExpression g).tree)
  return ⟨callee.start, .other, .group ([callee.tree] ++ types ++ [tree])⟩

/-- A call or a tagged template with type arguments, if that is what stands here. -/
def genericCall? (noCall : Bool) (callee : Expression) : Reading (Option Expression) := attempt do
  let types ← typeArguments g
  if !noCall && (← is .lparen) then return some (← callFrom g callee types)
  if (← token).isTemplate then return some (← taggedTemplate g callee types)
  fault

/-- The member after `?.`. -/
def optionalMember (object : Expression) (types : List Tree) : Reading Expression := do
  if ← eat .lbracket then
    let index ← commaExpression g
    expect .rbracket
    return ⟨object.start, .target, .parts .optionalIndex [object.tree, .group types, index.tree]⟩
  if ← is .lparen then return ← callFrom g object types
  memberName
  return ⟨object.start, .target, .group (object.tree :: types)⟩

/-- One step after an expression: a member or a call, or nothing. The second part tells whether
there was a step. -/
def subscript (noCall noIndex : Bool) (object : Expression) : Reading (Expression × Bool) := do
  let isWord := match object.shape with
    | .superWord | .importWord => true
    | _ => false
  if !(← afterLine) && (← is .bang) then
    if isWord then fault
    advance
    return ({ object with shape := .target }, true)
  if (!isWord && (← is .lt)) || (← is .shiftLeft) then
    if let some call ← genericCall? g noCall object then return (call, true)
  let types? ← bareTypeArguments? g
  let types := types?.getD []
  if ← eat .questionDot then
    if isWord then fault
    return (← optionalMember g object types, true)
  if ← pure !noIndex <&&> eat .lbracket then
    let index ← commaExpression g
    expect .rbracket
    return (⟨object.start, .target, .group ([object.tree] ++ types ++ [index.tree])⟩, true)
  if ← eat .dot then
    memberName
    return (⟨object.start, .target, .group (object.tree :: types)⟩, true)
  if !noCall && (← is .lparen) then return (← callFrom g object types, true)
  if isWord then fault
  let instantiated : Expression := match types? with
    | some types =>
      ⟨object.start, .instantiated object.tree types, .group (object.tree :: types)⟩
    | none => object
  if (← token).isTemplate then return (← taggedTemplate g instantiated [], true)
  return (instantiated, false)

/-- Steps after an expression, at most as many as the first argument says. -/
def subscriptsUpTo (noCall noIndex : Bool) : Nat → Expression → Reading Expression
  | 0, object => return object
  | n + 1, object => do
    match ← subscript g noCall noIndex object with
    | (next, true) => subscriptsUpTo noCall noIndex n next
    | (last, false) => return last

/-- **Members and calls** after an expression. -/
def subscripts (noCall noIndex : Bool) (object : Expression) : Reading Expression := do
  subscriptsUpTo g noCall noIndex (← fuel) object

/-- A dynamic import or the metadata of the module, after `import`. -/
def importExpression (start : Nat) (noCall : Bool) : Reading Expression := do
  if ← eat .dot then
    match ← anyWord with
    | "meta" => subscripts g noCall false ⟨start, .other, .none⟩
    | "defer" | "source" => subscripts g noCall false ⟨start, .importWord, .none⟩
    | _ => unexpected
  else subscripts g noCall false ⟨start, .importWord, .none⟩

/-! ### Parentheses and arrow functions -/

/-- An item in parentheses: an expression, or a parameter that can be nothing else. -/
structure ParenthesizedItem where
  isParameter : Bool
  spread : Bool
  value : Expression
deriving Inhabited

/-- Checks that an expression can be read as a pattern. -/
def asPattern (e : Expression) : Reading Unit :=
  match e.shape with
  | .name _ | .array | .object | .assignment => return ()
  | _ => faultAt e.start

/-- An arrow function, from its body on. -/
def arrowFrom (start : Nat) (typeParams params result : List Tree) : Reading Expression := do
  let body ← arrowBody g
  return ⟨start, .arrow, .parts .function [.group typeParams, .group params, .group result, body]⟩

/-- Whether a token assigns. -/
def assigns : Token → Bool
  | .mark .assign | .mark .opAssign | .mark .slashAssign => true
  | _ => false

/-- The rest of an assignment to `left`, if an assignment follows it. -/
def assignmentFrom (left : Expression) : Reading Expression := do
  unless assigns (← token) do return left
  match left.shape with
  | .name _ | .array | .object | .target | .instantiated .. =>
    advance
    let right ← g.assignment
    return ⟨left.start, .assignment, .group [left.tree, right.tree]⟩
  | _ => faultAt left.start

/-- The branches of a conditional expression, after the question mark. -/
def branches : Reading (List Tree) := do
  let onTrue ← within (fun m => { m with allowIn := true, inConditional := true, beforeColon := true })
    g.assignment
  expect .colon
  let onFalse ← within (fun m => { m with inConditional := true, beforeColon := false }) g.assignment
  return [onTrue.tree, onFalse.tree]

/-- The expression of an item in parentheses, and whether dots stand before it. A question mark is
left for the item to judge. -/
def parenthesizedValue : Reading (Bool × Expression) := do
  if (← token).isName || ((← is .ellipsis) && (← peek).isName) then
    let spread ← eat .ellipsis
    let value ← g.operation
    if spread then return (true, value)
    return (false, ← assignmentFrom g value)
  let spread ← eat .ellipsis
  return (spread, ← g.assignment)

/-- Whether the question mark after an item makes it an optional parameter. -/
def marksOptional : Reading Bool := do
  unless ← is .question do return false
  match ← peek with
  | .mark .comma | .mark .colon | .mark .rparen | .mark .assign => return true
  | _ => return false

/-- An item in parentheses. -/
def parenthesizedItem : Reading ParenthesizedItem := do
  let start ← start
  modify fun s => { s with arrowStart := some start }
  eatParameterModifier
  let (spread, value) ← parenthesizedValue g
  let optional ← marksOptional
  if optional then
    advance
    match value.shape with
    | .name _ => pure ()
    | _ => faultAt start
  let value ← if ← pure (!optional && !spread) <&&> eat .question then
      pure ⟨value.start, .operator, .group (value.tree :: (← branches g))⟩
    else pure value
  if optional || (← is .colon) then
    asPattern value
    let type ← typeAnnotation? g
    let default ← treesIf (eat .assign) do return [(← g.assignment).tree]
    return ⟨true, spread, { value with tree := .group ([value.tree] ++ type ++ default) }⟩
  return ⟨false, spread, value⟩

/-- The items in parentheses. -/
def parenthesizedItems : Reading (List ParenthesizedItem) :=
  within (fun m => { m with allowIn := true, beforeColon := false }) do
    expect .lparen
    let items ← collect do
      if ← endsParameters then return none
      let item ← parenthesizedItem g
      unless ← is .rparen do expect .comma
      return some item
    expect .rparen
    return items

/-- The items as parameters. -/
def itemsAsParameters (items : List ParenthesizedItem) : Reading (List Tree) :=
  items.mapM fun item => do
    unless item.isParameter do asPattern item.value
    return item.value.tree

/-- An arrow function with a return type in a branch of a conditional, if that is what stands
here. -/
def conditionalArrow? (start : Nat) (items : List ParenthesizedItem) :
    Reading (Option Expression) := do
  unless (← read).inConditional && (← is .colon) do return none
  attempt do
    let result ← returnType g .colon
    expect .arrow
    let params ← itemsAsParameters items
    let arrow ← arrowFrom g start [] params [result]
    if (← read).beforeColon && !(← is .colon) then fault
    return some arrow

/-- The return type of an arrow function, if there is one. -/
def arrowResult? : Reading (Option Tree) := do
  if (← read).beforeColon || !(← is .colon) then return none
  attempt do
    let result ← returnType g .colon
    unless ← is .arrow do fault
    return some result

/-- What items in parentheses are when no arrow follows: the arguments of a call of `async`, or an
expression. -/
def itemsAsExpression (start : Nat) (async : Bool) (items : List ParenthesizedItem) :
    Reading Expression := do
  let trees := items.map fun item => item.value.tree
  if async then return ⟨start, .other, .parts .call [.none, .none, .group trees]⟩
  if items.isEmpty then faultAt start
  match items.find? fun item => item.spread with
  | some item => faultAt item.value.start
  | none => return ⟨start, .target, .group trees⟩

/-- **Parentheses**, or an arrow function if an arrow comes after them. -/
def parenthesized (canBeArrow async : Bool) (start : Nat) : Reading Expression := do
  let items ← parenthesizedItems g
  if let some arrow ← conditionalArrow? g start items then return arrow
  let result ← arrowResult? g
  if (items.any fun item => item.isParameter) || result.isSome || (← is .arrow) then
    if (← afterLine) || !canBeArrow then fault
    expect .arrow
    let params ← itemsAsParameters items
    return ← arrowFrom g start [] params result.toList
  itemsAsExpression start async items

/-- An arrow function with type parameters, after `async`. -/
def genericAsyncArrow (start : Nat) : Reading Expression := do
  let typeParams ← typeParameters g
  expect .lparen
  let params ← parameters g
  expect .rparen
  let result ← optional (is .colon) (returnType g .colon)
  expect .arrow
  arrowFrom g start typeParams (params.map Pattern.tree) result.toList

/-- An asynchronous function, if `async` starts one here. -/
def asyncFunction? (canBeArrow : Bool) : Reading (Option Expression) := do
  let start ← start
  if ← peekIsWordHere "function" then
    advance
    return some ⟨start, .other, ← namedFunction g false⟩
  if canBeArrow && (← peekIs .lt) then
    let arrow ← attempt do
      advance
      return some (← genericAsyncArrow g start)
    if arrow.isSome then return arrow
  let next ← peekLexeme
  if canBeArrow && next.token == .mark .lparen && !next.afterLine then
    advance
    return some (← parenthesized g canBeArrow true start)
  return none

/-- A name, or an arrow function that starts with one. -/
def nameOrArrow (canBeArrow : Bool) : Reading Expression := do
  let start ← start
  let name ← anyWord
  if canBeArrow && name == "async" && !(← afterLine) && (← token).isName then
    let param ← bindingName
    if param == "as" && !(← is .arrow) then
      return ⟨start, .target, ← typeHere g⟩
    expect .arrow
    return ← arrowFrom g start [] [] []
  if ← pure (canBeArrow && !(← afterLine)) <&&> eat .arrow then
    return ← arrowFrom g start [] [] []
  return ⟨start, .name name, .none⟩

/-- An expression that starts with a word. -/
def wordExpression (canBeArrow : Bool) (name : String) : Reading Expression := do
  let start ← start
  match name with
  | "this" | "null" | "true" | "false" => advance; return ⟨start, .other, .none⟩
  | "function" => return ⟨start, .other, ← namedFunction g false⟩
  | "class" => return ⟨start, .other, ← g.classExpression⟩
  | _ =>
    if name == "async" then
      if let some expression ← asyncFunction? g canBeArrow then return expression
    if isKeyword name && name != "let" && name != "await" then fault
    nameOrArrow g canBeArrow

/-- **A primary expression.** -/
def primary : Reading Expression := do
  let start ← start
  let canBeArrow := (← get).arrowStart == some start
  match ← token with
  | .word name => wordExpression g canBeArrow name
  | .string _ | .number | .bigint => advance; return ⟨start, .other, .none⟩
  | .template | .templateHead =>
    return ⟨start, .other, ← template (return (← commaExpression g).tree)⟩
  | .mark .lbracket => return ⟨start, .array, ← arrayLiteral g⟩
  | .mark .lbrace => return ⟨start, .object, ← objectLiteral g⟩
  | .mark .lparen => parenthesized g canBeArrow false start
  | .mark .slash =>
    rescan ['/'] readRegex
    regexHere start
  | .mark .slashAssign =>
    rescan ['/', '='] readRegex
    regexHere start
  | .mark .hash =>
    privateName
    return ⟨start, .other, .none⟩
  | _ => unexpected
where
  /-- The pattern that has just been scanned. -/
  regexHere (start : Nat) : Reading Expression := do
    unless ← isToken .regex do unexpected
    advance
    return ⟨start, .other, .none⟩

/-! ### Operators -/

/-- Type arguments of `new`, if there are any. -/
def newTypeArguments : Reading (List Tree) := do
  let types ← treesOf do
    unless (← is .lt) || (← is .shiftLeft) do return none
    attempt (some <$> typeArguments g)
  return types
where
  /-- The trees of a reader that may yield none. -/
  treesOf (p : Reading (Option (List Tree))) : Reading (List Tree) := return (← p).getD []

/-- `new` and what follows it; `inner` tells whether this is itself the callee of another `new`. -/
def newExpression (inner : Bool) : Reading Expression := do
  let start ← start
  expectWord "new"
  if ← eat .dot then
    unless ← eatWord "target" do unexpected
    return ← subscripts g true false ⟨start, .other, .none⟩
  let callee ← g.callee
  if let .arrow := callee.shape then return callee
  let types ← newTypeArguments g
  if !inner || (← is .lparen) then
    let isBare := !(← is .lparen)
    let inputs ← treesIf (is .lparen) (arguments g)
    let tree : Tree := .parts .call [callee.tree, .group types, .group inputs]
    return ← subscripts g true false ⟨start, if isBare then .bareNew else .other, tree⟩
  return ⟨start, .bareNew, .parts .call [callee.tree, .group types, .none]⟩

/-- An expression with the members after it, but without calls; `inner` as for `newExpression`. -/
def memberExpression (inner : Bool) : Reading Expression := do
  let start ← start
  if ← isWord "new" then return ← newExpression g inner
  if ← eatWord "super" then return ← subscripts g true false ⟨start, .superWord, .none⟩
  if ← eatWord "import" then return ← importExpression g start true
  let object ← primary g
  if let .arrow := object.shape then return object
  match ← bareTypeArguments? g with
  | some types =>
    subscripts g true false
      ⟨start, .instantiated object.tree types, .group (object.tree :: types)⟩
  | none => subscripts g true false object

/-- Type arguments that a call follows, if that is what stands here. -/
def callTypeArguments? : Reading (Option (List Tree)) := do
  unless (← is .lt) || (← is .shiftLeft) do return none
  attempt do
    let types ← typeArguments g
    if ← is .lparen then return some types else return none

/-- **An expression with its members and calls.** -/
def callExpression : Reading Expression := do
  let start ← start
  if ← eatWord "super" then return ← subscripts g false false ⟨start, .superWord, .none⟩
  if ← eatWord "import" then return ← importExpression g start false
  let callee ← memberExpression g false
  match callee.shape with
  | .arrow | .bareNew => return callee
  | _ =>
    let types ← callTypeArguments? g
    if ← is .lparen then
      return ← subscripts g false false (← callFrom g callee (types.getD []))
    return callee

/-- `await` with its operand, or as a name if no operand can follow. -/
def awaitExpression : Reading Expression := do
  let start ← start
  expectWord "await"
  if ← is .star then fault
  if (← atEnd) || !startsExpression (← token) then return ⟨start, .name "await", .none⟩
  return ⟨start, .other, (← g.unary).tree⟩

/-- A type in angle brackets before an operand. -/
def angleAssertion (start : Nat) : Reading Expression := do
  expect .lt
  if ← eatWord "const" then
    expect .gt
    return ⟨start, .target, (← g.unary).tree⟩
  let type ← typeHere g
  expect .gt
  return ⟨start, .target, .parts .assertion [type, (← g.unary).tree]⟩

/-- The operand of a sign or of a word such as `typeof`. If it cannot be read, the operator stands
alone. -/
def signedOperand (start : Nat) : Reading Expression := do
  advance
  let operand ← recover g.unary
  return ⟨start, .operator, (operand.map Expression.tree).getD .none⟩

/-- **An operand** with the operators before and after it. -/
def unaryExpression : Reading Expression := do
  let start ← start
  match ← token with
  | .mark .lt => angleAssertion g start
  | .mark .plusPlus | .mark .minusMinus =>
    advance
    return ⟨start, .operator, (← g.unary).tree⟩
  | .mark .plus | .mark .minus | .mark .tilde | .mark .bang => signedOperand g start
  | .word "delete" | .word "void" | .word "typeof" => signedOperand g start
  | .word "await" => awaitExpression g
  | _ =>
    let operand ← callExpression g
    match operand.shape with
    | .arrow => return operand
    | _ =>
      if ← afterLine then return operand
      if ← eat .plusPlus <||> eat .minusMinus then
        return ⟨start, .operator, operand.tree⟩
      return operand

/-- Whether an operator between operands stands here. -/
def atOperator : Reading Bool := do
  match ← token with
  | .word "in" => return (← read).allowIn
  | .word "instanceof" => return true
  | t => return t.isBinaryMark

/-- The type after `as` or `satisfies`, if one of them stands here; nothing for `as const`. -/
def ascription? : Reading (Option Tree) := do
  if ← afterLine then return none
  if (← isWord "as") && (← peekIsWord "const") then
    advance
    advance
    return some .none
  if (← isWord "as") || (← isWord "satisfies") then
    return some (← inType do
      advance
      g.type)
  return none

/-- What follows an operand: operators with their operands, and ascribed types. -/
def operationFrom (left : Expression) : Reading Expression := do
  let steps ← collect do
    if let some type ← ascription? g then return some (Shape.target, type)
    if ← atOperator then
      advance
      return some (Shape.operator, (← unaryExpression g).tree)
    return none
  match steps with
  | [] => return left
  | _ =>
    let shape := if steps.all fun (s, _) => s matches .target then Shape.target else .operator
    return ⟨left.start, shape, .group (left.tree :: steps.map Prod.snd)⟩

/-- The first operand. If it cannot be read and an operator follows, that operator goes without. -/
def firstOperand : Reading Expression := fun mode s =>
  match unaryExpression g mode s with
  | .ok e t => .ok e t
  | .error fault t =>
    match atOperator mode t with
    | .ok true _ => .ok ⟨s.current.span.start, .other, .none⟩ t
    | _ => .error fault t

/-- **Operands with operators between them.** -/
def operationExpression : Reading Expression := do
  let left ← firstOperand g
  match left.shape with
  | .arrow => return left
  | _ => operationFrom g left

/-- An operation, with the branches of a conditional after it. -/
def conditionalExpression : Reading Expression := do
  let test ← operationExpression g
  match test.shape with
  | .arrow => return test
  | _ =>
    if ← eat .question then
      return ⟨test.start, .operator, .group (test.tree :: (← branches g))⟩
    return test

/-- An arrow function with type parameters, if there is one. -/
def genericArrow? : Reading (Option Expression) := do
  unless ← is .lt do return none
  attempt do
    let typeParams ← typeParameters g
    let arrow ← g.assignment
    match arrow with
    | ⟨start, .arrow, .parts .function [_, params, result, body]⟩ =>
      return some ⟨start, .arrow, .parts .function [.group typeParams, params, result, body]⟩
    | _ => fault

/-- `yield` with its operand, if it has one. -/
def yieldExpression : Reading Expression := do
  let start ← start
  expectWord "yield"
  if (← atEnd) || (!(← is .star) && !startsExpression (← token)) then
    return ⟨start, .operator, .none⟩
  let _ ← eat .star
  return ⟨start, .operator, (← g.assignment).tree⟩

/-- **An expression without a comma.** -/
def assignmentExpression : Reading Expression := do
  if let some arrow ← genericArrow? g then return arrow
  if (← read).inGenerator && (← isWord "yield") then return ← yieldExpression g
  let start ← start
  let token ← token
  let mayStartArrow := token.isPlainWord || token == .mark .lparen || token == .word "yield"
  modify fun s => { s with arrowStart := if mayStartArrow then some start else none }
  let left ← conditionalExpression g
  match left.shape with
  | .arrow | .operator => return left
  | _ => assignmentFrom g left

end AmbientBundle.Source.Reading

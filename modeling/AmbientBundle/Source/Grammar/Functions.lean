import AmbientBundle.Source.Grammar.Types

/-!
# Functions and blocks

* `block`: statements in braces; the end of the file closes every open block.
* `functionFrom`: a function from its type parameters on. A function without a body ends like a
  statement.
-/

namespace AmbientBundle.Source.Reading

variable (g : Grammar)

/-- Statements up to a closing brace, which is read too, or up to the end of the file. -/
def statementsToBrace : Reading (List Tree) :=
  collect do
    if ← isToken .eof then return none
    if ← eat .rbrace then return none
    return some (← g.statement)

/-- **Statements in braces.** -/
def block : Reading Tree := do
  expect .lbrace
  return .group (← statementsToBrace g)

/-- The body of a function, if it has one. -/
def functionBody (generator : Bool) : Reading Tree := do
  if !(← is .lbrace) && (← eatEnd) then return .none
  within (fun m => { m with inGenerator := generator, inConditional := false }) (block g)

/-- **A function**, from its type parameters on. -/
def functionFrom (generator : Bool) : Reading Tree := do
  let typeParams ← typeParameters? g
  expect .lparen
  let params ← parameters g
  expect .rparen
  let result ← optional (is .colon) (returnType g .colon)
  let body ← functionBody g generator
  return .parts .function
    [.group typeParams, .group (params.map Pattern.tree), .group result.toList, body]

/-- A function with its name, after `function`; the name may be missing if it is not `required`. -/
def namedFunction (required : Bool) : Reading Tree := do
  expectWord "function"
  let generator ← eat .star
  if required || (← token).isName then
    let _ ← bindingName
  functionFrom g generator

/-- The body of an arrow function, after the arrow. -/
def arrowBody : Reading Tree := do
  if ← is .lbrace then
    within (fun m => { m with inGenerator := false, inConditional := false }) (block g)
  else
    return (← g.assignment).tree

end AmbientBundle.Source.Reading

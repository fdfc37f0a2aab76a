import AmbientBundle.Source.Grammar.Patterns

/-!
# Types

From the inside out: literals, references, tuples, members and signatures; then arrays, operators,
intersections and unions; then function types and conditional types.

* `importType`: `import('m')` with its qualified name and type arguments.
* `typeArguments`, `typeParameters`: lists in angle brackets.
* `typeMembers`: the body of an interface or of an object type.
* `returnType`: a type, or a predicate on a parameter, after a colon or an arrow.
* `fullType`: any type.
-/

namespace AmbientBundle.Source.Reading

variable (g : Grammar)

/-- Elements up to a closing mark, with commas between them. -/
def listUntil {α : Type} (close : Mark) (element : Reading α) : Reading (List α) :=
  commaList (is close) element

/-- Moves past an opening angle bracket, which may be the first half of `<<`. -/
def openAngle : Reading Unit := do
  if ← is .shiftLeft then
    modify fun s =>
      { s with current := { s.current with token := .mark .lt, span.stop := s.after.pos - 1 }
               after := ⟨'<' :: s.after.rest, s.after.pos - 1⟩ }
  expect .lt

/-- **Type arguments** in angle brackets. -/
def typeArguments : Reading (List Tree) := do
  let types ← inType do
    openAngle
    listUntil .gt g.type
  expect .gt
  return types

/-- A type parameter, with its bound and its default. -/
def typeParameter : Reading Tree := do
  let _ ← collect (modifier ["public", "private", "protected", "readonly", "abstract", "const",
    "override", "in", "out"] false)
  let _ ← anyWord
  let bound ← typeAfter? g (.word "extends")
  let default ← typeAfter? g (.mark .assign)
  return .group (bound ++ default)

/-- **Type parameters** in angle brackets. -/
def typeParameters : Reading (List Tree) := inType do
  expect .lt
  let params ← listUntil .gt (typeParameter g)
  expect .gt
  return params

/-- Type parameters, if there are any. -/
def typeParameters? : Reading (List Tree) := treesIf (is .lt) (typeParameters g)

/-- **A return type**, after `opening`: a type, or a predicate such as `x is T` or
`asserts x is T`. -/
def returnType (opening : Mark) : Reading Tree := inType do
  expect opening
  let asserts := (← isWord "asserts") && (← peek).isName
  if asserts then advance
  let next ← peekLexeme
  let is_ := (← token).isName && next.token == .word "is" && !next.afterLine
  if asserts || is_ then
    let _ ← anyWord
    if is_ then
      advance
      return ← g.type
    return .none
  g.type

/-- The parameters of a signature, after the opening parenthesis and with the closing one. They
cannot have default values. -/
def signatureParameters : Reading Tree := do
  let params ← parameters g
  if params.any fun p => p.kind == .assigned then unexpected
  expect .rparen
  return .group (params.map Pattern.tree)

/-! ### Members -/

/-- The end of a member: a comma, a semicolon, or the end of a line. -/
def memberEnd : Reading Unit := do
  unless ← eat .comma do expectEnd

/-- The rest of a signature, from its type parameters on. -/
def signatureFrom (key : Tree) : Reading Tree := do
  let typeParams ← typeParameters? g
  expect .lparen
  let params ← signatureParameters g
  let result ← optional (is .colon) (returnType g .colon)
  memberEnd
  return .parts .signature [key, .group typeParams, params, .group result.toList]

/-- Whether an index signature starts here. -/
def startsIndexSignature : Reading Bool := lookAhead do
  expect .lbracket
  unless (← token).isName do return false
  advance
  return (← is .colon) || (← is .comma)

/-- An index signature, if there is one. -/
def indexSignature? : Reading (Option Tree) := do
  unless ← startsIndexSignature do return none
  expect .lbracket
  let _ ← anyWord
  unless ← eat .comma do expect .colon
  let key ← typeHere g
  expect .rbracket
  let type ← typeAnnotation? g
  memberEnd
  return some (.group (key :: type))

/-- The key of a member of an interface. -/
def memberKey : Reading Tree := do
  if ← eat .lbracket then
    let key := (← g.assignment).tree
    expect .rbracket
    return key
  match ← token with
  | .string _ | .number | .bigint => advance; return .none
  | _ => memberName; return .none

/-- A getter or a setter without a body, if there is one. -/
def accessorSignature? : Reading (Option Tree) := attempt do
  let getter ← eatWord "get"
  unless getter do expectWord "set"
  let key ← memberKey g
  expect .lparen
  if getter then
    expect .rparen
    let type ← typeAnnotation? g
    memberEnd
    return some (.group (key :: type))
  let params ← parameters g
  if params.any fun p => p.kind == .assigned then unexpected
  expect .rparen
  match params with
  | [] => fault
  | first :: _ =>
    memberEnd
    return some (.group [key, first.tree])

/-- A property or a method without a body. -/
def namedMember (readonly : Bool) : Reading Tree := do
  let key ← memberKey g
  let _ ← eat .question
  if (← is .lparen) || (← is .lt) then
    if readonly then fault
    signatureFrom g key
  else
    let type ← typeAnnotation? g
    memberEnd
    return .group (key :: type)

/-- Whether `new` starts a construct signature here. -/
def startsConstructSignature : Reading Bool := do
  unless ← isWord "new" do return false
  return (← peekIs .lparen) || (← peekIs .lt)

/-- A member of an interface or of an object type. -/
def typeMember : Reading Tree := do
  if (← is .lparen) || (← is .lt) then return ← signatureFrom g .none
  if ← startsConstructSignature then
    advance
    return ← signatureFrom g .none
  let readonly := (← modifier ["readonly"] false).isSome
  if let some tree ← indexSignature? g then return tree
  unless readonly do
    if let some tree ← accessorSignature? g then return tree
  namedMember g readonly

/-- **Members in braces.** -/
def typeMembers : Reading (List Tree) := do
  expect .lbrace
  let members ← collect (optional (return !(← is .rbrace)) (typeMember g))
  expect .rbrace
  return members

/-! ### Simple types -/

/-- The options of an import type: an object under the key `with`. -/
def importOptions : Reading Tree := do
  expect .lbrace
  expectWord "with"
  expect .colon
  let object ← g.object
  let _ ← eat .comma
  expect .rbrace
  return object

/-- **An import type.** If its argument is no string, it refers to the empty module. -/
def importType : Reading Tree := do
  expectWord "import"
  expect .lparen
  let target ← do
    match ← token with
    | .string _ => literal
    | _ =>
      let span := (← get).current.span
      advance
      pure ⟨span, some ""⟩
  let options ← treesIf (return (← eat .comma) && (← is .lbrace)) do return [← importOptions g]
  expect .rparen
  if ← eat .dot then dottedName false
  let arguments ← treesIf (is .lt) (typeArguments g)
  return .importType target arguments options

/-- A reference to a type by name. -/
def typeReference : Reading Tree := do
  eatParameterModifier
  dottedName true
  let angle := (← is .lt) || (← is .shiftLeft)
  let arguments ← treesIf (return angle && !(← afterLine)) (typeArguments g)
  return .group arguments

/-- The type of a value, after `typeof`. -/
def typeQuery : Reading Tree := do
  expectWord "typeof"
  let base ← if ← isWord "import" then importType g else do
    dottedName true
    pure Tree.none
  let arguments ← treesIf (return (← is .lt) && !(← afterLine)) (typeArguments g)
  return .group (base :: arguments)

/-- The pieces of a template after one that is open: an element, then the text up to the next. -/
def templateRest (element : Reading Tree) : Reading (List Tree) :=
  collect do
    match ← token with
    | .templateHead =>
      advance
      let tree ← element
      unless ← is .rbrace do unexpected
      rescan ['}'] readTemplate
      return some tree
    | .template => advance; return none
    | _ => unexpected

/-- A template with elements in its substitutions. -/
def template (element : Reading Tree) : Reading Tree := return .group (← templateRest element)

/-- Whether an element of a tuple has a name. The name is read if it has one. -/
def tupleLabel : Reading Unit := do
  let _ ← attempt do
    let _ ← eat .ellipsis
    let _ ← anyWord
    let _ ← eat .question
    expect .colon
    return some ()

/-- An element of a tuple. -/
def tupleElement : Reading Tree := do
  tupleLabel
  if ← eat .ellipsis then return ← g.type
  let tree ← g.type
  let _ ← eat .question
  return tree

/-- Whether braces hold a mapped type. -/
def startsMappedType : Reading Bool := lookAhead do
  expect .lbrace
  if ← eat .plus <||> eat .minus then return ← isWord "readonly"
  let _ ← eatWord "readonly"
  unless ← eat .lbracket do return false
  unless (← token).isName do return false
  advance
  isWord "in"

/-- A mapped type. -/
def mappedType : Reading Tree := do
  expect .lbrace
  if ← eat .plus <||> eat .minus then expectWord "readonly"
  else
    let _ ← eatWord "readonly"
  expect .lbracket
  let _ ← anyWord
  expectWord "in"
  let keys ← g.type
  let renamed ← treesIf (eatWord "as") do return [← g.type]
  expect .rbracket
  if ← eat .plus <||> eat .minus then expect .question
  else
    let _ ← eat .question
  let type ← treesIf (eat .colon) do return [← g.type]
  expectEnd
  expect .rbrace
  return .group ([keys] ++ renamed ++ type)

/-- The rest of a predicate on `this`, if there is one. -/
def thisPredicate : Reading Tree := do
  if !(← afterLine) && (← isWord "is") then
    advance
    typeHere g
  else return .none

/-- The types that are written as a single word. -/
def typeWords : List String :=
  ["void", "null", "any", "boolean", "bigint", "never", "number", "object", "string", "symbol",
    "unknown", "undefined", "intrinsic"]

/-- A type that starts with a word. -/
def wordType (name : String) : Reading Tree := do
  match name with
  | "import" => importType g
  | "typeof" => typeQuery g
  | "this" => advance; thisPredicate g
  | "true" | "false" => advance; return .none
  | _ =>
    if isKeyword name && !(["void", "null", "yield", "await", "break"].contains name) then fault
    if name == "asserts" && (← peekIsWord "this") then
      advance
      advance
      return ← thisPredicate g
    if typeWords.contains name && !(← peekIs .dot) then
      advance
      return .none
    typeReference g

/-- A type without an operator, and without brackets after it. -/
def simpleType : Reading Tree := do
  match ← token with
  | .word name => wordType g name
  | .string _ | .number | .bigint => advance; return .none
  | .template | .templateHead => template g.type
  | .mark .minus =>
    advance
    match ← token with
    | .number | .bigint => advance; return .none
    | _ => unexpected
  | .mark .lbrace =>
    if ← startsMappedType then mappedType g else return .group (← typeMembers g)
  | .mark .lbracket =>
    advance
    let elements ← listUntil .rbracket (tupleElement g)
    expect .rbracket
    return .group elements
  | .mark .lparen =>
    advance
    let tree ← g.type
    expect .rparen
    return tree
  | _ => unexpected

/-! ### Operators on types -/

/-- A type with the brackets after it: arrays and indexed access. -/
def arrayType : Reading Tree := do
  let base ← simpleType g
  let indices ← collect do
    if ← afterLine then return none
    unless ← eat .lbracket do return none
    if ← eat .rbracket then return some Tree.none
    let index ← g.type
    expect .rbracket
    return some index
  return .group (base :: indices)

/-- The bound of an inferred type, unless it turns out to be the test of a conditional type. -/
def inferBound : Reading (List Tree) := do
  let bound ← attempt do
    expectWord "extends"
    let tree ← g.plainType
    if (← read).testedType || !(← is .question) then return some tree else return none
  return bound.toList

/-- A type with the operators before it. -/
def operatorType : Reading Tree := do
  let _ ← collect do
    match ← token with
    | .word "keyof" | .word "unique" | .word "readonly" => advance; return some ()
    | _ => return none
  if ← eatWord "infer" then
    let _ ← anyWord
    return .group (← inferBound g)
  arrayType g

/-- Constituents with a mark between them, and perhaps before the first. -/
def chain (separator : Mark) (constituent : Reading Tree) : Reading Tree := do
  let _ ← eat separator
  let first ← constituent
  let more ← collect (optional (eat separator) constituent)
  return .group (first :: more)

/-- A union of intersections. -/
def unionType : Reading Tree := chain .pipe (chain .amp (operatorType g))

/-- Whether a parameter starts here; it is read if it does. -/
def skipParameterStart : Reading Bool := do
  eatParameterModifier
  match ← token with
  | .word name =>
    if isKeyword name && name != "this" then return false
    advance
    return true
  | .mark .lbrace | .mark .lbracket => return (← recover g.pattern).isSome
  | _ => return false

/-- Whether a function type starts here. -/
def startsFunctionType : Reading Bool := do
  if ← is .lt then return true
  lookAhead do
    expect .lparen
    if (← is .rparen) || (← is .ellipsis) then return true
    unless ← skipParameterStart g do return false
    match ← token with
    | .mark .colon | .mark .comma | .mark .question | .mark .assign => return true
    | .mark .rparen =>
      advance
      is .arrow
    | _ => return false

/-- A function type, from its type parameters on. -/
def functionType : Reading Tree := do
  let typeParams ← typeParameters? g
  expect .lparen
  let params ← signatureParameters g
  let result ← returnType g .arrow
  return .parts .functionType [.group typeParams, params, result]

/-- A type that is not conditional. -/
def plainType : Reading Tree := do
  if ← startsFunctionType g then return ← functionType g
  if ((← isWord "abstract") && (← peekIsWord "new")) || (← isWord "new") then
    let _ ← eatWord "abstract"
    expectWord "new"
    return ← functionType g
  unionType g

/-- **A type.** -/
def fullType : Reading Tree := within (fun m => { m with testedType := false }) do
  let checked ← plainType g
  if ← afterLine then return checked
  unless ← eatWord "extends" do return checked
  let tested ← within (fun m => { m with testedType := true }) (plainType g)
  expect .question
  let onTrue ← g.type
  expect .colon
  let onFalse ← g.type
  return .group [checked, tested, onTrue, onFalse]

end AmbientBundle.Source.Reading

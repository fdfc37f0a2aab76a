import AmbientBundle.Source.Grammar.Expressions

/-!
# Classes

* `heritage`: the interfaces after `implements`, or the bases of an interface.
* `classMember`: a member with its modifiers.
* `classFrom`: a class from its type parameters on.
-/

namespace AmbientBundle.Source.Reading

variable (g : Grammar)

/-- A base or an interface, with its type arguments. -/
def heritageElement : Reading Tree := do
  let start ← start
  let _ ← anyWord
  let base ← subscripts g true true ⟨start, .other, .none⟩
  let arguments ← treesIf (is .lt) (typeArguments g)
  return .group (base.tree :: arguments)

/-- **Bases or interfaces**, with commas between them, up to the body or the next clause. -/
def heritage : Reading (List Tree) :=
  commaList (return (← is .lbrace) || (← isWord "implements") || (← isWord "extends"))
    (heritageElement g)

/-- A superclass and its type arguments. -/
def superclass : Reading (Tree × List Tree) := do
  let base ← callExpression g
  match base.shape with
  | .instantiated inner arguments => return (inner, arguments)
  | _ =>
    let arguments ← treesIf (is .lt) (typeArguments g)
    return (base.tree, arguments)

/-! ### Members -/

/-- Whether parameters follow the key of a member. -/
def atMethod : Reading Bool := return (← is .lparen) || (← is .lt)

/-- Whether a property ends or goes on here; `lineEnds` tells whether the end of a line ends it. -/
def atProperty (lineEnds : Bool) : Reading Bool := do
  match ← token with
  | .mark .bang | .mark .colon | .mark .assign | .mark .rbrace => return true
  | _ => if lineEnds then atEnd else is .semi

/-- A method, from its type parameters on. -/
def methodFrom (key : Tree) (generator : Bool) : Reading Tree := do
  return .group [key, ← functionFrom g generator]

/-- A property, from its type on. A missing separator after it is passed over. -/
def propertyFrom (key : Tree) (isOptional : Bool) : Reading Tree := do
  unless isOptional do
    let _ ← eat .bang
  let type ← typeAnnotation? g
  let value ← treesIf (eat .assign) do return [← assignmentIn g]
  let _ ← eatEnd
  return .parts .property [key, .group type, .group value]

/-- A constructor, from its parameters on. -/
def constructorFrom : Reading Tree := do
  if ← is .lt then
    if ← peekIs .gt then
      advance
      advance
    else
      let _ ← typeParameters g
  expect .lparen
  let params ← constructorParameters g
  expect .rparen
  if ← is .colon then
    let _ ← typeAnnotation g
  let body ← functionBody g false
  return .group [.group (params.map Pattern.tree), body]

/-- A member whose key is the modifier word that has just been read, if it is one. -/
def memberNamedByModifier? (lineEnds : Bool) : Reading (Option Tree) := do
  if ← atMethod then return some (← methodFrom g .none false)
  if (← atProperty lineEnds) || (← is .question) then
    let isOptional ← eat .question
    if ← atMethod then return some (← methodFrom g .none false)
    return some (← propertyFrom g .none isOptional)
  return none

/-- A block of statements that belongs to the class. -/
def staticBlock : Reading Tree := block g

/-- A member, from its key on. -/
def keyedMember : Reading Tree := do
  let start ← start
  let (name, key) ← propertyName g
  let isOptional ← eat .question
  if ← atMethod then
    if name == some "constructor" then return ← constructorFrom g
    return ← methodFrom g key false
  let generatorNext := (← afterLine) && (← is .star)
  let isAccessor := (name == some "get" || name == some "set") && !(← atProperty false) &&
    !generatorNext
  if !isAccessor && (← atProperty true) then
    if name == some "constructor" then faultAt start
    return ← propertyFrom g key isOptional
  if name == some "async" && !(← afterLine) then
    let _ ← modifier ["override"] false
    let generator ← eat .star
    let (_, key) ← propertyName g
    let _ ← eat .question
    return ← methodFrom g key generator
  if isAccessor then
    let (_, key) ← propertyName g
    return ← methodFrom g key false
  unexpected

/-- Whether `accessor` stands here as a modifier. -/
def eatAccessor : Reading Unit := do
  if ← isWord "accessor" then
    let _ ← attempt do
      if ← followsModifier then return some () else return none

/-- A member, after `declare`, the access modifier and a leading `static`. -/
def memberAfterStatic (isStatic hasAccess : Bool) : Reading Tree := do
  let modifiers ← collect (modifier ["abstract", "readonly", "override", "static"] true)
  eatAccessor
  if (isStatic || modifiers.contains "static") && (← is .lbrace) then return ← staticBlock g
  if (← isWord "static") && (← peekIs .lbrace) then
    advance
    return ← staticBlock g
  unless hasAccess || modifiers.contains "abstract" || modifiers.contains "override" do
    if let some tree ← indexSignature? g then return tree
  if ← eat .star then
    let (_, key) ← propertyName g
    return ← methodFrom g key true
  keyedMember g

/-- **A member of a class.** -/
def classMember : Reading Tree := do
  let declared ← eatWord "declare"
  let access ← modifier ["public", "protected", "private", "in", "out"] false
  let declared := (← do if declared then pure true else eatWord "declare")
  if declared then
    if let some tree ← memberNamedByModifier? g true then return tree
  let isStatic ← eatWord "static"
  if isStatic then
    unless ← is .lbrace do
      if let some tree ← memberNamedByModifier? g false then return tree
  memberAfterStatic g isStatic access.isSome

/-- The members of a class, up to the closing brace. -/
def classMembers : Reading (List Tree) :=
  collect do
    if (← is .rbrace) || (← isToken .eof) then return none
    if ← eat .semi then return some Tree.none
    return some (← classMember g)

/-- The tree of a class. A superclass named after the interfaces counts if none is named before
them. -/
def classTree (typeParams : List Tree) (base : Option (Tree × List Tree)) (interfaces : List Tree)
    (late : Option (Tree × List Tree)) (members : List Tree) : Tree :=
  match base, late with
  | none, some (superTree, arguments) =>
    .parts .classExtendedLate
      [.group typeParams, .group interfaces, superTree, .group arguments, .group members]
  | none, none =>
    .parts .classLike [.group typeParams, .none, .none, .group interfaces, .group members]
  | some (superTree, arguments), _ =>
    .parts .classLike
      [.group typeParams, superTree, .group arguments, .group interfaces, .group members]

/-- **A class**, from its type parameters on. -/
def classFrom : Reading Tree := do
  let typeParams ← typeParameters? g
  let base ← optional (eatWord "extends") (superclass g)
  if ← pure base.isSome <&&> eat .comma then
    let _ ← commaList (return (← is .lbrace) || (← isWord "implements")) (superclass g)
  if ← eatWord "extends" then
    let _ ← superclass g
  let interfaces ← treesIf (eatWord "implements") (heritage g)
  if ← eatWord "implements" then
    let _ ← heritage g
  let late ← optional (eatWord "extends") (superclass g)
  expect .lbrace
  let members ← classMembers g
  expect .rbrace
  return classTree typeParams base interfaces late members

/-- A class with its name, at `class`; the name may be missing if it is not `required`. -/
def namedClass (required : Bool) : Reading Tree := do
  expectWord "class"
  if required || (← token).isName then
    let _ ← bindingName
  classFrom g

end AmbientBundle.Source.Reading

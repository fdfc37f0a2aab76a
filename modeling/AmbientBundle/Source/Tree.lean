import AmbientBundle.Source.Token

/-!
# The tree of a declaration file

Bundling looks at few things in a file: references to other modules, module declarations, and the
heads of its top-level items. The tree keeps these and how they nest; whatever else stands in the
file only groups them.

* `Tree`: references and module declarations, with the groups around them.
* `Form`: the groups whose parts are not visited in the order in which they are written.
* `Item`: a top-level item, with what its head says.
-/

namespace AmbientBundle.Source

/-- The name of a module declaration: an identifier (of `A.B.C` the first one), or a string. -/
inductive ModuleName where
  | ident (name : String)
  | string (value : Option String)
deriving Repr, DecidableEq, Inhabited

/-- How the parts of a construct are laid out. A construct is listed here if its visit does not
follow the order of its text; `group` is every other one. -/
inductive Form where
  | group
  /-- Type parameters, superclass, its type arguments, interfaces, members. -/
  | classLike
  /-- A class whose superclass is named after its interfaces: type parameters, interfaces,
  superclass, its type arguments, members. -/
  | classExtendedLate
  /-- Type parameters, parameters, result, body. -/
  | function
  /-- Key, type parameters, parameters, result of a member without a body. -/
  | signature
  /-- Type parameters, parameters, result of a type. -/
  | functionType
  /-- Key, type, initial value of a class member. -/
  | property
  /-- Callee, type arguments, arguments. -/
  | call
  /-- Object, type arguments, index after `?.`. -/
  | optionalIndex
  /-- A type in angle brackets, and the expression after it. -/
  | assertion
  /-- Body and condition of a loop that tests last. -/
  | loopLast
deriving Repr, DecidableEq, Inhabited

/-- **The order of a visit** of the parts of a construct, which are given as they are written. -/
def Form.visit {α : Type} : Form → List α → List α
  | .classLike, [params, superclass, arguments, interfaces, members] =>
    [members, superclass, params, arguments, interfaces]
  | .classExtendedLate, [params, interfaces, superclass, arguments, members] =>
    [members, superclass, params, arguments, interfaces]
  | .function, [params, inputs, result, body] => [inputs, body, params, result]
  | .signature, [key, params, inputs, result] => [key, inputs, result, params]
  | .functionType, [params, inputs, result] => [inputs, params, result]
  | .property, [key, type, value] => [key, value, type]
  | .call, [callee, types, arguments] => [callee, arguments, types]
  | .optionalIndex, [object, types, index] => [object, index, types]
  | .assertion, [type, value] => [value, type]
  | .loopLast, [body, test] => [test, body]
  | _, parts => parts

/-- **The tree of a declaration file.** -/
inductive Tree where
  /-- `require('m')` on the right of an import assignment. -/
  | external (span : Span) (target : Literal)
  /-- The source of an import or export declaration. -/
  | specifier (target : Literal)
  /-- `import('m')` in a type, with its type arguments and its options. -/
  | importType (target : Literal) (arguments options : List Tree)
  /-- A module or namespace declaration. -/
  | moduleBlock (span : Span) (name : ModuleName) (body : List Tree)
  /-- Anything else, by its parts. -/
  | parts (form : Form) (children : List Tree)
deriving Repr, Inhabited

/-- Nothing to look at. -/
def Tree.none : Tree := .parts .group []

/-- Parts in the order of their text. -/
def Tree.group (children : List Tree) : Tree := .parts .group children

/-- What a top-level declaration declares. -/
inductive DeclarationKind where
  | classLike | function | binding | interface | alias | enumeration
  /-- A module declaration by its name. -/
  | moduleBlock (name : ModuleName)
deriving Repr, DecidableEq, Inhabited

/-- The head of a declaration: its kind, whether it has the `declare` modifier, and where it
starts. -/
structure Head where
  kind : DeclarationKind
  declared : Bool
  start : Nat
deriving Repr, DecidableEq, Inhabited

/-- The kinds of top-level items, by what bundling asks of them. -/
inductive ItemKind where
  | statement
  | declaration (head : Head)
  | importDeclaration
  /-- `import a = …`, exported or not. -/
  | importAssignment (exported : Bool)
  | exportDeclaration (head : Head)
  | exportDefault
  /-- `export = …` -/
  | exportAssignment
  /-- `export { … }`, by the names under which things are exported. -/
  | exportNames (names : List (Option String))
  | exportAll
  /-- `export * as n from …`. -/
  | exportNamespace
  /-- `export as namespace n` -/
  | globalName
deriving Repr, DecidableEq, Inhabited

/-- **A top-level item**: where it starts, what it is, and what stands in it. -/
structure Item where
  start : Nat
  kind : ItemKind
  tree : Tree
deriving Repr, Inhabited

/-- Whether an item imports or exports. -/
def ItemKind.isModular : ItemKind → Bool
  | .statement | .declaration _ => false
  | _ => true

end AmbientBundle.Source

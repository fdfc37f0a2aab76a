import AmbientBundle.ModuleId

/-!
# Resolving references

A reference inside a module is resolved to the identifier of the module it means, or left as it is
written. A caller may put a hook in front of both the resolution of references and the choice of a
module's own identifier; an empty answer of a hook counts as none.

* `Resolver.resolve`: what a specifier means.
* `blockId`: the identifier of a module's block.
-/

namespace AmbientBundle

/-- What a hook on references is told. -/
structure ImportRequest where
  /-- The specifier as written. -/
  imported : String
  /-- The identifier of the module it stands in. -/
  current : String
  /-- Whether an ambient module of that name is declared. -/
  isDeclared : Bool
deriving Repr, DecidableEq, Inhabited

/-- What a hook on identifiers is told. -/
structure IdRequest where
  declarationPath : Path
  /-- The path of the module below the base directory, without its suffix. -/
  relative : String
  /-- The identifier as computed. -/
  current : String
deriving Repr, DecidableEq, Inhabited

/-- How references are resolved: the ambient modules that are declared, a prefix for
identifiers, and a hook. -/
structure Resolver where
  declared : List String
  idPrefix : Option String
  hook : Option (ImportRequest → Option String)

/-- An answer that is not empty. -/
def nonEmpty (answer : Option String) : Option String := answer.filter (· != "")

/-- An identifier after a prefix, if that is given and not empty. -/
def withIdPrefix (idPrefix : Option String) (id : String) : String :=
  match nonEmpty idPrefix with
  | some front => front ++ "/" ++ id
  | none => id

namespace Resolver

/-- What the hook is told of a specifier in a module. -/
def request (r : Resolver) (specifier current : String) : ImportRequest :=
  ⟨specifier, current, r.declared.contains specifier⟩

/-- The calls of the hook that resolving a specifier makes: one, if there is a hook. -/
def hookCalls (r : Resolver) (specifier current : String) : List ImportRequest :=
  match r.hook with
  | some _ => [r.request specifier current]
  | none => []

/-- The meaning without a hook: only specifiers that start with a dot are resolved, and the prefix
is left out for declared ambient modules. -/
def resolvePlain (r : Resolver) (specifier current : String) : Option String :=
  if specifier.toList.head? == some '.' then
    let id := ModuleId.resolve current specifier
    some (if r.declared.contains specifier then id else withIdPrefix r.idPrefix id)
  else none

/-- **What a specifier means in a module**, or `none` to leave it as it is written. -/
def resolve (r : Resolver) (specifier current : String) : Option String :=
  match nonEmpty (r.hook.bind fun hook => hook (r.request specifier current)) with
  | some answer => some answer
  | none => r.resolvePlain specifier current

end Resolver

/-- **The identifier of a module's block**: the hook's answer as it is, or else the computed
identifier after the prefix. -/
def blockId (request : IdRequest) (hook : Option (IdRequest → Option String))
    (idPrefix : Option String) : String :=
  match nonEmpty (hook.bind fun hook => hook request) with
  | some answer => answer
  | none => withIdPrefix idPrefix request.current

end AmbientBundle

import AmbientBundle.Edit
import AmbientBundle.Resolver

/-!
# The rules of bundling

Inside a bundle, top-level declarations lose their `declare` modifier, and references are written
as the resolver says, in single quotes.
-/

namespace AmbientBundle

/-- **The replacer of bundling** for a module. -/
def Resolver.rules (r : Resolver) (current : String) : Replacer := fun node =>
  match node with
  | .declareKeyword => some ""
  | .external _ =>
    (node.referenced?.bind (r.resolve · current)).map fun id => "require('" ++ id ++ "')"
  | .specifier _ | .importType _ =>
    (node.referenced?.bind (r.resolve · current)).map fun id => "'" ++ id ++ "'"
  | .moduleBlock _ => none

/-- The calls of the hook during one visit of a file. -/
def Resolver.visitCalls (r : Resolver) (d : Declaration) (current : String) : List ImportRequest :=
  (d.visits (r.rules current)).flatMap fun visit =>
    match visit.node.referenced? with
    | some specifier => r.hookCalls specifier current
    | none => []

end AmbientBundle

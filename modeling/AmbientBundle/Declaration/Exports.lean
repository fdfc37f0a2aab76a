import AmbientBundle.Declaration.Basic

/-!
# What a module exports

The alias of the main module depends on whether the module has a default export and whether it has
other exports.
-/

namespace AmbientBundle

open Source

/-- The kinds of exports that a module has. -/
structure ExportShape where
  hasDefault : Bool
  hasNamed : Bool
deriving Repr, DecidableEq, Inhabited

namespace ExportShape

/-- No exports. -/
def empty : ExportShape := ⟨false, false⟩

/-- A default export alone. -/
def onlyDefault : ExportShape := ⟨true, false⟩

/-- Named exports alone. -/
def onlyNamed : ExportShape := ⟨false, true⟩

/-- The exports of two modules together. -/
def merge (a b : ExportShape) : ExportShape :=
  ⟨a.hasDefault || b.hasDefault, a.hasNamed || b.hasNamed⟩

/-- The export under a name. -/
def ofName (name : Option String) : ExportShape :=
  if name == some "default" then onlyDefault else onlyNamed

/-- The exports of an item. -/
def ofItem (kind : ItemKind) : ExportShape :=
  match kind with
  | .exportDefault | .exportAssignment => onlyDefault
  | .exportDeclaration _ | .exportAll | .exportNamespace | .importAssignment true => onlyNamed
  | .exportNames names => (names.map ofName).foldl merge empty
  | _ => empty

/-- **The exports of a declaration file.** -/
def of (d : Declaration) : ExportShape :=
  (d.items.map fun item => ofItem item.kind).foldl merge empty

end ExportShape

end AmbientBundle

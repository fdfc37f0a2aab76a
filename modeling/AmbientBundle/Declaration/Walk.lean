import AmbientBundle.Declaration.Basic
import AmbientBundle.Text.Blank
import AmbientBundle.Text.Cut

/-!
# Visiting a declaration file

A visit offers some places of a file to a replacer, each with the stretch of text it covers. Where
the replacer gives a replacement, what stands inside is not visited.

* `Node`: what is offered.
* `declareSpan?`: the `declare` modifier of a top-level item, with the blanks after it.
* `Declaration.visits`: all visits, in order.
* `Declaration.ambientNames`: the names of the ambient modules that a file declares.
-/

namespace AmbientBundle

open Source Text

/-- What is offered to a replacer. -/
inductive Node where
  /-- `require('m')` on the right of an import assignment. -/
  | external (target : Literal)
  /-- The source of an import or export. -/
  | specifier (target : Literal)
  /-- The argument of an import type. -/
  | importType (target : Literal)
  /-- The `declare` modifier of a top-level item. -/
  | declareKeyword
  | moduleBlock (name : ModuleName)
deriving Repr, DecidableEq, Inhabited

/-- The module that a place refers to, if it does and its literal has a value. -/
def Node.referenced? : Node → Option String
  | .external target | .specifier target | .importType target => target.value
  | .declareKeyword | .moduleBlock _ => none

/-- A replacer: the text to put in the place of a node, if any. -/
abbrev Replacer := Node → Option String

/-- One visit: what was offered, where it stands, and the replacer's answer. -/
structure Visit where
  node : Node
  span : Span
  replacement : Option String
deriving Repr, DecidableEq, Inhabited

/-- Offers a node. -/
def Replacer.offer (r : Replacer) (node : Node) (span : Span) : Visit := ⟨node, span, r node⟩

mutual

/-- The visits of a tree, in order. -/
def Tree.visits (r : Replacer) : Tree → List Visit
  | .external span target => [r.offer (.external target) span]
  | .specifier target => [r.offer (.specifier target) target.span]
  | .importType target arguments options =>
    let visit := r.offer (.importType target) target.span
    let inside := (Tree.visitsEach r arguments).flatten
    if visit.replacement.isSome then visit :: inside
    else visit :: inside ++ (Tree.visitsEach r options).flatten
  | .moduleBlock span name body =>
    let visit := r.offer (.moduleBlock name) span
    if visit.replacement.isSome then [visit]
    else visit :: (Tree.visitsEach r body).flatten
  | .parts form children => (form.visit (Tree.visitsEach r children)).flatten

/-- The visits of each tree of a list. -/
def Tree.visitsEach (r : Replacer) : List Tree → List (List Visit)
  | [] => []
  | t :: ts => Tree.visits r t :: Tree.visitsEach r ts

end

/-! ### The `declare` modifier -/

/-- Whether the modifier of a declaration can be dropped: string-named modules and the global scope
keep theirs. -/
def Source.Head.losesDeclare (head : Head) : Bool :=
  head.declared &&
    match head.kind with
    | .moduleBlock (.string _) => false
    | .moduleBlock (.ident name) => name != "global"
    | _ => true

/-- The word `declare` at an offset, with the spaces and tabs after it; there must be one. -/
def declareAt? (source : List Char) (start : Nat) : Option Span := do
  let stop := start + 7
  let rest ← dropBytes? stop source
  let blanks := (rest.takeWhile fun c => c == ' ' || c == '\t').length
  if blanks == 0 then none else some ⟨start, stop + blanks⟩

/-- Where the text goes on after `export` and the blanks after it; unmoved if there is no `export`
or no blank. -/
def afterExport (source : List Char) (start : Nat) : Nat :=
  match (dropBytes? start source).bind (cutFront? "export".toList) with
  | some rest =>
    let trimmed := trimStart rest
    if trimmed.length < rest.length then byteLength source - byteLength trimmed else start
  | none => start

/-- The word `declare` at the end of what stands before a declaration. -/
def declareBefore? (source : List Char) (itemStart declarationStart : Nat) : Option Span := do
  let before ← slice? itemStart declarationStart source
  let front ← cutBack? "declare".toList (trimEnd before)
  match front.getLast? with
  | some c => if isBlank c then declareAt? source (itemStart + byteLength front) else none
  | none => declareAt? source (itemStart + byteLength front)

/-- The declaration of an item, if the item is one, exported or not. -/
def Source.ItemKind.head? : ItemKind → Option Head
  | .declaration head | .exportDeclaration head => some head
  | _ => none

/-- **The `declare` modifier of a top-level item** with the blanks after it, if it has one that can
be dropped. -/
def declareSpan? (source : List Char) (item : Item) : Option Span := do
  let head ← item.kind.head?
  guard head.losesDeclare
  let start := afterExport source item.start
  let rest ← dropBytes? start source
  if Text.startsWith "declare".toList rest then declareAt? source start
  else declareBefore? source item.start head.start

/-! ### Whole files -/

namespace Declaration

/-- The visits of a top-level item: its modifier first, then what stands in it. -/
def itemVisits (r : Replacer) (source : List Char) (item : Item) : List Visit :=
  ((declareSpan? source item).map (r.offer .declareKeyword)).toList ++ Tree.visits r item.tree

/-- **The visits of a file**, in order. -/
def visits (d : Declaration) (r : Replacer) : List Visit :=
  d.items.flatMap (itemVisits r d.source.toList)

/-- What a replacer that never replaces is offered. -/
def nodes (d : Declaration) : List Node := (d.visits fun _ => none).map Visit.node

/-- The name of an ambient module, if a node declares one. -/
def ambientName? : Node → Option String
  | .moduleBlock (.string name) => name
  | _ => none

/-- **The names of the ambient modules that a file declares**, nested ones included. -/
def ambientNames (d : Declaration) : List String := d.nodes.filterMap ambientName?

end Declaration

end AmbientBundle

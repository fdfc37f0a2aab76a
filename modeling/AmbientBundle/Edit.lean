import AmbientBundle.Declaration.Walk

/-!
# Edits

An edit replaces a stretch of a text. Edits are applied from left to right; one that starts before
the end of an edit already applied, or ends past the text, is dropped.

* `applyEdits?`: the edited text; `none` if an edit that is kept cuts through a character.
* `Declaration.edits`, `Declaration.replace?`: the edits of a visit, and the text after them.
-/

namespace AmbientBundle

open Source Text

/-- A replacement of a stretch of text. -/
structure Edit where
  span : Span
  text : String
deriving Repr, DecidableEq, Inhabited

/-- The text from an offset on, with the edits that are kept. -/
def applyFrom? (source : List Char) (offset : Nat) : List Edit → Option (List Char)
  | [] => dropBytes? offset source
  | edit :: edits =>
    if edit.span.start < offset || byteLength source < edit.span.stop then
      applyFrom? source offset edits
    else do
      let before ← slice? offset edit.span.start source
      let after ← applyFrom? source edit.span.stop edits
      return before ++ edit.text.toList ++ after

/-- **A text with edits applied**, or `none` if one of those that are kept does not fall between
characters. -/
def applyEdits? (source : String) (edits : List Edit) : Option String :=
  (applyFrom? source.toList 0 edits).map String.ofList

/-- The edit that a visit asks for. -/
def Visit.edit? (v : Visit) : Option Edit := v.replacement.map fun text => ⟨v.span, text⟩

namespace Declaration

/-- The edits that a replacer asks for. -/
def edits (d : Declaration) (r : Replacer) : List Edit := (d.visits r).filterMap Visit.edit?

/-- The text of a file after the edits of a replacer. -/
def replace? (d : Declaration) (r : Replacer) : Option String := applyEdits? d.source (d.edits r)

end Declaration

end AmbientBundle

import AmbientBundle.Source.Grammar.Levels
import AmbientBundle.Text.Offset

/-!
# Declaration files

A declaration file is its text together with the items read from it. A leading byte-order mark is
not read: offsets count from after it, while the text keeps it.

* `Declaration.parse`: reads a text, or says where it stops making sense.
* `Declaration.isModule`: whether the file imports or exports anything.
-/

namespace AmbientBundle

open Source Text

/-- A declaration file. -/
structure Declaration where
  source : String
  items : List Item
deriving Inhabited

namespace Declaration

/-- The byte-order mark. -/
def byteOrderMark : Char := '﻿'

/-- A text without the byte-order mark at its front. -/
def dropMark : List Char → List Char
  | c :: cs => if c = byteOrderMark then cs else c :: cs
  | [] => []

theorem dropMark_eq_self {text : List Char} (h : text.head? ≠ some byteOrderMark) :
    dropMark text = text := by
  cases text with
  | nil => rfl
  | cons c cs => exact if_neg fun hc => h (congrArg some hc)

/-- **Reads a declaration file**, or gives the place of the fault. -/
def parse (source : String) : Except LineColumn Declaration :=
  match readItems (dropMark source.toList) with
  | .ok items => .ok ⟨source, items⟩
  | .error fault => .error (.ofOffset source.toList fault.offset)

/-- Whether a file is a module rather than a script: one of its items imports or exports. -/
def isModule (d : Declaration) : Bool := d.items.any fun item => item.kind.isModular

end Declaration

end AmbientBundle

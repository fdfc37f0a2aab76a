import AmbientBundle.Source.Grammar.Modules

/-!
# The grammar, level by level

The readers call each other through a `Grammar`. A level is the grammar whose readers call those of
the level below, so a level is used up with each step of nesting. Every such step reads a token, and
a file with `n` characters has at most `n` tokens before its end: `n + 1` levels are always enough.
-/

namespace AmbientBundle.Source

open Reading

/-- **The grammar with a number of levels.** -/
def Grammar.level : Nat → Grammar
  | 0 => .exhausted
  | n + 1 =>
    { type := fun m s => fullType (level n) m s
      plainType := fun m s => Reading.plainType (level n) m s
      assignment := fun m s => assignmentExpression (level n) m s
      operation := fun m s => operationExpression (level n) m s
      unary := fun m s => unaryExpression (level n) m s
      callee := fun m s => memberExpression (level n) true m s
      pattern := fun m s => bindingPattern (level n) m s
      object := fun m s => objectLiteral (level n) m s
      classExpression := fun m s => namedClass (level n) false m s
      statement := fun m s => nestedStatement (level n) m s
      item := fun m s => Reading.item (level n) m s }

/-- The items of a file. -/
def Reading.items (g : Grammar) : Reading (List Item) :=
  collect (optional (return !(← isToken .eof)) g.item)

/-- The text after a first line that starts with `#!`, and its offset. -/
def skipShebang : List Char → Cursor
  | '#' :: '!' :: cs =>
    let line := cs.takeWhile fun c => !endsLine c
    ⟨cs.drop line.length, 2 + Text.byteLength line⟩
  | cs => ⟨cs, 0⟩

/-- **Reads a text as a sequence of items**, or says where it stops making sense. -/
def readItems (text : List Char) : Except Fault (List Item) :=
  let (first, after) := nextLexeme false true (skipShebang text)
  match items (.level (text.length + 1)) .initial ⟨first, after, 0, none⟩ with
  | .ok items _ => .ok items
  | .error fault _ => .error fault

end AmbientBundle.Source

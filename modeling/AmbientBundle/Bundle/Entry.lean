import AmbientBundle.Compiler.Settings
import AmbientBundle.Declaration.Exports
import AmbientBundle.Text.Cut

/-!
# The entries of a bundle

A bundle is a sequence of entries: references to other files, blocks that declare a module, the
block that gives the main module its name, and declaration files taken over as they are.

* `indentLines`: indentation of the lines after the first one.
* `moduleBlock`, `aliasBlock`: the text of a block.
* `Entry.text`: the text of an entry.
-/

namespace AmbientBundle

open Text

/-- The line end and the indentation of a bundle. -/
structure Layout where
  eol : String
  indent : String
deriving Repr, DecidableEq, Inhabited

/-- What is put between a line end and the text after it: the indentation, if there is more text on
the same line. -/
def indentBefore (eol indent rest : List Char) : List Char :=
  if rest.isEmpty || startsWith eol rest then [] else indent

/-- A text with what is put after each of its line ends. The fuel bounds the number of line ends; the
length of the text is enough. -/
def indentFrom (eol indent : List Char) : Nat → List Char → List Char
  | 0, cs => cs
  | n + 1, cs =>
    match splitFirst? eol cs with
    | none => cs
    | some (line, rest) =>
      line ++ eol ++ indentBefore eol indent rest ++ indentFrom eol indent n rest

/-- **A text with its lines after the first one indented**, empty lines apart. -/
def indentLines (layout : Layout) (content : String) : String :=
  let eol := layout.eol.toList
  if eol.isEmpty then content
  else String.ofList (indentFrom eol layout.indent.toList content.toList.length content.toList)

/-- The first line of a block. -/
def blockHeader (layout : Layout) (id : String) : String :=
  "declare module '" ++ id ++ "' \x7b" ++ layout.eol

/-- The last line of a block. -/
def blockFooter (layout : Layout) : String := "\x7d" ++ layout.eol

/-- A line inside a block. -/
def blockLine (layout : Layout) (text : String) : String := layout.indent ++ text ++ layout.eol

/-- **The block that declares a module.** -/
def moduleBlock (layout : Layout) (id content : String) : String :=
  blockHeader layout id ++ blockLine layout (indentLines layout content) ++ blockFooter layout

/-- The lines that export all of the main module. A module without any known exports is exported as
one with named exports. -/
def aliasLines (target : Target) (shape : ExportShape) (main : String) : List String :=
  if target.hasModules then
    (if shape.hasDefault then ["export \x7bdefault\x7d from '" ++ main ++ "';"] else []) ++
      (if shape.hasNamed || !shape.hasDefault then ["export * from '" ++ main ++ "';"] else [])
  else ["import main = require('" ++ main ++ "');", "export = main;"]

/-- **The block that makes a name stand for the main module.** -/
def aliasBlock (layout : Layout) (target : Target) (shape : ExportShape) (name main : String) :
    String :=
  blockHeader layout name ++ String.join ((aliasLines target shape main).map (blockLine layout)) ++
    blockFooter layout

/-- An entry of a bundle. -/
inductive Entry where
  | referencePath (path : String)
  | referenceTypes (name : String)
  | moduleBlock (id content : String)
  | mainAlias (name main : String) (shape : ExportShape) (target : Target)
  /-- A declaration file taken over as it is. -/
  | verbatim (text : String)
deriving Repr, DecidableEq, Inhabited

/-- **The text of an entry.** -/
def Entry.text (layout : Layout) : Entry → String
  | .referencePath path => "/// <reference path=\"" ++ path ++ "\" />" ++ layout.eol
  | .referenceTypes name => "/// <reference types=\"" ++ name ++ "\" />" ++ layout.eol
  | .moduleBlock id content => AmbientBundle.moduleBlock layout id content
  | .mainAlias name main shape target => aliasBlock layout target shape name main
  | .verbatim text => text

end AmbientBundle

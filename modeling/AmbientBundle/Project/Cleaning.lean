import AmbientBundle.Text.Blank

/-!
# Cleaning configuration files

Configuration files are JSON in which comments and commas before a closing bracket are allowed.
Both are removed before the JSON is read, and every line end is kept.

* `removeComments`, `removeTrailingCommas`: the two steps.
* `cleaned`: both.
-/

namespace AmbientBundle.Project

open Text

/-- What the next character is part of, as far as comments go. -/
inductive CommentMode where
  | plain
  | string
  | line
  | block
deriving Repr, DecidableEq, Inhabited

/-- A text without comments, from inside of some part of it. Comments in strings are none, and the
line ends of a block comment stay. -/
def removeCommentsFrom : CommentMode → List Char → List Char
  | _, [] => []
  | .plain, '/' :: '/' :: cs => removeCommentsFrom .line cs
  | .plain, '/' :: '*' :: cs => removeCommentsFrom .block cs
  | .plain, '"' :: cs => '"' :: removeCommentsFrom .string cs
  | .plain, c :: cs => c :: removeCommentsFrom .plain cs
  | .string, '"' :: cs => '"' :: removeCommentsFrom .plain cs
  | .string, '\\' :: c :: cs => '\\' :: c :: removeCommentsFrom .string cs
  | .string, c :: cs => c :: removeCommentsFrom .string cs
  | .line, '\n' :: cs => '\n' :: removeCommentsFrom .plain cs
  | .line, _ :: cs => removeCommentsFrom .line cs
  | .block, '*' :: '/' :: cs => removeCommentsFrom .plain cs
  | .block, '\n' :: cs => '\n' :: removeCommentsFrom .block cs
  | .block, _ :: cs => removeCommentsFrom .block cs

/-- **A text without comments.** -/
def removeComments (cs : List Char) : List Char := removeCommentsFrom .plain cs

/-- Whether the first character that is not blank closes a list or an object. -/
def closesNext (cs : List Char) : Bool :=
  match trimStart cs with
  | ']' :: _ | '\x7d' :: _ => true
  | _ => false

/-- A text without trailing commas, from inside or outside of a string. -/
def removeTrailingCommasFrom : Bool → List Char → List Char
  | _, [] => []
  | false, '"' :: cs => '"' :: removeTrailingCommasFrom true cs
  | false, ',' :: cs =>
    if closesNext cs then removeTrailingCommasFrom false cs
    else ',' :: removeTrailingCommasFrom false cs
  | false, c :: cs => c :: removeTrailingCommasFrom false cs
  | true, '"' :: cs => '"' :: removeTrailingCommasFrom false cs
  | true, '\\' :: c :: cs => '\\' :: c :: removeTrailingCommasFrom true cs
  | true, c :: cs => c :: removeTrailingCommasFrom true cs

/-- **A text without the commas that come right before a closing bracket.** -/
def removeTrailingCommas (cs : List Char) : List Char := removeTrailingCommasFrom false cs

/-- **A configuration file as JSON.** -/
def cleaned (text : String) : String :=
  String.ofList (removeTrailingCommas (removeComments text.toList))

end AmbientBundle.Project

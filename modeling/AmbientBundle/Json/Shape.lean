import AmbientBundle.Json.Reader

/-!
# Values of a known shape

Readers for values whose kind is known: texts, lists, values that may be missing, and records. A
record is written as an object, or as a list of its fields in order.

* `text`, `listOf`, `optional`, `record`: the shapes.
* `textOrTexts`: one text or a list of them.
* `document`: a value with nothing after it.
-/

namespace AmbientBundle.Json

/-- A fault with the place reached, if it has none. -/
def placed (fault : Fault) : Reading Fault := do
  return { fault with offset := fault.offset.or (some (← get).pos) }

/-- What stands between an opening and a closing mark. The closing mark is looked for even after a
fault. -/
def enclosed (body : Reading α) (close : Reading Unit) : Reading α := do
  match ← outcome body, ← outcome close with
  | .ok a, .ok _ => return a
  | .error fault, _ | .ok _, .error fault => throw (← placed fault)

/-- The end of a list. -/
def closeList : Reading Unit := do
  match ← peekToken with
  | none => failAt .endOfList
  | some ']' => advance
  | some ',' =>
    advance
    match ← peekToken with
    | some ']' => failAt .trailingComma
    | _ => failAt .trailingCharacters
  | some _ => failAt .trailingCharacters

/-- The end of an object. -/
def closeObject : Reading Unit := do
  match ← peekToken with
  | none => failAt .endOfObject
  | some '\x7d' => advance
  | some ',' => failAt .trailingComma
  | some _ => failAt .trailingCharacters

/-- Whether a list goes on with an item; the comma before it is read. -/
def nextItem (first : Bool) : Reading Bool := do
  match ← peekToken with
  | none => failAt .endOfList
  | some ']' => return false
  | some c =>
    if first then return true
    else if c = ',' then
      advance
      match ← peekToken with
      | none => failAt .endOfValue
      | some ']' => failAt .trailingComma
      | some _ => return true
    else failAt .expectedListEnd

/-- The key of the next field of an object; the comma before it is read. -/
def nextKey (first : Bool) : Reading (Option String) := do
  match ← peekToken with
  | none => failAt .endOfObject
  | some '\x7d' => return none
  | some c =>
    if first then
      if c = '"' then advance; some <$> readText else failAt .keyNotText
    else if c = ',' then
      advance
      match ← peekToken with
      | none => failAt .endOfValue
      | some '"' => advance; some <$> readText
      | some '\x7d' => failAt .trailingComma
      | some _ => failAt .keyNotText
    else failAt .expectedObjectEnd

/-- The colon after a key. -/
def readColon : Reading Unit := do
  match ← peekToken with
  | none => failAt .endOfObject
  | some ':' => advance
  | some _ => failAt .expectedColon

/-- A value of a wrong kind, which starts with this character. Scalars are read first. -/
def failType (c : Char) (expected : String) : Reading α := do
  let found : Found ←
    match c with
    | 'n' => advance; readWord ['u', 'l', 'l']; pure .null
    | 't' => advance; readWord ['r', 'u', 'e']; pure (.bool true)
    | 'f' => advance; readWord ['a', 'l', 's', 'e']; pure (.bool false)
    | '"' => advance; .text <$> readText
    | '-' => advance; readNumber true
    | '[' => pure .list
    | '\x7b' => pure .object
    | c => if c.isDigit then readNumber false else failAt .expectedValue
  failBefore (.invalidType found expected)

/-- The first character of a value. -/
def startValue : Reading Char := do
  match ← peekToken with
  | none => failAt .endOfValue
  | some c => return c

/-- **A text.** -/
def text : Reading String := do
  let c ← startValue
  if c = '"' then advance; readText else failType c "a string"

/-- The items of a list; the fuel bounds their number. -/
def itemsFrom (item : Reading α) : Nat → Bool → Reading (List α)
  | 0, _ => return []
  | n + 1, first => do
    if ← nextItem first then return (← item) :: (← itemsFrom item n false) else return []

/-- The items of a list after its opening bracket. -/
def items (item : Reading α) : Reading (List α) := do
  itemsFrom item ((← get).rest.length + 1) true

/-- **A list.** -/
def listOf (item : Reading α) : Reading (List α) := do
  let c ← startValue
  if c = '[' then advance; enclosed (items item) closeList else failType c "a sequence"

/-- **A value that may be null.** -/
def optional (value : Reading α) : Reading (Option α) := do
  if (← peekToken) == some 'n' then advance; readWord ['u', 'l', 'l']; return none
  else some <$> value

/-- A record: its name, its fields in order, how many of them a list must have, and how a field is
read into what was read so far. -/
structure RecordShape (σ : Type) where
  name : String
  fields : List String
  required : Nat
  read : String → σ → Reading σ

namespace RecordShape

/-- The fields of an object; the fuel bounds their number. Fields that are not known are passed
over, and no known one comes twice. -/
def fieldsFrom (shape : RecordShape σ) : Nat → List String → σ → Reading σ
  | 0, _, s => return s
  | n + 1, seen, s => do
    match ← nextKey seen.isEmpty with
    | none => return s
    | some key =>
      if !shape.fields.contains key then
        readColon
        skipValue
        shape.fieldsFrom n (key :: seen) s
      else if seen.contains key then failLater (.duplicateField key)
      else
        readColon
        let s ← shape.read key s
        shape.fieldsFrom n (key :: seen) s

/-- The fields of a list, in order, after a number of them. -/
def positionsFrom (shape : RecordShape σ) : List String → Nat → σ → Reading σ
  | [], _, s => return s
  | key :: keys, n, s => do
    if ← nextItem (n == 0) then
      let s ← shape.read key s
      shape.positionsFrom keys (n + 1) s
    else if shape.required ≤ n then return s
    else
      failLater (.invalidLength n
        ("struct " ++ shape.name ++ " with " ++ toString shape.fields.length ++ " elements"))

end RecordShape

/-- **A record**, read into a given start. -/
def record (shape : RecordShape σ) (start : σ) : Reading σ := do
  match ← startValue with
  | '[' =>
    advance
    enclosed (shape.positionsFrom shape.fields 0 start) closeList
  | '\x7b' =>
    advance
    let fuel := (← get).rest.length + 1
    enclosed (shape.fieldsFrom fuel [] start) closeObject
  | c => failType c ("struct " ++ shape.name)

/-! ### One text or several -/

/-- As much of a value as a choice between texts and lists of texts needs. -/
inductive Outline where
  | text (text : String)
  | list (items : List Outline)
  | other
deriving Repr, Inhabited

/-- The fields of an object, each passed over by a reader; the fuel bounds their number. -/
def passFields (value : Reading Unit) : Nat → Bool → Reading Unit
  | 0, _ => return
  | n + 1, first => do
    match ← nextKey first with
    | none => return
    | some _ => readColon; value; passFields value n false

/-- The outline of a value, with a bound on how deep lists and objects may nest. -/
def outline : Nat → Reading Outline
  | 0 => failAt .tooDeep
  | depth + 1 => do
    match ← startValue with
    | 'n' => advance; readWord ['u', 'l', 'l']; return .other
    | 't' => advance; readWord ['r', 'u', 'e']; return .other
    | 'f' => advance; readWord ['a', 'l', 's', 'e']; return .other
    | '"' => advance; .text <$> readText
    | '-' => advance; let _ ← readNumber true; return .other
    | '[' =>
      if depth = 0 then failAt .tooDeep
      advance
      .list <$> enclosed (items (outline depth)) closeList
    | '\x7b' =>
      if depth = 0 then failAt .tooDeep
      advance
      let fuel := (← get).rest.length + 1
      enclosed (passFields (do let _ ← outline depth) fuel true) closeObject
      return .other
    | c => if c.isDigit then let _ ← readNumber false; return .other else failAt .expectedValue

/-- The text of an outline. -/
def Outline.text? : Outline → Option String
  | .text value => some value
  | _ => none

/-- **One text or a list of texts**; a name is given for the fault where it is neither. -/
def textOrTexts (name : String) (depth : Nat) : Reading (List String) := do
  match ← outline depth with
  | .text text => return [text]
  | .list items =>
    match items.mapM Outline.text? with
    | some texts => return texts
    | none => failLater (.noVariant name)
  | .other => failLater (.noVariant name)

/-- **A whole document**: a value and nothing after it. -/
def document (value : Reading α) (text : String) : Except Fault α :=
  let whole : Reading α := do
    let a ← value
    match ← peekToken with
    | none => return a
    | some _ => failAt .trailingCharacters
  match whole ⟨text.toList, 0⟩ with
  | .ok a _ => .ok a
  | .error fault _ => .error fault

end AmbientBundle.Json

import AmbientBundle.Project.Cleaning
import Mathlib.Data.List.Infix

/-!
# Configuration texts that are cleaned

A configuration text is made of pieces: marks, string literals and bare words, with blanks and
comments between them. Comments and trailing commas are taken out in two steps, each of which tells
strings apart on its own. Both find the pieces where they are, so that cleaning is what it is meant
to be on pieces.

* `Piece`, `textOf`: pieces, and the text that they make; `linesEnd`: comments to the end of a line
  that do end there.
* `Piece.kept`, `keptText`: what is left of a piece, and of a text.
* `CopiesStrings`: how a scanner has to copy strings; both steps do.
* `removeComments_textOf`, `removeTrailingCommas_bare`: the two steps, piece by piece.
* `cleaned_eq_keptText`: **cleaning leaves of a text what is left of its pieces**, each string as it
  is, and everything where there is nothing to take out.
-/

namespace AmbientBundle.Project

open Text

/-! ### Pieces -/

/-- The marks of JSON. -/
inductive Mark where
  | openList
  | closeList
  | openObject
  | closeObject
  | comma
  | colon
deriving Repr, DecidableEq

namespace Mark

def char : Mark → Char
  | openList => '['
  | closeList => ']'
  | openObject => '\x7b'
  | closeObject => '\x7d'
  | comma => ','
  | colon => ':'

/-- Whether a mark closes a list or an object. -/
def closes : Mark → Bool
  | closeList | closeObject => true
  | _ => false

end Mark

/-- A character that has no meaning of its own: none of a mark, of a string or of a comment, and no
blank. -/
def isWordChar (c : Char) : Bool :=
  !isBlank c && c != '"' && c != '/' &&
    [Mark.openList, .closeList, .openObject, .closeObject, .comma, .colon].all
      fun mark => c != mark.char

/-- A part of a string literal. -/
inductive StringPart where
  | char (c : Char) (plain : c ≠ '"' ∧ c ≠ '\\')
  /-- A backslash and the character after it, whatever it is. -/
  | escape (c : Char)

def StringPart.text : StringPart → List Char
  | .char c _ => [c]
  | .escape c => ['\\', c]

/-- **A piece of a configuration text.** -/
inductive Piece where
  | mark (mark : Mark)
  | string (parts : List StringPart)
  | word (first : { c : Char // isWordChar c = true })
      (rest : List { c : Char // isWordChar c = true })
  | blank (c : { c : Char // isBlank c = true })
  /-- A comment up to the end of its line. -/
  | line (cs : { cs : List Char // '\n' ∉ cs })
  /-- A comment up to the first end mark. -/
  | block (cs : { cs : List Char // ¬ ['*', '/'] <:+: cs })

namespace Piece

def text : Piece → List Char
  | mark m => [m.char]
  | string parts => '"' :: (parts.flatMap StringPart.text ++ ['"'])
  | word first rest => first.1 :: rest.map Subtype.val
  | blank c => [c.1]
  | line cs => '/' :: '/' :: cs.1
  | block cs => '/' :: '*' :: (cs.1 ++ ['*', '/'])

/-- Whether a piece is part of the JSON, and no blank or comment. -/
def isToken : Piece → Bool
  | mark _ | string _ | word _ _ => true
  | blank _ | line _ | block _ => false

def isComment : Piece → Bool
  | line _ | block _ => true
  | _ => false

end Piece

/-- The text of pieces. -/
def textOf (ps : List Piece) : List Char := ps.flatMap Piece.text

/-- Whether a piece ends before a text. A comment to the end of its line does so at a line end, or
at the end of the text. -/
def Piece.endsBefore (rest : List Char) : Piece → Bool
  | .line _ => rest.head?.all (· == '\n')
  | _ => true

/-- Whether each comment to the end of a line ends there, or at the end of the text. -/
def linesEnd : List Piece → Bool
  | [] => true
  | p :: ps => p.endsBefore (textOf ps) && linesEnd ps

/-! ### What is left of pieces -/

/-- Whether the next token closes a list or an object. -/
def closesAfter (ps : List Piece) : Bool :=
  match ps.find? Piece.isToken with
  | some (.mark m) => m.closes
  | _ => false

/-- **What is left of a piece** before others: of a comment the line ends that it has inside, and of
a comma before a closing mark nothing. -/
def Piece.kept (after : List Piece) : Piece → List Char
  | .mark .comma => if closesAfter after then [] else [',']
  | .line _ => []
  | .block cs => cs.1.filter (· == '\n')
  | piece => piece.text

/-- **What is left of a text.** -/
def keptText : List Piece → List Char
  | [] => []
  | p :: ps => p.kept ps ++ keptText ps

/-- What is left of a piece if only comments are taken out. -/
def Piece.bare : Piece → List Char
  | .line _ => []
  | .block cs => cs.1.filter (· == '\n')
  | piece => piece.text

/-! ### Characters of pieces -/

theorem ne_of_isWordChar {c : Char} (h : isWordChar c = true) :
    isBlank c = false ∧ c ≠ '"' ∧ c ≠ '/' ∧ c ≠ ',' ∧ c ≠ ']' ∧ c ≠ '\x7d' := by
  simp only [isWordChar, Mark.char, List.all_cons, List.all_nil, Bool.and_true, Bool.and_eq_true,
    Bool.not_eq_true', bne_iff_ne] at h
  obtain ⟨⟨⟨hblank, hquote⟩, hslash⟩, -, hclose, -, hclose', hcomma, -⟩ := h
  exact ⟨hblank, hquote, hslash, hcomma, hclose, hclose'⟩

theorem ne_of_isBlank {c : Char} (h : isBlank c = true) : c ≠ '"' ∧ c ≠ '/' ∧ c ≠ ',' := by
  refine ⟨?_, ?_, ?_⟩ <;>
  · rintro rfl
    revert h
    decide

theorem Piece.forall_mem_word {P : Char → Prop} {first : { c : Char // isWordChar c = true }}
    {rest : List { c : Char // isWordChar c = true }} (h : ∀ c, isWordChar c = true → P c) :
    ∀ c ∈ (Piece.word first rest).text, P c := by
  intro c hc
  rcases List.mem_cons.1 hc with rfl | hc
  · exact h _ first.2
  · obtain ⟨d, -, rfl⟩ := List.mem_map.1 hc
    exact h _ d.2

/-! ### Scanners -/

/-- A scanner that copies the characters of a word one by one copies the word. -/
theorem append_of_cons {scan : List Char → List Char} {word : List Char}
    (h : ∀ c ∈ word, ∀ cs, scan (c :: cs) = c :: scan cs) (cs : List Char) :
    scan (word ++ cs) = word ++ scan cs := by
  induction word with
  | nil => rfl
  | cons c word ih =>
    rw [List.cons_append, h c List.mem_cons_self, ih fun d hd => h d (List.mem_cons_of_mem _ hd),
      List.cons_append]

/-- **How a scanner has to copy strings**, seen from outside and from inside of one. -/
structure CopiesStrings (outside inside : List Char → List Char) : Prop where
  opens : ∀ cs, outside ('"' :: cs) = '"' :: inside cs
  closes : ∀ cs, inside ('"' :: cs) = '"' :: outside cs
  escape : ∀ c cs, inside ('\\' :: c :: cs) = '\\' :: c :: inside cs
  char : ∀ c cs, c ≠ '"' ∧ c ≠ '\\' → inside (c :: cs) = c :: inside cs

/-- **A string literal is copied whole**, and what comes after it is seen from outside again. -/
theorem CopiesStrings.literal {outside inside : List Char → List Char}
    (h : CopiesStrings outside inside) (parts : List StringPart) (cs : List Char) :
    outside ((Piece.string parts).text ++ cs) = (Piece.string parts).text ++ outside cs := by
  have hinside : inside (parts.flatMap StringPart.text ++ '"' :: cs) =
      parts.flatMap StringPart.text ++ '"' :: outside cs := by
    induction parts with
    | nil => exact h.closes cs
    | cons part parts ih =>
      rw [List.flatMap_cons, List.append_assoc, List.append_assoc, ← ih]
      cases part with
      | char c plain => exact h.char c _ plain
      | escape c => exact h.escape c _
  simp only [Piece.text, List.cons_append, List.append_assoc, List.nil_append]
  rw [h.opens, hinside]

/-! ### Comments -/

theorem copiesStrings_removeComments :
    CopiesStrings (removeCommentsFrom .plain) (removeCommentsFrom .string) where
  opens cs := by simp [removeCommentsFrom]
  closes cs := by simp [removeCommentsFrom]
  escape c cs := by simp [removeCommentsFrom]
  char c cs h := by simp [removeCommentsFrom, h]

/-- A character that starts neither a string nor a comment stays. -/
theorem removeComments_cons {c : Char} (hquote : c ≠ '"') (hslash : c ≠ '/') (cs : List Char) :
    removeCommentsFrom .plain (c :: cs) = c :: removeCommentsFrom .plain cs := by
  simp [removeCommentsFrom, hslash]

/-- **A comment to the end of its line** is passed over, and the line end is not. -/
theorem removeComments_line {cs rest : List Char} (hcs : '\n' ∉ cs)
    (hrest : rest.head?.all (· == '\n') = true) :
    removeCommentsFrom .line (cs ++ rest) = removeCommentsFrom .plain rest := by
  induction cs with
  | nil =>
    cases rest with
    | nil => rfl
    | cons c rest =>
      have hc : c = '\n' := by simpa using hrest
      rw [hc]
      simp [removeCommentsFrom]
  | cons c cs ih =>
    rw [List.mem_cons, not_or] at hcs
    have hpass : removeCommentsFrom .line (c :: (cs ++ rest)) =
        removeCommentsFrom .line (cs ++ rest) := by
      simp [removeCommentsFrom, Ne.symm hcs.1]
    rw [List.cons_append, hpass, ih hcs.2]

/-- **A closed comment** is passed over up to its first end mark, and its line ends stay. -/
theorem removeComments_block {cs : List Char} (hcs : ¬ ['*', '/'] <:+: cs) (rest : List Char) :
    removeCommentsFrom .block (cs ++ '*' :: '/' :: rest) =
      cs.filter (· == '\n') ++ removeCommentsFrom .plain rest := by
  induction cs with
  | nil => simp [removeCommentsFrom]
  | cons c cs ih =>
    have hlater := ih fun h => hcs (List.infix_cons h)
    by_cases hstar : c = '*'
    · -- the character after a star is no slash, be it of the comment or the star of its end
      have hnext : ∀ tail, cs ++ '*' :: '/' :: rest ≠ '/' :: tail := by
        intro tail htail
        cases cs with
        | nil => cases (List.cons.inj htail).1
        | cons d cs =>
          rw [hstar, (List.cons.inj htail).1] at hcs
          exact hcs ⟨[], cs, rfl⟩
      have hpass : removeCommentsFrom .block ('*' :: (cs ++ '*' :: '/' :: rest)) =
          removeCommentsFrom .block (cs ++ '*' :: '/' :: rest) := by
        rw [removeCommentsFrom]
        · intro tail _ htail
          exact hnext tail htail
        · intro h
          cases h
      rw [hstar, List.cons_append, hpass, hlater]
      rfl
    · by_cases hline : c = '\n'
      · rw [hline, List.cons_append, removeCommentsFrom, hlater]
        rfl
      · have hpass : removeCommentsFrom .block (c :: (cs ++ '*' :: '/' :: rest)) =
            removeCommentsFrom .block (cs ++ '*' :: '/' :: rest) := by
          simp [removeCommentsFrom, hstar]
        rw [List.cons_append, hpass, hlater, List.filter_cons_of_neg (by simpa using hline)]

/-- **Comments are taken out of one piece** without regard to what comes after it. -/
theorem removeComments_piece {p : Piece} {rest : List Char} (hend : p.endsBefore rest = true) :
    removeCommentsFrom .plain (p.text ++ rest) = p.bare ++ removeCommentsFrom .plain rest := by
  cases p with
  | mark m => cases m <;> exact removeComments_cons (by decide) (by decide) rest
  | string parts => exact copiesStrings_removeComments.literal parts rest
  | word first more =>
    refine append_of_cons (Piece.forall_mem_word fun c hc => ?_) rest
    have hne := ne_of_isWordChar hc
    exact removeComments_cons hne.2.1 hne.2.2.1
  | blank c =>
    have hne := ne_of_isBlank c.2
    exact removeComments_cons hne.1 hne.2.1 rest
  | line cs =>
    have hopen : removeCommentsFrom .plain ('/' :: '/' :: (cs.1 ++ rest)) =
        removeCommentsFrom .line (cs.1 ++ rest) := by
      simp [removeCommentsFrom]
    simp only [Piece.text, Piece.bare, List.cons_append, List.nil_append]
    rw [hopen, removeComments_line cs.2 hend]
  | block cs =>
    have hopen : removeCommentsFrom .plain ('/' :: '*' :: (cs.1 ++ '*' :: '/' :: rest)) =
        removeCommentsFrom .block (cs.1 ++ '*' :: '/' :: rest) := by
      simp [removeCommentsFrom]
    simp only [Piece.text, Piece.bare, List.cons_append, List.append_assoc, List.nil_append]
    rw [hopen, removeComments_block cs.2]

/-- **Comments are taken out of a text piece by piece.** -/
theorem removeComments_textOf {ps : List Piece} (h : linesEnd ps = true) :
    removeComments (textOf ps) = ps.flatMap Piece.bare := by
  unfold removeComments
  induction ps with
  | nil => rfl
  | cons p ps ih =>
    rw [linesEnd, Bool.and_eq_true] at h
    have htext : textOf (p :: ps) = p.text ++ textOf ps := List.flatMap_cons
    rw [htext, removeComments_piece h.1, ih h.2, List.flatMap_cons]

/-! ### Trailing commas -/

theorem copiesStrings_removeTrailingCommas :
    CopiesStrings (removeTrailingCommasFrom false) (removeTrailingCommasFrom true) where
  opens cs := by simp [removeTrailingCommasFrom]
  closes cs := by simp [removeTrailingCommasFrom]
  escape c cs := by simp [removeTrailingCommasFrom]
  char c cs h := by simp [removeTrailingCommasFrom, h]

/-- A character that is no quote and no comma stays. -/
theorem removeTrailingCommas_cons {c : Char} (hquote : c ≠ '"') (hcomma : c ≠ ',')
    (cs : List Char) : removeTrailingCommasFrom false (c :: cs) = c :: removeTrailingCommasFrom false cs := by
  simp [removeTrailingCommasFrom]

/-- Blanks are passed over in search of a closing mark. -/
theorem closesNext_append {blanks : List Char} (h : ∀ b ∈ blanks, isBlank b = true)
    (cs : List Char) : closesNext (blanks ++ cs) = closesNext cs := by
  unfold closesNext trimStart
  rw [List.dropWhile_append_of_pos h]

theorem closesNext_cons {c : Char} (h : isBlank c = false) (cs : List Char) :
    closesNext (c :: cs) = (c == ']' || c == '\x7d') := by
  unfold closesNext trimStart
  rw [List.dropWhile_cons_of_neg (by simp [h])]
  split
  · next heq => rw [(List.cons.inj heq).1]; rfl
  · next heq => rw [(List.cons.inj heq).1]; rfl
  · next hclose hclose' =>
    have hne : c ≠ ']' := fun hc => hclose cs (by rw [hc])
    have hne' : c ≠ '\x7d' := fun hc => hclose' cs (by rw [hc])
    simp [hne, hne']

/-- The line ends of a comment are blanks. -/
theorem isBlank_of_mem_lineEnds {cs : List Char} :
    ∀ c ∈ cs.filter (· == '\n'), isBlank c = true := by
  intro c hc
  have hline : c = '\n' := by simpa using (List.mem_filter.1 hc).2
  rw [hline]
  decide

/-- **The next character that is not blank closes exactly if the next token does**, whatever
comments stood before it. -/
theorem closesNext_bare (ps : List Piece) :
    closesNext (ps.flatMap Piece.bare) = closesAfter ps := by
  induction ps with
  | nil => rfl
  | cons p ps ih =>
    rw [List.flatMap_cons]
    cases p with
    | mark m =>
      have hblank : isBlank m.char = false := by cases m <;> decide
      refine (closesNext_cons hblank _).trans ?_
      cases m <;> rfl
    | string parts => exact closesNext_cons (by decide) _
    | word first rest =>
      have hne := ne_of_isWordChar first.2
      refine (closesNext_cons hne.1 _).trans ?_
      simp [closesAfter, Piece.isToken, hne]
    | blank c =>
      rw [closesNext_append (by simpa [Piece.bare, Piece.text] using c.2), ih]
      rfl
    | line cs =>
      rw [closesNext_append (by simp [Piece.bare]), ih]
      rfl
    | block cs => exact (closesNext_append isBlank_of_mem_lineEnds _).trans ih

/-- **Trailing commas are taken out of a text piece by piece**, once it has no comments. -/
theorem removeTrailingCommas_bare (ps : List Piece) :
    removeTrailingCommas (ps.flatMap Piece.bare) = keptText ps := by
  unfold removeTrailingCommas
  induction ps with
  | nil => rfl
  | cons p ps ih =>
    rw [List.flatMap_cons, keptText, ← ih]
    cases p with
    | mark m =>
      cases m with
      | comma =>
        have hcomma : removeTrailingCommasFrom false (',' :: ps.flatMap Piece.bare) =
            if closesNext (ps.flatMap Piece.bare) then
              removeTrailingCommasFrom false (ps.flatMap Piece.bare)
            else ',' :: removeTrailingCommasFrom false (ps.flatMap Piece.bare) := by
          simp [removeTrailingCommasFrom]
        refine hcomma.trans ?_
        rw [closesNext_bare, Piece.kept]
        split <;> rfl
      | _ => exact removeTrailingCommas_cons (by decide) (by decide) _
    | string parts => exact copiesStrings_removeTrailingCommas.literal parts _
    | word first rest =>
      refine append_of_cons (Piece.forall_mem_word fun c hc => ?_) _
      have hne := ne_of_isWordChar hc
      exact removeTrailingCommas_cons hne.2.1 hne.2.2.2.1
    | blank c =>
      have hne := ne_of_isBlank c.2
      exact removeTrailingCommas_cons hne.1 hne.2.2 _
    | line cs => rfl
    | block cs =>
      refine append_of_cons (fun c hc => ?_) _
      have hne := ne_of_isBlank (isBlank_of_mem_lineEnds c hc)
      exact removeTrailingCommas_cons hne.1 hne.2.2

/-! ### Both steps -/

/-- What comes after a string has no say in what is left before it. -/
theorem closesAfter_append_string (before : List Piece) (parts : List StringPart)
    (after : List Piece) : closesAfter (before ++ .string parts :: after) = closesAfter before := by
  unfold closesAfter
  rw [List.find?_append]
  cases before.find? Piece.isToken with
  | some p => rfl
  | none => rfl

/-- **A string stays where it is** between what is left before it and what is left after it. -/
theorem keptText_append_string (before : List Piece) (parts : List StringPart)
    (after : List Piece) : keptText (before ++ .string parts :: after) =
      keptText before ++ (Piece.string parts).text ++ keptText after := by
  induction before with
  | nil => rfl
  | cons p before ih =>
    have hkept : p.kept (before ++ .string parts :: after) = p.kept before := by
      cases p with
      | mark m =>
        cases m with
        | comma => rw [Piece.kept, Piece.kept, closesAfter_append_string]
        | _ => rfl
      | _ => rfl
    rw [List.cons_append, keptText, keptText, hkept, ih]
    simp only [List.append_assoc]

/-- **Where there is nothing to take out, everything is left.** -/
theorem keptText_eq_textOf {ps : List Piece} (hcomments : ∀ p ∈ ps, p.isComment = false)
    (hcommas : ∀ before after, ps = before ++ .mark .comma :: after → closesAfter after = false) :
    keptText ps = textOf ps := by
  induction ps with
  | nil => rfl
  | cons p ps ih =>
    have hkept : p.kept ps = p.text := by
      cases p with
      | mark m =>
        cases m with
        | comma => rw [Piece.kept, hcommas [] ps rfl, if_neg (by simp)]; rfl
        | _ => rfl
      | line cs => cases hcomments _ List.mem_cons_self
      | block cs => cases hcomments _ List.mem_cons_self
      | _ => rfl
    have hlater := ih (fun q hq => hcomments q (List.mem_cons_of_mem _ hq))
      fun before after hps => hcommas (p :: before) after (by rw [hps]; rfl)
    rw [keptText, hkept, hlater]
    exact List.flatMap_cons.symm

/-- **Cleaning leaves of a text what is left of its pieces**: no comment but the line ends inside
it, no comma before a closing mark, and all else as it is. Each string stays between what is left
before and after it, and a text without comments and trailing commas does not change. -/
theorem cleaned_eq_keptText {text : String} {ps : List Piece} (htext : text.toList = textOf ps)
    (hlines : linesEnd ps = true) :
    cleaned text = String.ofList (keptText ps) ∧
    (∀ before parts after, ps = before ++ .string parts :: after →
      (cleaned text).toList =
        keptText before ++ (Piece.string parts).text ++ keptText after) ∧
    ((∀ p ∈ ps, p.isComment = false) →
      (∀ before after, ps = before ++ .mark .comma :: after → closesAfter after = false) →
      cleaned text = text) := by
  have hkept : cleaned text = String.ofList (keptText ps) := by
    unfold cleaned
    rw [htext, removeComments_textOf hlines, removeTrailingCommas_bare]
  refine ⟨hkept, ?_, ?_⟩
  · rintro before parts after rfl
    rw [hkept, String.toList_ofList, keptText_append_string]
  · intro hcomments hcommas
    rw [hkept, keptText_eq_textOf hcomments hcommas, ← htext, String.ofList_toList]

/-! ### A small text -/

namespace Sample

/-- A list with a string that looks like comments and trailing commas, and comments that look like
strings and like the ends of comments. -/
def pieces : List Piece :=
  [.mark .openList,
    .string [.char '/' (by decide), .char '/' (by decide), .escape '"', .char ',' (by decide),
      .char ']' (by decide), .escape '\\'],
    .line ⟨"\"/*".toList, by decide⟩, .blank ⟨'\n', by decide⟩, .mark .comma,
    .block ⟨"/*\n*".toList, by decide⟩, .word ⟨'n', by decide⟩ [⟨'\\', by decide⟩], .mark .comma,
    .block ⟨[], by decide⟩, .blank ⟨' ', by decide⟩, .line ⟨",".toList, by decide⟩,
    .blank ⟨'\n', by decide⟩, .mark .closeList, .line ⟨"end".toList, by decide⟩]

end Sample

theorem cleaned_eq_keptText_sample :
    linesEnd Sample.pieces = true ∧
    cleaned "[\"//\\\",]\\\\\"//\"/*\n,/*/*\n**/n\\,/**/ //,\n]//end" =
      "[\"//\\\",]\\\\\"\n,\nn\\ \n]" := by
  have htext : "[\"//\\\",]\\\\\"//\"/*\n,/*/*\n**/n\\,/**/ //,\n]//end".toList =
      textOf Sample.pieces := by decide
  have hlines : linesEnd Sample.pieces = true := by decide
  refine ⟨hlines, (cleaned_eq_keptText htext hlines).1.trans ?_⟩
  decide

end AmbientBundle.Project

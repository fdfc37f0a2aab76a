import AmbientBundle.Bundle.Entry
import AmbientBundle.Proofs.Cutting
import Mathlib.Data.List.Infix

/-!
# Indentation line by line

A text is indented by searching for line ends and looking at what comes after each of them. This
comes to the same as cutting the text into its lines and putting the indentation before each line
after the first one, empty lines apart. A line end that does not overlap itself is neither made nor
broken by an indentation without any of its characters, so that the lines can be told again.

* `HasLines`: the lines of a text, cut at the leftmost line ends; `HasLines.exists_lines`:
  every text has lines.
* `indentFrom_of_hasLines`: the search goes line by line.
* `HasLines.of_join`: texts put together with line ends that do not overlap themselves.
* `indentLines_lineWise`: **indentation is line by line, and the content of a block can be told from
  the block.**
-/

namespace AmbientBundle

namespace Text

/-- Texts with a separator between them. -/
def join (sep : List Char) : List (List Char) → List Char
  | [] => []
  | [w] => w
  | w :: ws => w ++ sep ++ join sep ws

/-- The pieces of a text between the occurrences of a text that is not empty, from left to right.
The fuel bounds their number; the length of the text is enough. -/
def splitOnText (sep : List Char) : Nat → List Char → List (List Char)
  | 0, cs => [cs]
  | n + 1, cs =>
    match splitFirst? sep cs with
    | none => [cs]
    | some (before, after) => before :: splitOnText sep n after

end Text

open Text

variable {eol indent cs line rest : List Char} {lines : List (List Char)} {n : Nat}

/-! ### The lines of a text -/

/-- **The lines of a text**: it is cut at the leftmost line end, and what comes after that is cut in
the same way. -/
inductive HasLines (eol : List Char) : List Char → List (List Char) → Prop
  | last {cs : List Char} : ¬ eol <:+: cs → HasLines eol cs [cs]
  | more {line rest : List Char} {lines : List (List Char)} :
      (∀ front back, line ++ eol ++ rest = front ++ eol ++ back → line.length ≤ front.length) →
        HasLines eol rest lines → HasLines eol (line ++ eol ++ rest) (line :: lines)

namespace HasLines

theorem ne_nil (h : HasLines eol cs lines) : lines ≠ [] := by
  cases h <;> exact List.cons_ne_nil _ _

/-- The first cut of a text with more than one line is at the end of the first one. -/
theorem splitFirst?_eq (heol : eol ≠ [])
    (hfirst : ∀ front back, line ++ eol ++ rest = front ++ eol ++ back →
      line.length ≤ front.length) :
    splitFirst? eol (line ++ eol ++ rest) = some (line, rest) :=
  (splitFirst?_eq_some_iff heol).2 ⟨rfl, hfirst⟩

/-- **Every text has lines.** -/
theorem exists_lines (heol : eol ≠ []) (cs : List Char) : ∃ lines, HasLines eol cs lines := by
  induction hlen : cs.length using Nat.strong_induction_on generalizing cs with
  | _ len ih =>
    cases hcut : splitFirst? eol cs with
    | none => exact ⟨[cs], .last ((splitFirst?_eq_none_iff heol).1 hcut)⟩
    | some parts =>
      obtain ⟨line, rest⟩ := parts
      obtain ⟨rfl, hfirst⟩ := (splitFirst?_eq_some_iff heol).1 hcut
      have hpos : 0 < eol.length := List.length_pos_iff.2 heol
      have hless : rest.length < len := by
        rw [← hlen, List.length_append, List.length_append]
        omega
      obtain ⟨lines, hlines⟩ := ih rest.length hless rest rfl
      exact ⟨line :: lines, .more hfirst hlines⟩

/-- The pieces of a text between line ends are its lines. -/
theorem splitOnText_eq (heol : eol ≠ []) (h : HasLines eol cs lines) (hn : cs.length ≤ n) :
    splitOnText eol n cs = lines := by
  induction h generalizing n with
  | last hno =>
    cases n with
    | zero => rfl
    | succ n => rw [splitOnText, (splitFirst?_eq_none_iff heol).2 hno]
  | @more line rest lines hfirst _ ih =>
    have hpos : 0 < eol.length := List.length_pos_iff.2 heol
    rw [List.length_append, List.length_append] at hn
    obtain ⟨m, rfl⟩ : ∃ m, n = m + 1 := ⟨n - 1, by omega⟩
    rw [splitOnText, splitFirst?_eq heol hfirst]
    dsimp only
    rw [ih (by omega)]

/-- The lines are what is between the line ends. -/
theorem join_eq (h : HasLines eol cs lines) : join eol lines = cs := by
  induction h with
  | last _ => rfl
  | @more line rest lines _ hrest ih =>
    obtain ⟨next, others, rfl⟩ := List.exists_cons_of_ne_nil hrest.ne_nil
    rw [join, ih]
    exact List.cons_ne_nil _ _

/-- No line holds a line end. -/
theorem not_infix (heol : eol ≠ []) (h : HasLines eol cs lines) : ∀ l ∈ lines, ¬ eol <:+: l := by
  induction h with
  | last hno => exact List.forall_mem_singleton.2 hno
  | @more line rest lines hfirst _ ih =>
    refine List.forall_mem_cons.2 ⟨?_, ih⟩
    -- a line end in the line would come before the one at its end
    rintro ⟨front, back, rfl⟩
    have hpos : 0 < eol.length := List.length_pos_iff.2 heol
    have hle := hfirst front (back ++ eol ++ rest) (by simp)
    rw [List.length_append, List.length_append] at hle
    omega

end HasLines

/-! ### The search for line ends -/

/-- A line after a line end: the indentation comes before it unless it is empty. -/
def indentedLine (eol indent line : List Char) : List Char :=
  if line.isEmpty then eol else eol ++ indent ++ line

/-- **Lines put together**, with the indentation before each one after the first that is not
empty. -/
def indentedText (eol indent : List Char) : List (List Char) → List Char
  | [] => []
  | line :: lines => line ++ lines.flatMap (indentedLine eol indent)

/-- What comes after a line end is indented if the line that starts there is not empty. -/
theorem indentBefore_of_hasLines (heol : eol ≠ []) (h : HasLines eol cs (line :: lines)) :
    indentBefore eol indent cs = if line.isEmpty then [] else indent := by
  have hstarts : (cs.isEmpty || startsWith eol cs) = line.isEmpty := by
    cases h with
    | last hno =>
      have hnot : startsWith eol cs = false := by
        unfold startsWith
        rw [Option.isSome_eq_false_iff, Option.isNone_iff_eq_none,
          Option.eq_none_iff_forall_not_mem]
        intro rest hrest
        exact hno ⟨[], rest, (cutFront?_eq_some.1 hrest).symm⟩
      rw [hnot, Bool.or_false]
    | @more _ rest _ hfirst _ =>
      have hempty : (line ++ eol ++ rest).isEmpty = false := by simp [heol]
      rw [hempty, Bool.false_or]
      cases line with
      | nil =>
        have hcut : cutFront? eol ([] ++ eol ++ rest) = some rest := cutFront?_eq_some.2 rfl
        unfold startsWith
        rw [hcut]
        rfl
      | cons c line =>
        -- a text that starts with a line end has an empty first line
        by_contra hne
        have hsome : startsWith eol (c :: line ++ eol ++ rest) = true := by simpa using hne
        obtain ⟨back, hback⟩ := Option.isSome_iff_exists.1 hsome
        have hle := hfirst [] back (cutFront?_eq_some.1 hback)
        simp at hle
  unfold indentBefore
  rw [hstarts]

/-- **The search for line ends goes line by line.** -/
theorem indentFrom_of_hasLines (heol : eol ≠ []) (h : HasLines eol cs lines) (hn : cs.length ≤ n) :
    indentFrom eol indent n cs = indentedText eol indent lines := by
  induction h generalizing n with
  | @last cs hno =>
    have hwhole : indentedText eol indent [cs] = cs := List.append_nil cs
    rw [hwhole]
    cases n with
    | zero => rfl
    | succ n => rw [indentFrom, (splitFirst?_eq_none_iff heol).2 hno]
  | @more line rest lines hfirst hrest ih =>
    have hpos : 0 < eol.length := List.length_pos_iff.2 heol
    rw [List.length_append, List.length_append] at hn
    obtain ⟨m, rfl⟩ : ∃ m, n = m + 1 := ⟨n - 1, by omega⟩
    obtain ⟨next, others, rfl⟩ := List.exists_cons_of_ne_nil hrest.ne_nil
    have hnext : eol ++ (if next.isEmpty then [] else indent) ++ next =
        indentedLine eol indent next := by
      cases next <;> simp [indentedLine]
    rw [indentFrom, HasLines.splitFirst?_eq heol hfirst]
    dsimp only
    rw [ih (by omega), indentBefore_of_hasLines heol hrest, indentedText, indentedText,
      List.flatMap_cons, ← hnext]
    simp only [List.append_assoc]

/-! ### Lines of an indented text -/

/-- A text that does not overlap itself: no part of it is both its front and its back. -/
def IsUnbordered (eol : List Char) : Prop :=
  ∀ part, part <+: eol → part <:+ eol → part = [] ∨ part = eol

/-- The first place of such a text is after a line without it. -/
theorem IsUnbordered.length_le (hborder : IsUnbordered eol) (hline : ¬ eol <:+: line)
    {front back : List Char} (h : line ++ eol ++ rest = front ++ eol ++ back) :
    line.length ≤ front.length := by
  by_contra hlt
  rw [List.append_assoc, List.append_assoc] at h
  obtain ⟨more, rfl⟩ : front <+: line :=
    List.prefix_of_prefix_length_le ⟨eol ++ back, h.symm⟩ ⟨eol ++ rest, rfl⟩ (by omega)
  rw [List.append_assoc] at h
  have hmore : more ++ (eol ++ rest) = eol ++ back := List.append_cancel_left h
  rcases Nat.le_total eol.length more.length with hle | hle
  · -- the whole of it would stand in the line
    obtain ⟨last, rfl⟩ : eol <+: more :=
      List.prefix_of_prefix_length_le ⟨back, hmore.symm⟩ ⟨eol ++ rest, rfl⟩ hle
    exact hline ⟨front, last, by simp⟩
  · -- the part of it beyond the line would be its front and its back
    obtain ⟨part, hpart⟩ : more <+: eol :=
      List.prefix_of_prefix_length_le ⟨eol ++ rest, rfl⟩ ⟨back, hmore.symm⟩ hle
    have hrest : eol ++ rest = part ++ back := by
      have hcancel : more ++ (eol ++ rest) = more ++ (part ++ back) := by
        rw [hmore, ← List.append_assoc, hpart]
      exact List.append_cancel_left hcancel
    have hlen : more.length + part.length = eol.length := by rw [← hpart, List.length_append]
    rw [List.length_append] at hlt
    have hfront : part <+: eol :=
      List.prefix_of_prefix_length_le ⟨back, hrest.symm⟩ ⟨rest, rfl⟩ (by omega)
    rcases hborder part hfront ⟨more, hpart⟩ with rfl | rfl
    · exact hline ⟨front, [], by rw [← hpart]; simp⟩
    · omega

/-- **Texts without line ends are the lines of what they are put together to**, if line ends do not
overlap themselves. -/
theorem HasLines.of_join (hborder : IsUnbordered eol) (hne : lines ≠ [])
    (h : ∀ l ∈ lines, ¬ eol <:+: l) : HasLines eol (join eol lines) lines := by
  induction lines with
  | nil => exact absurd rfl hne
  | cons line lines ih =>
    obtain ⟨hline, hlines⟩ := List.forall_mem_cons.1 h
    cases lines with
    | nil => exact .last hline
    | cons next others =>
      exact .more (fun front back heq => hborder.length_le hline heq)
        (ih (List.cons_ne_nil _ _) hlines)

/-- An indentation without characters of a line end brings no line end into a line. -/
theorem not_infix_indented (heol : eol ≠ []) (hindent : ∀ c ∈ indent, c ∉ eol)
    (hline : ¬ eol <:+: line) : ¬ eol <:+: indent ++ line := by
  rintro ⟨front, back, h⟩
  rw [List.append_assoc] at h
  rcases Nat.lt_or_ge front.length indent.length with hlt | hge
  · -- the first character of the line end would be in the indentation
    obtain ⟨c, more, rfl⟩ := List.exists_cons_of_ne_nil heol
    obtain ⟨part, rfl⟩ : front <+: indent :=
      List.prefix_of_prefix_length_le ⟨_, h⟩ ⟨line, rfl⟩ (by omega)
    rw [List.append_assoc] at h
    have hpart := List.append_cancel_left h
    cases part with
    | nil => simp at hlt
    | cons d part =>
      obtain ⟨rfl, -⟩ := List.cons.inj hpart
      exact hindent c (by simp) (by simp)
  · obtain ⟨part, rfl⟩ : indent <+: front :=
      List.prefix_of_prefix_length_le ⟨line, rfl⟩ ⟨_, h⟩ (by omega)
    rw [List.append_assoc] at h
    exact hline ⟨part, back, by rw [← List.append_cancel_left h]; simp⟩

/-- A line after a line end, as it stands in an indented text. -/
def withIndent (indent line : List Char) : List Char :=
  if line.isEmpty then [] else indent ++ line

theorem indentedText_eq_join (eol indent line : List Char) (lines : List (List Char)) :
    indentedText eol indent (line :: lines) = join eol (line :: lines.map (withIndent indent)) := by
  induction lines generalizing line with
  | nil => simp [indentedText, join]
  | cons next lines ih =>
    have hnext : indentedLine eol indent next = eol ++ withIndent indent next := by
      cases next <;> simp [indentedLine, withIndent]
    have ih := ih (withIndent indent next)
    rw [indentedText] at ih ⊢
    rw [List.map_cons, join, ← ih, List.flatMap_cons, hnext]
    · simp only [List.append_assoc]
    · exact List.cons_ne_nil _ _

/-- **The lines of an indented text** are the indented lines. -/
theorem HasLines.indented (heol : eol ≠ []) (hborder : IsUnbordered eol)
    (hindent : ∀ c ∈ indent, c ∉ eol) (h : HasLines eol cs (line :: lines)) :
    HasLines eol (indentedText eol indent (line :: lines))
      (line :: lines.map (withIndent indent)) := by
  obtain ⟨hline, hlines⟩ := List.forall_mem_cons.1 (h.not_infix heol)
  rw [indentedText_eq_join]
  refine of_join hborder (List.cons_ne_nil _ _) (List.forall_mem_cons.2 ⟨hline, ?_⟩)
  refine List.forall_mem_map.2 fun l hl => ?_
  cases l with
  | nil => exact hlines [] hl
  | cons c l => exact not_infix_indented heol hindent (hlines (c :: l) hl)

/-! ### Telling the content of a block -/

/-- A line without one indentation at its front. -/
def withoutIndent (indent line : List Char) : List Char := (cutFront? indent line).getD line

theorem withoutIndent_withIndent (indent line : List Char) :
    withoutIndent indent (withIndent indent line) = line := by
  cases line with
  | nil =>
    -- nothing can be taken off an empty line
    cases indent <;> rfl
  | cons c line =>
    have hcut : cutFront? indent (indent ++ c :: line) = some (c :: line) := cutFront?_eq_some.2 rfl
    unfold withoutIndent withIndent
    rw [List.isEmpty_cons, if_neg (by simp), hcut]
    rfl

/-- A text without one indentation after each line end that a line follows. -/
def withoutIndents (eol indent cs : List Char) : List Char :=
  match splitOnText eol cs.length cs with
  | [] => []
  | line :: lines => join eol (line :: lines.map (withoutIndent indent))

/-- **The content of a block**, told from the block: the first line and one indentation are taken
off its front, the lines that close it off its back, and one indentation off each line in
between. -/
def blockContent? (layout : Layout) (id block : String) : Option String :=
  (cutFront? (blockHeader layout id ++ layout.indent).toList block.toList).bind fun rest =>
    (cutBack? (layout.eol ++ blockFooter layout).toList rest).map fun body =>
      String.ofList (withoutIndents layout.eol.toList layout.indent.toList body)

theorem indentLines_of_hasLines {layout : Layout} {content : String} (heol : layout.eol ≠ "")
    (h : HasLines layout.eol.toList content.toList lines) :
    indentLines layout content =
      String.ofList (indentedText layout.eol.toList layout.indent.toList lines) := by
  have hne : layout.eol.toList ≠ [] := by simpa using heol
  unfold indentLines
  dsimp only
  rw [if_neg (by simpa using hne), indentFrom_of_hasLines hne h le_rfl]

/-- The content of a block is told from it, if its line ends do not overlap themselves and its
indentation holds nothing of them. -/
theorem blockContent?_moduleBlock {layout : Layout} (heol : layout.eol ≠ "")
    (hborder : IsUnbordered layout.eol.toList)
    (hindent : ∀ c ∈ layout.indent.toList, c ∉ layout.eol.toList) (id content : String) :
    blockContent? layout id (moduleBlock layout id content) = some content := by
  have hne : layout.eol.toList ≠ [] := by simpa using heol
  obtain ⟨lines, hlines⟩ := HasLines.exists_lines hne content.toList
  obtain ⟨line, others, rfl⟩ := List.exists_cons_of_ne_nil hlines.ne_nil
  have hbody := hlines.indented hne hborder hindent
  have hsplit := hbody.splitOnText_eq hne le_rfl
  have hblock : (moduleBlock layout id content).toList =
      (blockHeader layout id ++ layout.indent).toList ++
        ((indentLines layout content).toList ++ (layout.eol ++ blockFooter layout).toList) := by
    unfold moduleBlock blockLine
    simp only [String.toList_append, List.append_assoc]
  unfold blockContent?
  rw [cutFront?_eq_some.2 hblock, Option.bind_some, cutBack?_eq_some.2 rfl, Option.map_some,
    indentLines_of_hasLines heol hlines, String.toList_ofList]
  unfold withoutIndents
  rw [hsplit]
  dsimp only
  have hlines' : (others.map (withIndent layout.indent.toList)).map
      (withoutIndent layout.indent.toList) = others := by
    rw [List.map_map]
    exact List.map_id'' (withoutIndent_withIndent layout.indent.toList) others
  rw [hlines', hlines.join_eq, String.ofList_toList]

theorem isUnbordered_of_mem {eol : String} (h : eol = "\n" ∨ eol = "\r\n") :
    IsUnbordered eol.toList := by
  have hcheck : ∀ eol ∈ ["\n", "\r\n"], ∀ part ∈ eol.toList.inits, part ∈ eol.toList.tails →
      part = [] ∨ part = eol.toList := by decide
  intro part hfront hback
  exact hcheck eol (by simpa using h) part ((List.mem_inits _ _).2 hfront)
    ((List.mem_tails _ _).2 hback)

/-- **Indentation is line by line and loses nothing.** The lines of a text are cut at its leftmost
line ends; each one after the first is indented unless it is empty. With line ends as they are used,
and an indentation without any, the content of a block is told from the block. -/
theorem indentLines_lineWise (layout : Layout) (content : String) (heol : layout.eol ≠ "") :
    (∃ lines, HasLines layout.eol.toList content.toList lines) ∧
    (∀ lines, HasLines layout.eol.toList content.toList lines →
      indentLines layout content =
        String.ofList (indentedText layout.eol.toList layout.indent.toList lines)) ∧
    ((layout.eol = "\n" ∨ layout.eol = "\r\n") →
      (∀ c ∈ layout.indent.toList, c ≠ '\r' ∧ c ≠ '\n') →
        ∀ id, blockContent? layout id (moduleBlock layout id content) = some content ∧
          ∀ other, moduleBlock layout id other = moduleBlock layout id content →
            other = content) := by
  have hne : layout.eol.toList ≠ [] := by simpa using heol
  refine ⟨HasLines.exists_lines hne _, fun lines => indentLines_of_hasLines heol, ?_⟩
  intro hend hfree id
  have hborder := isUnbordered_of_mem hend
  have hindent : ∀ c ∈ layout.indent.toList, c ∉ layout.eol.toList := by
    intro c hc
    obtain ⟨hcr, hlf⟩ := hfree c hc
    rcases hend with hend | hend <;> simp [hend, hcr, hlf]
  have htold := blockContent?_moduleBlock heol hborder hindent id
  refine ⟨htold content, fun other hsame => ?_⟩
  -- what is told from one block is the content of both
  have hother := htold other
  rw [hsame, htold content] at hother
  exact (Option.some.inj hother).symm

/-- A text with an empty line, a line that starts with a part of a line end, and one that ends with
a part of one. -/
theorem indentLines_lineWise_crlf :
    indentLines ⟨"\r\n", "  "⟩ "a\r\n\n\r\n\r\nb\r" = "a\r\n  \n\r\n\r\n  b\r" ∧
      blockContent? ⟨"\r\n", "  "⟩ "m"
        "declare module 'm' \x7b\r\n  a\r\n  \n\r\n\r\n  b\r\r\n\x7d\r\n" =
          some "a\r\n\n\r\n\r\nb\r" := by
  obtain ⟨-, hlines, hblock⟩ :=
    indentLines_lineWise ⟨"\r\n", "  "⟩ "a\r\n\n\r\n\r\nb\r" (by decide)
  have hjoin : join "\r\n".toList [['a'], ['\n'], [], ['b', '\r']] =
      "a\r\n\n\r\n\r\nb\r".toList := by decide
  have hhas : HasLines "\r\n".toList "a\r\n\n\r\n\r\nb\r".toList
      [['a'], ['\n'], [], ['b', '\r']] := by
    rw [← hjoin]
    exact HasLines.of_join (isUnbordered_of_mem (.inr rfl)) (by decide) (by decide)
  have hfree : ∀ c ∈ "  ".toList, c ≠ '\r' ∧ c ≠ '\n' := by
    intro c hc
    obtain rfl : c = ' ' := by simpa using hc
    decide
  exact ⟨hlines _ hhas, (hblock (.inr rfl) hfree "m").1⟩

end AmbientBundle

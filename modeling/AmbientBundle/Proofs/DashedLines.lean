import AmbientBundle.Proofs.Reports

/-!
# Diagnostics with a place before a dash

A diagnostic may be printed with its place before a dash. The first dash between blanks ends the
place, wherever it stands, so that a file with such a dash in its path hides the place behind it:
the line is read as another diagnostic, or as the path of a file of the program.

* `append_eq_append_cons`: a text without a character stands before that character or after it.
* `exists_inParentheses_iff`: a place in parentheses, by the text of it.
* `inkOf_trim`: blanks apart, nothing is lost with the blanks around a text.
* `Diagnostic.dashText`: the text of a diagnostic with its place before a dash.
* `Diagnostic.IsOneLine.readDiagnostic?_eq`: a line is read from its first dash on.
* `Report.read_dashText_iff`: **a diagnostic is read back exactly if its path has no dash between
  blanks.**
-/

namespace AmbientBundle

open Text

/-! ### Where a text stands in another -/

/-- **A text without some character stands before that character or after it.** -/
theorem append_eq_append_cons {c : Char} {front mid back before after : List Char}
    (h : front ++ mid ++ back = before ++ c :: after) (hmid : c ∉ mid) :
    (∃ rest, before = front ++ mid ++ rest) ∨
      ∃ rest, front = before ++ c :: rest ∧ after = rest ++ mid ++ back := by
  rw [List.append_assoc] at h
  obtain ⟨rest, rfl, hrest⟩ | ⟨rest, rfl, hrest⟩ := List.append_eq_append_iff.1 h
  · -- the front ends before the character, so that the text does, too
    obtain ⟨tail, rfl, -⟩ | ⟨tail, rfl, htail⟩ := List.append_eq_append_iff.1 hrest
    · exact .inl ⟨tail, by simp⟩
    · cases tail with
      | nil => exact .inl ⟨[], by simp⟩
      | cons d tail =>
        have hd := (List.cons.inj htail).1
        rw [hd] at hmid
        simp at hmid
  · cases rest with
    | nil =>
      cases mid with
      | nil => exact .inl ⟨[], by simp⟩
      | cons d mid =>
        have hd := (List.cons.inj hrest).1
        rw [hd] at hmid
        simp at hmid
    | cons d rest =>
      obtain ⟨rfl, rfl⟩ := List.cons.inj hrest
      exact .inr ⟨rest, rfl, by simp⟩

/-- A character that a text does not have comes after that text. -/
theorem exists_of_append_cons {c : Char} {front back before after : List Char}
    (h : front ++ c :: back = before ++ after) (hc : c ∉ before) :
    ∃ rest, front = before ++ rest := by
  obtain ⟨rest, rfl, hrest⟩ | ⟨rest, rfl, -⟩ := List.append_eq_append_iff.1 h
  · cases rest with
    | nil => exact ⟨[], by simp⟩
    | cons d rest =>
      have hd := (List.cons.inj hrest).1
      rw [hd] at hc
      simp at hc
  · exact ⟨rest, rfl⟩

/-- A text whose last character does not come later stands before what comes later. -/
theorem exists_of_concat {c : Char} {front back before after : List Char}
    (h : front ++ c :: back = before ++ after) (hc : c ∉ after) :
    ∃ rest, before = front ++ c :: rest := by
  obtain ⟨rest, rfl, hrest⟩ | ⟨rest, rfl, hrest⟩ := List.append_eq_append_iff.1 h
  · cases rest with
    | nil =>
      rw [List.nil_append] at hrest
      rw [← hrest] at hc
      simp at hc
    | cons d rest =>
      obtain ⟨rfl, -⟩ := List.cons.inj hrest
      exact ⟨rest, rfl⟩
  · rw [hrest] at hc
    simp at hc

/-! ### Places in parentheses -/

/-- A line has a place in parentheses exactly if the text of one stands in it. -/
theorem exists_inParentheses_iff {line : List Char} :
    (∃ lead : Lead, lead.InParentheses line) ↔ ∃ front row column n m severity back,
      readNumber? row = some n ∧ readNumber? column = some m ∧
        line = front ++ '(' :: placeText row column severity ++ back := by
  constructor
  · rintro ⟨lead, row, column, after, hline, hrow, hcolumn, -⟩
    exact ⟨lead.file, row, column, lead.line, lead.column, lead.severity, after, hrow, hcolumn,
      by simpa using hline⟩
  · rintro ⟨front, row, column, n, m, severity, back, hrow, hcolumn, hline⟩
    exact ⟨⟨front, n, m, severity, 'T' :: 'S' :: back⟩, row, column, back, by simpa using hline,
      hrow, hcolumn, rfl⟩

/-- **A line with a dash has no place in parentheses** if there is none in the text around the place
and none in the message. -/
theorem not_inParentheses_dashed {file place head message : List Char}
    (hfile : ∀ lead : Lead, ¬ lead.InParentheses file) (hplace : 'S' ∉ place) (hhead : '(' ∉ head)
    (hmessage : ∀ lead : Lead, ¬ lead.InParentheses message) (lead : Lead) :
    ¬ lead.InParentheses (file ++ place ++ '-' :: (head ++ message)) := by
  intro hlead
  obtain ⟨front, row, column, n, m, severity, back, hrow, hcolumn, hline⟩ :=
    exists_inParentheses_iff.1 ⟨lead, hlead⟩
  have hdash : '-' ∉ '(' :: placeText row column severity := by
    have hin := not_mem_of_readNumber? hrow (c := '-') (by decide) (by decide)
    have hin' := not_mem_of_readNumber? hcolumn (c := '-') (by decide) (by decide)
    have hname : '-' ∉ severity.name.toList := by cases severity <;> decide
    simp [placeText, hin, hin', hname]
  rcases append_eq_append_cons hline.symm hdash with ⟨rest, hrest⟩ | ⟨rest, -, hrest⟩
  · -- before the dash: the place there does not hold the last letter of one in parentheses
    have hlast : (front ++ '(' :: (row ++ ',' :: (column ++ [')', ':', ' '] ++
        severity.name.toList ++ [' ', 'T']))) ++ 'S' :: rest = file ++ place := by
      rw [hrest]
      simp [placeText]
    obtain ⟨tail, htail⟩ := exists_of_concat hlast hplace
    obtain ⟨other, hother⟩ := exists_inParentheses_iff.2
      ⟨front, row, column, n, m, severity, tail, hrow, hcolumn, by simpa [placeText] using htail⟩
    exact hfile other hother
  · have hfirst : rest ++ '(' :: (placeText row column severity ++ back) = head ++ message := by
      rw [hrest]
      simp
    obtain ⟨tail, rfl⟩ := exists_of_append_cons hfirst hhead
    have hmid : message = tail ++ '(' :: placeText row column severity ++ back := by
      simpa [eq_comm] using hfirst
    obtain ⟨other, hother⟩ := exists_inParentheses_iff.2
      ⟨tail, row, column, n, m, severity, back, hrow, hcolumn, hmid⟩
    exact hmessage other hother

/-! ### Characters that are not blank -/

/-- How many characters of a text are not blank. -/
def inkOf (cs : List Char) : Nat := cs.countP fun c => !isBlank c

theorem inkOf_append (cs ds : List Char) : inkOf (cs ++ ds) = inkOf cs + inkOf ds :=
  List.countP_append

theorem inkOf_cons (c : Char) (cs : List Char) :
    inkOf (c :: cs) = inkOf cs + if isBlank c = true then 0 else 1 := by
  cases h : isBlank c <;> simp [inkOf, h]

theorem inkOf_blanks {blanks : List Char} (h : ∀ b ∈ blanks, isBlank b = true) :
    inkOf blanks = 0 := by
  refine List.countP_eq_zero.2 fun b hb => ?_
  simp [h b hb]

/-- **Nothing but blanks is taken off the ends of a text.** -/
theorem inkOf_trimEnd (cs : List Char) : inkOf (trimEnd cs) = inkOf cs := by
  obtain ⟨blanks, hcs, hblanks⟩ := exists_blanks cs
  have hink : inkOf cs = inkOf (trimEnd cs) + inkOf blanks := by
    rw [← inkOf_append, ← hcs]
  rw [hink, inkOf_blanks hblanks, Nat.add_zero]

theorem inkOf_trim (cs : List Char) : inkOf (trim cs) = inkOf cs := by
  have hcut : cs.takeWhile isBlank ++ trimStart cs = cs := List.takeWhile_append_dropWhile
  have hink : inkOf cs = inkOf (cs.takeWhile isBlank) + inkOf (trimStart cs) := by
    rw [← inkOf_append, hcut]
  rw [trim, inkOf_trimEnd, hink, inkOf_blanks fun b hb => List.mem_takeWhile_imp hb, Nat.zero_add]

/-! ### The line of a diagnostic -/

/-- **The first dash between blanks ends the place**, if there is none in the file. -/
theorem Lead.beforeDash_of_plain (lead : Lead) {row column : List Char}
    (hfile : ¬ [' ', '-', ' '] <:+: lead.file) (hrow : readNumber? row = some lead.line)
    (hcolumn : readNumber? column = some lead.column) (hrest : ['T', 'S'] <+: lead.rest) :
    lead.BeforeDash (lead.file ++ ':' :: (row ++ ':' :: column) ++ [' ', '-', ' '] ++
      (lead.severity.name.toList ++ ' ' :: lead.rest)) := by
  refine ⟨row, column, hrow, hcolumn, hrest, rfl, fun front back hline => ?_⟩
  have hblank := not_mem_of_readNumber? hrow (c := ' ') (by decide) (by decide)
  have hblank' := not_mem_of_readNumber? hcolumn (c := ' ') (by decide) (by decide)
  -- the dash stands after the first colon behind the file, then after the second one
  have hcut : front ++ [' ', '-', ' '] ++ back = lead.file ++ ':' :: (row ++ ':' :: (column ++
      ([' ', '-', ' '] ++ (lead.severity.name.toList ++ ' ' :: lead.rest)))) := by
    simpa using hline.symm
  rcases append_eq_append_cons hcut (by decide) with ⟨rest, hrest⟩ | ⟨rest, rfl, hafter⟩
  · exact absurd ⟨front, rest, hrest.symm⟩ hfile
  rcases append_eq_append_cons hafter.symm (by decide) with ⟨tail, htail⟩ | ⟨tail, rfl, hafter⟩
  · rw [htail] at hblank
    simp at hblank
  · have hlast : tail ++ ' ' :: ('-' :: ' ' :: back) = column ++
        ([' ', '-', ' '] ++ (lead.severity.name.toList ++ ' ' :: lead.rest)) := by
      simpa using hafter.symm
    obtain ⟨piece, rfl⟩ := exists_of_append_cons hlast hblank'
    simp only [List.length_append, List.length_cons]
    omega

namespace Diagnostic

/-- The text of a diagnostic as `file:line:column - severity code: message`. -/
def dashText (d : Diagnostic) : String :=
  match d.file with
  | some file =>
    file.text ++ ":" ++ toString d.line ++ ":" ++ toString d.column ++ " - " ++ d.body
  | none => d.body

/-- **A diagnostic on one line**, whose message does not look like one with a place in parentheses.
-/
structure IsOneLine (d : Diagnostic) : Prop where
  code : IsCode d.code
  placed : d.IsPlaced
  one_line : '\n' ∉ d.message.toList
  trimmed : trim d.message.toList = d.message.toList
  plain : ∀ lead : Lead, ¬ lead.InParentheses d.message.toList

variable {d : Diagnostic} {file : Path}

/-- What is known of the place of a diagnostic with a file. -/
theorem IsOneLine.placed_in (h : d.IsOneLine) (hfile : d.file = some file) :
    file.IsNormal ∧ '\n' ∉ file.text.toList ∧
      (∀ lead : Lead, ¬ lead.InParentheses file.text.toList) ∧
      d.line < 4294967296 ∧ d.column < 4294967296 := by
  have hplaced := h.placed
  unfold IsPlaced at hplaced
  rw [hfile] at hplaced
  exact hplaced

/-- The place of a diagnostic before the dash. -/
def placeBeforeDash (d : Diagnostic) (file : Path) : List Char :=
  file.text.toList ++ ':' :: (d.line.repr.toList ++ ':' :: d.column.repr.toList)

/-- What comes after the dash, up to the message. -/
def afterDash (d : Diagnostic) : List Char :=
  d.severity.name.toList ++ ' ' :: (d.code.toList ++ [':'])

theorem toList_dashText (hfile : d.file = some file) :
    d.dashText.toList = d.placeBeforeDash file ++ [' ', '-', ' '] ++
      (d.afterDash ++ ' ' :: d.message.toList) := by
  unfold dashText body placeBeforeDash afterDash
  rw [hfile]
  simp [toString]

/-- Blanks are taken off after the colon at most. -/
theorem trimEnd_dashText (hfile : d.file = some file) :
    trimEnd d.dashText.toList = d.placeBeforeDash file ++ [' ', '-', ' '] ++
      (d.afterDash ++ trimEnd (' ' :: d.message.toList)) := by
  have hcut := trimEnd_append_cons (c := ':') (d.placeBeforeDash file ++ [' ', '-', ' '] ++
    (d.severity.name.toList ++ ' ' :: d.code.toList)) (by decide) (' ' :: d.message.toList)
  rw [toList_dashText hfile]
  simpa [afterDash] using hcut

/-- There is no place in parentheses in the line of a diagnostic with a dash. -/
theorem IsOneLine.not_inParentheses (h : d.IsOneLine) (hfile : d.file = some file) (lead : Lead) :
    ¬ lead.InParentheses (trimEnd d.dashText.toList) := by
  have hnumber : ∀ n : Nat, 'S' ∉ Nat.toDigits 10 n := by
    intro n hmem
    exact absurd (Nat.isDigit_of_mem_toDigits (by decide) (by decide) hmem) (by decide)
  obtain ⟨-, -, hplain, -, -⟩ := h.placed_in hfile
  have hplace : 'S' ∉ ':' :: (d.line.repr.toList ++ ':' :: d.column.repr.toList) ++ [' '] := by
    simp [hnumber]
  have hhead : '(' ∉ ' ' :: (d.afterDash ++ [' ']) := by
    obtain ⟨digits, hcode, hdigits⟩ := h.code
    have hname : '(' ∉ d.severity.name.toList := by cases d.severity <;> decide
    have hcoded : '(' ∉ digits := fun hmem => absurd (hdigits _ hmem) (by decide)
    simp [afterDash, hcode, hname, hcoded]
  intro hlead
  -- the blanks at the end make no difference
  obtain ⟨blanks, htext, -⟩ := exists_blanks d.dashText.toList
  obtain ⟨front, row, column, n, m, severity, back, hrow, hcolumn, hline⟩ :=
    exists_inParentheses_iff.1 ⟨lead, hlead⟩
  obtain ⟨other, hother⟩ := exists_inParentheses_iff.2
    ⟨front, row, column, n, m, severity, back ++ blanks, hrow, hcolumn, rfl⟩
  refine not_inParentheses_dashed hplain hplace hhead h.plain other ?_
  have hwhole : front ++ '(' :: placeText row column severity ++ (back ++ blanks) =
      file.text.toList ++ (':' :: (d.line.repr.toList ++ ':' :: d.column.repr.toList) ++ [' ']) ++
        '-' :: (' ' :: (d.afterDash ++ [' ']) ++ d.message.toList) := by
    rw [← List.append_assoc, ← hline, ← htext, toList_dashText hfile]
    simp [placeBeforeDash]
  rw [← hwhole]
  exact hother

/-- **The line of a diagnostic with a dash is read by that dash**, as it starts with a path and has
no place in parentheses. -/
theorem IsOneLine.readDiagnostic?_eq (h : d.IsOneLine) (hfile : d.file = some file) (cwd : Path) :
    readDiagnostic? cwd (trimEnd d.dashText.toList) =
      (Lead.ofDash? (trimEnd d.dashText.toList)).bind (Lead.diagnostic? cwd) := by
  have hstart : ¬ StartsWithSeverity (trimEnd d.dashText.toList) := by
    obtain ⟨cs, hslash⟩ := (h.placed_in hfile).1.exists_slash
    rw [trimEnd_dashText hfile, placeBeforeDash, hslash]
    exact not_startsWithSeverity _
  have hnone : firstLead? (trimEnd d.dashText.toList) = none := by
    rw [← Option.not_isSome_iff_eq_none, firstLead?_isSome]
    rintro ⟨lead, hlead⟩
    exact h.not_inParentheses hfile lead hlead
  rw [AmbientBundle.readDiagnostic?_eq cwd hstart, hnone, Option.bind_none, Option.none_or]

/-- Severity, code and message are told apart after the dash. -/
theorem IsOneLine.isCoded (h : d.IsOneLine) :
    IsCoded (d.code.toList ++ ':' :: trimEnd (' ' :: d.message.toList)) d.code.toList
      d.message.toList := by
  obtain ⟨digits, hcode, hdigits⟩ := h.code
  exact ⟨digits, [], trimEnd (' ' :: d.message.toList), by simp, hcode, hdigits, by simp,
    (trim_message h.trimmed).symm⟩

/-- **A diagnostic is read from its line** if no dash between blanks stands in its path. -/
theorem IsOneLine.readDiagnostic?_of_plain (h : d.IsOneLine) (hfile : d.file = some file)
    (hdash : ¬ [' ', '-', ' '] <:+: file.text.toList) (cwd : Path) :
    readDiagnostic? cwd (trimEnd d.dashText.toList) = some d := by
  obtain ⟨hnormal, -, -, hrow, hcolumn⟩ := h.placed_in hfile
  have hcoded := h.isCoded
  have hlead : Lead.ofDash? (trimEnd d.dashText.toList) = some
      ⟨file.text.toList, d.line, d.column, d.severity,
        d.code.toList ++ ':' :: trimEnd (' ' :: d.message.toList)⟩ := by
    refine Lead.ofDash?_eq_some.2 ?_
    have hbefore := Lead.beforeDash_of_plain ⟨file.text.toList, d.line, d.column, d.severity,
      d.code.toList ++ ':' :: trimEnd (' ' :: d.message.toList)⟩ hdash (readNumber?_repr hrow)
      (readNumber?_repr hcolumn) hcoded.starts
    rw [trimEnd_dashText hfile]
    simpa [placeBeforeDash, afterDash] using hbefore
  rw [h.readDiagnostic?_eq hfile, hlead, Option.bind_some, Lead.diagnostic?_of_isCoded cwd hcoded]
  simp [Path.absolutize_of_isNormal hnormal, ← hfile]

/-- **A diagnostic is not read from its line** if a dash between blanks stands in its path: whatever
is read there would have to be shorter. -/
theorem IsOneLine.readDiagnostic?_ne (h : d.IsOneLine) (hfile : d.file = some file)
    (hdash : [' ', '-', ' '] <:+: file.text.toList) (cwd : Path) :
    readDiagnostic? cwd (trimEnd d.dashText.toList) ≠ some d := by
  rw [h.readDiagnostic?_eq hfile]
  intro hread
  obtain ⟨lead, hlead, hd⟩ := Option.bind_eq_some_iff.1 hread
  obtain ⟨row, column, -, -, hstart, hline, hfirst⟩ := Lead.ofDash?_eq_some.1 hlead
  obtain ⟨code, message, hcoded⟩ := Lead.isCoded_of_diagnostic? hstart hd
  rw [Lead.diagnostic?_of_isCoded cwd hcoded, Option.some.injEq] at hd
  have hcode : code = d.code.toList := by rw [← hd, String.toList_ofList]
  have hmessage : message = d.message.toList := by rw [← hd, String.toList_ofList]
  have hseverity : lead.severity = d.severity := by rw [← hd]
  obtain ⟨digits, blanks, after, hrest, -, -, hblanks, htrim⟩ := hcoded
  -- the place that was read ends before the dash in the path
  obtain ⟨front, back, hpath⟩ := hdash
  have hshort : (lead.file ++ ':' :: (row ++ ':' :: column)).length ≤ front.length := by
    refine hfirst front (back ++ ':' :: (d.line.repr.toList ++ ':' :: d.column.repr.toList) ++
      [' ', '-', ' '] ++ (d.afterDash ++ trimEnd (' ' :: d.message.toList))) ?_
    rw [trimEnd_dashText hfile, placeBeforeDash, ← hpath]
    simp
  have hinside : lead.file ++ ':' :: (row ++ ':' :: column) <+: file.text.toList := by
    have hprefix : lead.file ++ ':' :: (row ++ ':' :: column) <+: trimEnd d.dashText.toList := by
      rw [hline, List.append_assoc]
      exact List.prefix_append _ _
    have hprefix' : file.text.toList <+: trimEnd d.dashText.toList := by
      rw [trimEnd_dashText hfile, placeBeforeDash, List.append_assoc, List.append_assoc]
      exact List.prefix_append _ _
    refine List.prefix_of_prefix_length_le hprefix hprefix' ?_
    rw [← hpath]
    simp only [List.length_append] at hshort ⊢
    omega
  -- but then the characters that are not blank do not add up
  have hle : inkOf (lead.file ++ ':' :: (row ++ ':' :: column)) ≤ inkOf file.text.toList :=
    hinside.countP_le
  have hink := congrArg inkOf hline
  have hafter : inkOf after = inkOf d.message.toList := by rw [← inkOf_trim, ← htrim, hmessage]
  have hcolon : isBlank ':' = false := by decide
  have hspace : isBlank ' ' = true := by decide
  rw [trimEnd_dashText hfile, hrest, hcode, hseverity] at hink
  simp only [placeBeforeDash, afterDash, inkOf_append, inkOf_cons, inkOf_trimEnd,
    inkOf_blanks hblanks, hafter, hcolon, hspace] at hink hle
  simp only [Bool.false_eq_true, if_false, if_true] at hink hle
  omega

end Diagnostic

/-! ### The report of one line -/

namespace Report

/-- What a single line reports is a diagnostic if the line is read as one. -/
theorem read_line_iff (cwd : Path) {text : String} (hline : '\n' ∉ text.toList) {d : Diagnostic} :
    read cwd text = ⟨[d], []⟩ ↔ readDiagnostic? cwd (trimEnd text.toList) = some d := by
  have hsplit : split '\n' text.toList = [text.toList] := by
    have hone : ∀ line ∈ [text.toList], '\n' ∉ line := by simpa using hline
    simpa using split_intercalate (by simp) hone
  have hread : read cwd text =
      (State.step cwd ⟨empty, false⟩ (trimEnd text.toList)).report := by
    unfold read
    rw [hsplit]
    rfl
  rw [hread]
  generalize trimEnd text.toList = line
  unfold State.step
  by_cases hempty : line.isEmpty = true
  · -- an empty line says nothing
    rw [if_pos hempty, List.isEmpty_iff.1 hempty]
    constructor
    · intro h; cases h
    · intro h; cases h
  · rw [if_neg hempty]
    cases hd : readDiagnostic? cwd line with
    | some other => simp [empty]
    | none =>
      dsimp only
      rw [Bool.false_and, if_neg (by simp)]
      split <;> simp [empty]

/-- **A diagnostic with its place before a dash is read back exactly if its path has no dash between
blanks.** Whatever else the path holds, and whatever the message, the line is one diagnostic, with
this file, place, severity, code and message, and no file of the program. -/
theorem read_dashText_iff (cwd : Path) {d : Diagnostic} {file : Path} (hfile : d.file = some file)
    (h : d.IsOneLine) :
    read cwd d.dashText = ⟨[d], []⟩ ↔ ¬ [' ', '-', ' '] <:+: file.text.toList := by
  have hline : '\n' ∉ d.dashText.toList := by
    -- the parts before the message are those of the other form
    have hfront := State.newline_not_mem_front h.placed h.code
    simp only [Diagnostic.front, hfile, Nat.toList_repr, List.mem_append, List.mem_cons,
      not_or] at hfront
    rw [Diagnostic.toList_dashText hfile]
    simp only [Diagnostic.placeBeforeDash, Diagnostic.afterDash, List.mem_append, List.mem_cons,
      not_or]
    simp [hfront, h.one_line]
  rw [read_line_iff cwd hline]
  constructor
  · intro hread hdash
    exact h.readDiagnostic?_ne hfile hdash cwd hread
  · intro hdash
    exact h.readDiagnostic?_of_plain hfile hdash cwd

end Report

/-! ### Two paths -/

namespace Sample

/-- A diagnostic whose path holds blanks, dashes and colons, but no dash between blanks, and whose
message looks like two others. -/
def hyphenated : Diagnostic :=
  ⟨some ⟨"/a -b:3:4- error TS1: c/(5,6): d.ts"⟩, 4294967295, 0, "TS2304",
    "Not /e:1:2 - error TS3: this, nor (1,2): error 5.", .suggestion⟩

theorem hyphenated_isOneLine : hyphenated.IsOneLine where
  code := ⟨"2304".toList, by decide, List.all_eq_true.1 (by decide)⟩
  placed := ⟨by decide +kernel, by decide +kernel,
    not_inParentheses_of_firstLead? (by decide +kernel), by decide, by decide⟩
  one_line := by decide +kernel
  trimmed := by decide +kernel
  plain := not_inParentheses_of_firstLead? (by decide +kernel)

/-- A diagnostic in a directory with a dash between blanks in its name. -/
def spaced : Diagnostic :=
  ⟨some ⟨"/my - app/a.ts"⟩, 3, 7, "TS2304", "Cannot find name 'foo'.", .error⟩

theorem spaced_isOneLine : spaced.IsOneLine where
  code := ⟨"2304".toList, by decide, List.all_eq_true.1 (by decide)⟩
  placed := ⟨by decide +kernel, by decide +kernel,
    not_inParentheses_of_firstLead? (by decide +kernel), by decide, by decide⟩
  one_line := by decide +kernel
  trimmed := by decide +kernel
  plain := not_inParentheses_of_firstLead? (by decide +kernel)

end Sample

theorem Report.read_dashText_iff_hyphenated :
    Sample.hyphenated.IsOneLine ∧
    ¬ [' ', '-', ' '] <:+: "/a -b:3:4- error TS1: c/(5,6): d.ts".toList ∧
    Report.read ⟨"/work"⟩ Sample.hyphenated.dashText = ⟨[Sample.hyphenated], []⟩ := by
  have hdash : ¬ [' ', '-', ' '] <:+: "/a -b:3:4- error TS1: c/(5,6): d.ts".toList := by
    decide +kernel
  exact ⟨Sample.hyphenated_isOneLine, hdash,
    (Report.read_dashText_iff ⟨"/work"⟩ rfl Sample.hyphenated_isOneLine).2 hdash⟩

/-- **An error disappears**: its line is taken for the path of a file of the program. -/
theorem spaced_diagnostic_lost :
    Sample.spaced.IsOneLine ∧
    Report.read ⟨"/work"⟩ Sample.spaced.dashText = ⟨[], [⟨Sample.spaced.dashText⟩]⟩ := by
  exact ⟨Sample.spaced_isOneLine, by decide +kernel⟩

end AmbientBundle

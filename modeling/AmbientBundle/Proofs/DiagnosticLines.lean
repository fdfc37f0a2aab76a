import AmbientBundle.Compiler.Report
import AmbientBundle.Proofs.Cutting

/-!
# Lines that are diagnostics

A line is a diagnostic if it names a severity and a code, at its front or after a place. The place
stands in parentheses or before a dash, and the file before it may hold anything, parentheses and
dashes too.

* `readNumber?_repr`: numbers are read as they are written.
* `readSeverity?_eq_some`, `readCode?_eq_some`: severities and codes, by the texts they stand for.
* `firstLead?_eq_some`: of all places in parentheses, the one with the shortest file counts.
* `IsDiagnosticLine`: the form of a diagnostic.
* `exists_readDiagnostic?`: **a line is read as a diagnostic exactly if it has the form of one.**
-/

namespace AmbientBundle

open Text

/-! ### Numbers -/

/-- A number is written with digits, and perhaps a plus sign. -/
theorem isDigit_of_readNumber? {cs : List Char} {n : Nat} (h : readNumber? cs = some n) :
    ∀ c ∈ cs, c.isDigit = true ∨ c = '+' := by
  unfold readNumber? at h
  dsimp only at h
  split at h
  · cases h
  · next hdigits =>
    have hall : ∀ c ∈ (cutFront? ['+'] cs).getD cs, c.isDigit = true := by
      simp only [Bool.or_eq_true, not_or, Bool.not_eq_true, Bool.not_eq_false'] at hdigits
      exact List.all_eq_true.1 hdigits.2
    cases hcut : cutFront? ['+'] cs with
    | none =>
      rw [hcut] at hall
      exact fun c hc => .inl (hall c hc)
    | some rest =>
      rw [hcut] at hall
      rw [cutFront?_eq_some.1 hcut]
      intro c hc
      rcases List.mem_append.1 hc with hc | hc
      · exact .inr (List.mem_singleton.1 hc)
      · exact .inl (hall c hc)

theorem not_mem_of_readNumber? {cs : List Char} {n : Nat} (h : readNumber? cs = some n) {c : Char}
    (hdigit : c.isDigit = false) (hplus : c ≠ '+') : c ∉ cs := by
  intro hc
  rcases isDigit_of_readNumber? h c hc with hc | hc
  · rw [hdigit] at hc
    cases hc
  · exact hplus hc

/-- **Numbers are read as they are written.** -/
theorem readNumber?_repr {n : Nat} (h : n < 4294967296) : readNumber? n.repr.toList = some n := by
  have hdigit : ∀ c ∈ Nat.toDigits 10 n, c.isDigit = true := fun c hc =>
    Nat.isDigit_of_mem_toDigits (by decide) (by decide) hc
  have hcut : cutFront? ['+'] (Nat.toDigits 10 n) = none := by
    rw [Option.eq_none_iff_forall_not_mem]
    intro rest hrest
    have hplus := hdigit '+' (by rw [cutFront?_eq_some.1 hrest]; exact List.mem_cons_self)
    revert hplus
    decide
  have hne : Nat.toDigits 10 n ≠ [] := Nat.toDigits_ne_nil
  have hvalue : (Nat.toDigits 10 n).foldl (fun n c => 10 * n + (c.toNat - '0'.toNat)) 0 = n :=
    Nat.ofDigitChars_ten_toDigits
  unfold readNumber?
  dsimp only
  rw [Nat.toList_repr, hcut, Option.getD_none, hvalue, if_neg, if_pos h]
  simpa [hne] using hdigit

/-! ### Severities and codes -/

theorem Severity.mem_all (severity : Severity) : severity ∈ Severity.all := by
  cases severity <;> decide

/-- No severity has a name that starts another. -/
theorem Severity.name_inj {severity other : Severity} {rest rest' : List Char}
    (h : severity.name.toList ++ ' ' :: rest = other.name.toList ++ ' ' :: rest') :
    severity = other ∧ rest = rest' := by
  have hblank : ∀ severity : Severity, ' ' ∉ severity.name.toList := by
    intro severity
    cases severity <;> decide
  have hsame : splitFirst? [' '] (severity.name.toList ++ ' ' :: rest) =
      splitFirst? [' '] (other.name.toList ++ ' ' :: rest') := congrArg _ h
  rw [splitFirst?_append (hblank severity), splitFirst?_append (hblank other)] at hsame
  obtain ⟨hname, hrest⟩ := Prod.mk.inj (Option.some.inj hsame)
  refine ⟨?_, hrest⟩
  revert hname
  cases severity <;> cases other <;> decide

theorem startsWith_iff {front cs : List Char} : startsWith front cs = true ↔ front <+: cs := by
  unfold startsWith
  rw [Option.isSome_iff_exists]
  constructor
  · rintro ⟨rest, hrest⟩
    exact ⟨rest, (cutFront?_eq_some.1 hrest).symm⟩
  · rintro ⟨rest, rfl⟩
    exact ⟨rest, cutFront?_eq_some.2 rfl⟩

/-- A severity before the start of a code, one severity at a time. -/
theorem cutSeverity_eq_some {cs rest : List Char} {severity found : Severity} :
    ((cutFront? (severity.name.toList ++ [' ']) cs).bind fun rest =>
        if startsWith ['T', 'S'] rest = true then some (severity, rest) else none) =
        some (found, rest) ↔
      severity = found ∧ cs = found.name.toList ++ ' ' :: rest ∧ ['T', 'S'] <+: rest := by
  rw [Option.bind_eq_some_iff]
  constructor
  · rintro ⟨rest', hcut, hif⟩
    split at hif
    · next hstart =>
      cases hif
      refine ⟨rfl, ?_, startsWith_iff.1 hstart⟩
      rw [cutFront?_eq_some.1 hcut, List.append_assoc]
      rfl
    · cases hif
  · rintro ⟨rfl, rfl, hstart⟩
    refine ⟨rest, cutFront?_eq_some.2 (by simp), ?_⟩
    rw [if_pos (startsWith_iff.2 hstart)]

theorem readSeverity?_eq_some {cs rest : List Char} {severity : Severity} :
    readSeverity? cs = some (severity, rest) ↔
      cs = severity.name.toList ++ ' ' :: rest ∧ ['T', 'S'] <+: rest := by
  have hsound : ∀ {found : Severity} {after : List Char}, readSeverity? cs = some (found, after) →
      cs = found.name.toList ++ ' ' :: after ∧ ['T', 'S'] <+: after := by
    intro found after h
    obtain ⟨other, -, hother⟩ := List.exists_of_findSome?_eq_some h
    exact (cutSeverity_eq_some.1 hother).2
  refine ⟨hsound, fun h => ?_⟩
  -- some severity is found, and it is this one, as no name starts another
  have hfound : (readSeverity? cs).isSome = true :=
    List.findSome?_isSome_iff.2 ⟨severity, severity.mem_all,
      Option.isSome_iff_exists.2 ⟨_, cutSeverity_eq_some.2 ⟨rfl, h⟩⟩⟩
  obtain ⟨⟨found, after⟩, hread⟩ := Option.isSome_iff_exists.1 hfound
  obtain ⟨rfl, rfl⟩ := Severity.name_inj (h.1.symm.trans (hsound hread).1)
  exact hread

/-- **What stands after a severity**: a code, and a message after a colon. -/
def IsCoded (rest code message : List Char) : Prop :=
  ∃ digits blanks after, rest = code ++ blanks ++ ':' :: after ∧ code = 'T' :: 'S' :: digits ∧
    (∀ c ∈ digits, c.isDigit = true) ∧ (∀ b ∈ blanks, isBlank b = true) ∧ message = trim after

theorem isBlank_of_isDigit {c : Char} (h : c.isDigit = true) : isBlank c = false := by
  simp only [Char.isDigit, Bool.and_eq_true, decide_eq_true_eq] at h
  have hlow : 48 ≤ c.toNat := h.1
  have hhigh : c.toNat ≤ 57 := h.2
  simp only [isBlank, Bool.or_eq_false_iff, Bool.and_eq_false_iff, decide_eq_false_iff_not,
    beq_eq_false_iff_ne]
  omega

/-- A code holds no blanks. -/
theorem isBlank_of_mem_code {digits : List Char} (h : ∀ c ∈ digits, c.isDigit = true) :
    ∀ c ∈ 'T' :: 'S' :: digits, isBlank c = false := by
  intro c hc
  rcases List.mem_cons.1 hc with rfl | hc
  · decide
  rcases List.mem_cons.1 hc with rfl | hc
  · decide
  · exact isBlank_of_isDigit (h c hc)

/-- A code and the blanks after it hold no colon. -/
theorem colon_not_mem_code {digits blanks : List Char} (h : ∀ c ∈ digits, c.isDigit = true)
    (hblanks : ∀ b ∈ blanks, isBlank b = true) : ':' ∉ 'T' :: 'S' :: digits ++ blanks := by
  intro hmem
  rcases List.mem_append.1 hmem with hmem | hmem
  · have hdigit : ':' ∈ digits := by simpa using hmem
    exact absurd (h ':' hdigit) (by decide)
  · exact absurd (hblanks ':' hmem) (by decide)

theorem trim_code {digits blanks : List Char} (h : ∀ c ∈ digits, c.isDigit = true)
    (hblanks : ∀ b ∈ blanks, isBlank b = true) :
    trim ('T' :: 'S' :: digits ++ blanks) = 'T' :: 'S' :: digits := by
  have hfront : trimStart ('T' :: 'S' :: digits ++ blanks) = 'T' :: 'S' :: digits ++ blanks := by
    rw [trimStart, List.cons_append, List.dropWhile_cons_of_neg (by decide)]
  rw [trim, hfront, trimEnd_append_blanks (isBlank_of_mem_code h) hblanks]

theorem readCode?_eq_some {rest code message : List Char} (hstart : ['T', 'S'] <+: rest) :
    readCode? rest = some (code, message) ↔ IsCoded rest code message := by
  constructor
  · intro h
    obtain ⟨⟨before, after⟩, hsplit, hread⟩ := Option.bind_eq_some_iff.1 h
    obtain ⟨digits, hdigits, hread⟩ := Option.bind_eq_some_iff.1 hread
    obtain ⟨rfl, -⟩ := splitFirst?_eq_some.1 hsplit
    split at hread
    · next hall =>
      cases hread
      have hcode := cutFront?_eq_some.1 hdigits
      -- the text starts with a code, so that blanks are taken off its end alone
      have hfront : trimStart before = before := by
        cases before with
        | nil => rfl
        | cons c before =>
          obtain ⟨rest, hrest⟩ := hstart
          have hc : c = 'T' := by simpa using congrArg List.head? hrest.symm
          rw [trimStart, List.dropWhile_cons_of_neg (by rw [hc]; decide)]
      have htrim : trim before = trimEnd before := by rw [trim, hfront]
      obtain ⟨blanks, hbefore, hblanks⟩ := exists_blanks before
      refine ⟨digits, blanks, after, ?_, hcode, List.all_eq_true.1 hall, hblanks, rfl⟩
      rw [htrim, ← hbefore]
    · cases hread
  · rintro ⟨digits, blanks, after, rfl, rfl, hdigits, hblanks, rfl⟩
    have hcut : cutFront? ['T', 'S'] ('T' :: 'S' :: digits) = some digits :=
      cutFront?_eq_some.2 rfl
    unfold readCode?
    rw [splitFirst?_append (colon_not_mem_code hdigits hblanks)]
    dsimp only [bind, Option.bind_some]
    rw [trim_code hdigits hblanks, hcut, Option.bind_some, if_pos (List.all_eq_true.2 hdigits)]

/-! ### Places in parentheses -/

/-- What follows the parenthesis before a place, up to the start of a code. -/
def placeText (row column : List Char) (severity : Severity) : List Char :=
  row ++ ',' :: (column ++ [')', ':', ' '] ++ severity.name.toList ++ [' ', 'T', 'S'])

/-- **A line with a place in parentheses** before a severity and the start of a code. -/
def Lead.InParentheses (lead : Lead) (line : List Char) : Prop :=
  ∃ row column after, line = lead.file ++ '(' :: (placeText row column lead.severity ++ after) ∧
    readNumber? row = some lead.line ∧ readNumber? column = some lead.column ∧
    lead.rest = 'T' :: 'S' :: after

/-- Where a text with one parenthesis at its front starts before another parenthesis, it ends
before it too. -/
theorem exists_of_length_lt {c : Char} {front mid back file tail : List Char}
    (h : front ++ c :: (mid ++ back) = file ++ c :: tail) (hmid : c ∉ mid)
    (hlt : front.length < file.length) : ∃ rest, file = front ++ c :: (mid ++ rest) := by
  obtain ⟨piece, rfl, hpiece⟩ | ⟨piece, rfl, -⟩ := List.append_eq_append_iff.1 h
  · cases piece with
    | nil => simp at hlt
    | cons d piece =>
      obtain ⟨rfl, hmids⟩ := List.cons.inj hpiece
      obtain ⟨rest, rfl, -⟩ | ⟨rest, rfl, hrest⟩ := List.append_eq_append_iff.1 hmids
      · exact ⟨rest, rfl⟩
      · cases rest with
        | nil => exact ⟨[], by simp⟩
        | cons e rest =>
          obtain ⟨rfl, -⟩ := List.cons.inj hrest
          simp at hmid
  · simp only [List.length_append] at hlt
    omega

theorem paren_not_mem_place {row column : List Char} {n m : Nat}
    (hrow : readNumber? row = some n) (hcolumn : readNumber? column = some m) :
    '(' ∉ row ++ ',' :: column := by
  have hin := not_mem_of_readNumber? hrow (c := '(') (by decide) (by decide)
  have hin' := not_mem_of_readNumber? hcolumn (c := '(') (by decide) (by decide)
  simp [hin, hin']

theorem paren_not_mem_placeText {row column : List Char} {n m : Nat}
    (hrow : readNumber? row = some n) (hcolumn : readNumber? column = some m) (severity : Severity) :
    '(' ∉ placeText row column severity := by
  have hplace := paren_not_mem_place hrow hcolumn
  have hname : '(' ∉ severity.name.toList := by cases severity <;> decide
  simp only [List.mem_append, List.mem_cons, not_or] at hplace
  simp [placeText, hplace, hname]

theorem Lead.ofParentheses?_eq_some {before after : List Char} {lead : Lead} :
    Lead.ofParentheses? before after = some lead ↔ ∃ row column,
      before = lead.file ++ '(' :: (row ++ ',' :: column) ∧ readNumber? row = some lead.line ∧
      readNumber? column = some lead.column ∧
      readSeverity? after = some (lead.severity, lead.rest) := by
  constructor
  · intro h
    obtain ⟨⟨file, place⟩, hfile, h⟩ := Option.bind_eq_some_iff.1 h
    obtain ⟨⟨row, column⟩, hplace, h⟩ := Option.bind_eq_some_iff.1 h
    obtain ⟨n, hrow, h⟩ := Option.bind_eq_some_iff.1 h
    obtain ⟨m, hcolumn, h⟩ := Option.bind_eq_some_iff.1 h
    obtain ⟨⟨severity, rest⟩, hseverity, h⟩ := Option.bind_eq_some_iff.1 h
    cases h
    rw [(splitLast?_eq_some.1 hfile).1, (splitFirst?_eq_some.1 hplace).1]
    exact ⟨row, column, rfl, hrow, hcolumn, hseverity⟩
  · rintro ⟨row, column, rfl, hrow, hcolumn, hseverity⟩
    have hplace := paren_not_mem_place hrow hcolumn
    have hcomma : ',' ∉ row := not_mem_of_readNumber? hrow (by decide) (by decide)
    unfold Lead.ofParentheses?
    rw [splitLast?_append _ hplace]
    dsimp only [bind, Option.bind_some]
    rw [splitFirst?_append hcomma]
    dsimp only [Option.bind_some]
    rw [hrow, hcolumn, hseverity]
    rfl

/-- Places in parentheses are found where a closing parenthesis stands. -/
theorem Lead.inParentheses_iff {lead : Lead} {line : List Char} : lead.InParentheses line ↔
    ∃ place ∈ occurrences [')', ':', ' '] line,
      Lead.ofParentheses? place.1 place.2 = some lead := by
  simp only [Lead.ofParentheses?_eq_some, readSeverity?_eq_some]
  constructor
  · rintro ⟨row, column, after, hline, hrow, hcolumn, hrest⟩
    refine ⟨(lead.file ++ '(' :: (row ++ ',' :: column),
      lead.severity.name.toList ++ ' ' :: lead.rest), (mem_occurrences (by simp)).2 ?_, row, column,
      rfl, hrow, hcolumn, rfl, ?_⟩
    · rw [hline, hrest]
      simp [placeText]
    · exact ⟨after, hrest.symm⟩
  · rintro ⟨⟨before, after⟩, hplace, row, column, hbefore, hrow, hcolumn, hafter, rest, hrest⟩
    refine ⟨row, column, rest, ?_, hrow, hcolumn, hrest.symm⟩
    rw [(mem_occurrences (by simp)).1 hplace]
    dsimp only at hbefore hafter
    rw [hbefore, hafter, ← hrest]
    simp [placeText]

/-- Of two places, the one that closes first has the shorter file. -/
theorem Lead.length_le_of_places {lead other : Lead} {line : List Char}
    {place place' : List Char × List Char} (hplace : place ∈ occurrences [')', ':', ' '] line)
    (hlead : Lead.ofParentheses? place.1 place.2 = some lead)
    (hplace' : place' ∈ occurrences [')', ':', ' '] line)
    (hother : Lead.ofParentheses? place'.1 place'.2 = some other)
    (hlt : place.1.length < place'.1.length) : lead.file.length ≤ other.file.length := by
  obtain ⟨row, column, hbefore, -⟩ := Lead.ofParentheses?_eq_some.1 hlead
  obtain ⟨row', column', hbefore', hrow', hcolumn', -⟩ := Lead.ofParentheses?_eq_some.1 hother
  have hline := (mem_occurrences (by simp)).1 hplace
  have hline' := (mem_occurrences (by simp)).1 hplace'
  by_contra hshorter
  have hparen := paren_not_mem_place hrow' hcolumn'
  -- otherwise the later place would lie within the file of the first
  have hsame : other.file ++ '(' :: ((row' ++ ',' :: column') ++ ([')', ':', ' '] ++ place'.2)) =
      lead.file ++ '(' :: ((row ++ ',' :: column) ++ ([')', ':', ' '] ++ place.2)) := by
    rw [hbefore] at hline
    rw [hbefore'] at hline'
    simpa using hline'.symm.trans hline
  obtain ⟨rest, hfile⟩ := exists_of_length_lt hsame hparen (by omega)
  have hlength : place'.1.length ≤ lead.file.length := by
    rw [hfile, hbefore']
    simp only [List.length_append, List.length_cons]
    omega
  have hlength' : lead.file.length ≤ place.1.length := by
    rw [hbefore, List.length_append]
    omega
  omega

/-- **There is one place after each file.** -/
theorem Lead.InParentheses.unique {lead other : Lead} {line : List Char}
    (h : lead.InParentheses line) (h' : other.InParentheses line)
    (hlength : lead.file.length = other.file.length) : lead = other := by
  obtain ⟨row, column, after, hline, hrow, hcolumn, hrest⟩ := h
  obtain ⟨row', column', after', hline', hrow', hcolumn', hrest'⟩ := h'
  obtain ⟨hfile, hplace⟩ := List.append_inj (hline.symm.trans hline') hlength
  have hplace := (List.cons.inj hplace).2
  unfold placeText at hplace
  simp only [List.append_assoc, List.cons_append] at hplace
  have hcomma := congrArg (splitFirst? [',']) hplace
  rw [splitFirst?_append (not_mem_of_readNumber? hrow (by decide) (by decide)),
    splitFirst?_append (not_mem_of_readNumber? hrow' (by decide) (by decide))] at hcomma
  obtain ⟨rfl, hcolumns⟩ := Prod.mk.inj (Option.some.inj hcomma)
  have hparen := congrArg (splitFirst? [')']) hcolumns
  rw [splitFirst?_append (not_mem_of_readNumber? hcolumn (by decide) (by decide)),
    splitFirst?_append (not_mem_of_readNumber? hcolumn' (by decide) (by decide))] at hparen
  obtain ⟨rfl, hends⟩ := Prod.mk.inj (Option.some.inj hparen)
  obtain ⟨hseverity, hafter⟩ := Severity.name_inj
    (List.cons.inj (List.cons.inj hends).2).2
  cases lead
  cases other
  simp_all

/-- The first place in parentheses. -/
def firstLead? (line : List Char) : Option Lead :=
  (occurrences [')', ':', ' '] line).findSome? fun (before, after) =>
    Lead.ofParentheses? before after

theorem firstLead?_isSome {line : List Char} :
    (firstLead? line).isSome = true ↔ ∃ lead : Lead, lead.InParentheses line := by
  unfold firstLead?
  rw [List.findSome?_isSome_iff]
  simp only [Option.isSome_iff_exists, Lead.inParentheses_iff]
  constructor
  · rintro ⟨place, hplace, lead, hlead⟩
    exact ⟨lead, place, hplace, hlead⟩
  · rintro ⟨lead, place, hplace, hlead⟩
    exact ⟨place, hplace, lead, hlead⟩

/-- Whether there is a place in parentheses can be found out. -/
theorem not_inParentheses_of_firstLead? {line : List Char}
    (h : (firstLead? line).isSome = false) (lead : Lead) : ¬ lead.InParentheses line := by
  intro hlead
  rw [firstLead?_isSome.2 ⟨lead, hlead⟩] at h
  cases h

/-- **Of all places in parentheses, the one with the shortest file counts.** -/
theorem firstLead?_eq_some {line : List Char} {lead : Lead} :
    firstLead? line = some lead ↔ lead.InParentheses line ∧
      ∀ other : Lead, other.InParentheses line → lead.file.length ≤ other.file.length := by
  have hfirst : ∀ {lead : Lead}, firstLead? line = some lead → lead.InParentheses line ∧
      ∀ other : Lead, other.InParentheses line → lead.file.length ≤ other.file.length := by
    intro lead h
    obtain ⟨earlier, place, later, hplaces, hlead, hnone⟩ := List.findSome?_eq_some_iff.1 h
    have hplace : place ∈ occurrences [')', ':', ' '] line := by rw [hplaces]; simp
    refine ⟨Lead.inParentheses_iff.2 ⟨place, hplace, hlead⟩, fun other hother => ?_⟩
    obtain ⟨place', hplace', hother⟩ := Lead.inParentheses_iff.1 hother
    have hmem := hplace'
    rw [hplaces] at hmem
    rcases List.mem_append.1 hmem with hearlier | hmem
    · cases (hnone place' hearlier).symm.trans hother
    rcases List.mem_cons.1 hmem with rfl | hlater
    · cases hlead.symm.trans hother
      exact le_rfl
    · have hpairwise := occurrences_pairwise [')', ':', ' '] line
      rw [hplaces] at hpairwise
      have hlt := List.rel_of_pairwise_cons (List.pairwise_append.1 hpairwise).2.1 hlater
      exact Lead.length_le_of_places hplace hlead hplace' hother hlt
  refine ⟨hfirst, fun ⟨hlead, hleast⟩ => ?_⟩
  obtain ⟨found, hfound⟩ := Option.isSome_iff_exists.1 (firstLead?_isSome.2 ⟨lead, hlead⟩)
  obtain ⟨hin, hleast'⟩ := hfirst hfound
  have hlength := Nat.le_antisymm (hleast found hin) (hleast' lead hlead)
  rw [hfound, hlead.unique hin hlength]

/-- **A file without such a place** is followed by the first one. -/
theorem firstLead?_append {file row column : List Char} {n m : Nat}
    (hfile : ∀ lead : Lead, ¬ lead.InParentheses file) (hrow : readNumber? row = some n)
    (hcolumn : readNumber? column = some m) (severity : Severity) (after : List Char) :
    firstLead? (file ++ '(' :: (placeText row column severity ++ after)) =
      some ⟨file, n, m, severity, 'T' :: 'S' :: after⟩ := by
  refine firstLead?_eq_some.2 ⟨⟨row, column, after, rfl, hrow, hcolumn, rfl⟩, ?_⟩
  rintro other ⟨row', column', after', hline, hrow', hcolumn', hrest⟩
  by_contra hlt
  have hparen := paren_not_mem_placeText hrow' hcolumn' other.severity
  obtain ⟨rest, hrest⟩ := exists_of_length_lt hline.symm hparen (Nat.lt_of_not_le hlt)
  exact hfile { other with rest := 'T' :: 'S' :: rest }
    ⟨row', column', rest, hrest, hrow', hcolumn', rfl⟩

/-! ### Places before a dash -/

/-- **A line with a place before its first dash**, and a severity and the start of a code after it. -/
def Lead.BeforeDash (lead : Lead) (line : List Char) : Prop :=
  ∃ row column, readNumber? row = some lead.line ∧ readNumber? column = some lead.column ∧
    ['T', 'S'] <+: lead.rest ∧
    line = lead.file ++ ':' :: (row ++ ':' :: column) ++ [' ', '-', ' '] ++
      (lead.severity.name.toList ++ ' ' :: lead.rest) ∧
    ∀ front back, line = front ++ [' ', '-', ' '] ++ back →
      (lead.file ++ ':' :: (row ++ ':' :: column)).length ≤ front.length

theorem Lead.ofDash?_eq_some {line : List Char} {lead : Lead} :
    Lead.ofDash? line = some lead ↔ lead.BeforeDash line := by
  constructor
  · intro h
    obtain ⟨⟨place, after⟩, hdash, h⟩ := Option.bind_eq_some_iff.1 h
    obtain ⟨⟨front, column⟩, hplace, h⟩ := Option.bind_eq_some_iff.1 h
    obtain ⟨⟨file, row⟩, hfront, h⟩ := Option.bind_eq_some_iff.1 h
    obtain ⟨m, hcolumn, h⟩ := Option.bind_eq_some_iff.1 h
    obtain ⟨n, hrow, h⟩ := Option.bind_eq_some_iff.1 h
    obtain ⟨⟨severity, rest⟩, hseverity, h⟩ := Option.bind_eq_some_iff.1 h
    cases h
    obtain ⟨hline, hfirst⟩ := (splitFirst?_eq_some_iff (by simp)).1 hdash
    obtain ⟨hafter, hstart⟩ := readSeverity?_eq_some.1 hseverity
    have hplaced : place = file ++ ':' :: (row ++ ':' :: column) := by
      rw [(splitLast?_eq_some.1 hplace).1, (splitLast?_eq_some.1 hfront).1]
      simp
    exact ⟨row, column, hrow, hcolumn, hstart, by rw [← hplaced, ← hafter, hline], by rwa [← hplaced]⟩
  · rintro ⟨row, column, hrow, hcolumn, hstart, hline, hfirst⟩
    have hdash := (splitFirst?_eq_some_iff (by simp)).2 ⟨hline, hfirst⟩
    have hfront : splitLast? ':' (lead.file ++ ':' :: (row ++ ':' :: column)) =
        some (lead.file ++ ':' :: row, column) := by
      have hcolon := not_mem_of_readNumber? hcolumn (c := ':') (by decide) (by decide)
      simpa using splitLast?_append (lead.file ++ ':' :: row) hcolon
    have hfile : splitLast? ':' (lead.file ++ ':' :: row) = some (lead.file, row) :=
      splitLast?_append lead.file (not_mem_of_readNumber? hrow (by decide) (by decide))
    unfold Lead.ofDash?
    rw [hdash]
    dsimp only [bind, Option.bind_some]
    rw [hfront]
    dsimp only [Option.bind_some]
    rw [hfile]
    dsimp only [Option.bind_some]
    rw [hcolumn, hrow, readSeverity?_eq_some.2 ⟨rfl, hstart⟩]
    rfl

/-! ### Lines -/

/-- A line that starts with a severity and the start of a code. -/
def StartsWithSeverity (line : List Char) : Prop :=
  ∃ (severity : Severity) (rest : List Char),
    line = severity.name.toList ++ ' ' :: rest ∧ ['T', 'S'] <+: rest

/-- **The form of a diagnostic**: a severity and a code, at the front of the line, after the first
place in parentheses, or after a place before the first dash. A line that starts with a severity is
not searched for places. -/
inductive IsDiagnosticLine (line : List Char) : Prop
  | program {severity : Severity} {rest code message : List Char} :
      line = severity.name.toList ++ ' ' :: rest → IsCoded rest code message → IsDiagnosticLine line
  | parenthesised {lead : Lead} {code message : List Char} : ¬ StartsWithSeverity line →
      lead.InParentheses line →
      (∀ other : Lead, other.InParentheses line → lead.file.length ≤ other.file.length) →
      IsCoded lead.rest code message → IsDiagnosticLine line
  | dashed {lead : Lead} {code message : List Char} : ¬ StartsWithSeverity line →
      lead.BeforeDash line → IsCoded lead.rest code message → IsDiagnosticLine line

theorem IsCoded.starts {rest code message : List Char} (h : IsCoded rest code message) :
    ['T', 'S'] <+: rest := by
  obtain ⟨digits, blanks, after, rfl, rfl, -⟩ := h
  exact ⟨digits ++ blanks ++ ':' :: after, by simp⟩

theorem Lead.InParentheses.starts {lead : Lead} {line : List Char} (h : lead.InParentheses line) :
    ['T', 'S'] <+: lead.rest := by
  obtain ⟨row, column, after, -, -, -, hrest⟩ := h
  exact ⟨after, hrest.symm⟩

theorem Lead.BeforeDash.starts {lead : Lead} {line : List Char} (h : lead.BeforeDash line) :
    ['T', 'S'] <+: lead.rest := by
  obtain ⟨row, column, -, -, hrest, -⟩ := h
  exact hrest

theorem not_startsWithSeverity (cs : List Char) : ¬ StartsWithSeverity ('/' :: cs) := by
  rintro ⟨severity, rest, hline, -⟩
  have hhead := congrArg List.head? hline
  cases severity <;> simp [Severity.name] at hhead

section Lines

variable {cwd : Path} {line : List Char} {lead : Lead} {severity : Severity}
  {rest code message : List Char}

theorem readSeverity?_eq_none (h : ¬ StartsWithSeverity line) : readSeverity? line = none := by
  rw [Option.eq_none_iff_forall_not_mem]
  rintro ⟨severity, rest⟩ hmem
  exact h ⟨severity, rest, readSeverity?_eq_some.1 hmem⟩

theorem Lead.diagnostic?_of_isCoded (cwd : Path) (h : IsCoded lead.rest code message) :
    lead.diagnostic? cwd = some
      { file := some (Path.absolutize ⟨String.ofList lead.file⟩ cwd)
        line := lead.line
        column := lead.column
        code := String.ofList code
        message := String.ofList message
        severity := lead.severity } := by
  unfold Lead.diagnostic?
  rw [(readCode?_eq_some h.starts).2 h]
  rfl

theorem Lead.isCoded_of_diagnostic? {d : Diagnostic} (hstart : ['T', 'S'] <+: lead.rest)
    (h : lead.diagnostic? cwd = some d) : ∃ code message, IsCoded lead.rest code message := by
  obtain ⟨⟨code, message⟩, hcode, -⟩ := Option.bind_eq_some_iff.1 h
  exact ⟨code, message, (readCode?_eq_some hstart).1 hcode⟩

/-- **A diagnostic about the program is read** from the front of its line. -/
theorem readDiagnostic?_program (cwd : Path) (h : IsCoded rest code message) :
    readDiagnostic? cwd (severity.name.toList ++ ' ' :: rest) =
      some ⟨none, 0, 0, String.ofList code, String.ofList message, severity⟩ := by
  unfold readDiagnostic? programDiagnostic?
  rw [readSeverity?_eq_some.2 ⟨rfl, h.starts⟩]
  dsimp only
  rw [(readCode?_eq_some h.starts).2 h]
  rfl

theorem readDiagnostic?_eq (cwd : Path) (h : ¬ StartsWithSeverity line) :
    readDiagnostic? cwd line = ((firstLead? line).bind (Lead.diagnostic? cwd)).or
      ((Lead.ofDash? line).bind (Lead.diagnostic? cwd)) := by
  unfold readDiagnostic? firstLead?
  rw [readSeverity?_eq_none h]
  dsimp only
  split
  · next d hd => rw [hd, Option.some_or]
  · next hd => rw [hd, Option.none_or]

/-- **A diagnostic about a file is read** from its place in parentheses on. -/
theorem readDiagnostic?_parenthesised (cwd : Path) {file cs row column after : List Char} {n m : Nat}
    (hslash : file = '/' :: cs) (hfile : ∀ lead : Lead, ¬ lead.InParentheses file)
    (hrow : readNumber? row = some n) (hcolumn : readNumber? column = some m)
    (h : IsCoded ('T' :: 'S' :: after) code message) :
    readDiagnostic? cwd (file ++ '(' :: (placeText row column severity ++ after)) =
      some ⟨some (Path.absolutize ⟨String.ofList file⟩ cwd), n, m, String.ofList code,
        String.ofList message, severity⟩ := by
  have hstart : ¬ StartsWithSeverity (file ++ '(' :: (placeText row column severity ++ after)) := by
    rw [hslash]
    exact not_startsWithSeverity _
  rw [readDiagnostic?_eq cwd hstart, firstLead?_append hfile hrow hcolumn, Option.bind_some,
    Lead.diagnostic?_of_isCoded cwd h]
  rfl

/-- **A line is read as a diagnostic exactly if it has the form of one.** -/
theorem exists_readDiagnostic? (cwd : Path) :
    (∃ d, readDiagnostic? cwd line = some d) ↔ IsDiagnosticLine line := by
  constructor
  · rintro ⟨d, h⟩
    by_cases hstart : StartsWithSeverity line
    · obtain ⟨severity, rest, rfl, hrest⟩ := hstart
      unfold readDiagnostic? at h
      rw [readSeverity?_eq_some.2 ⟨rfl, hrest⟩] at h
      obtain ⟨⟨code, message⟩, hcode, -⟩ := Option.bind_eq_some_iff.1 h
      exact .program rfl ((readCode?_eq_some hrest).1 hcode)
    · rw [readDiagnostic?_eq cwd hstart, Option.or_eq_some_iff] at h
      rcases h with h | ⟨-, h⟩
      · obtain ⟨lead, hlead, hd⟩ := Option.bind_eq_some_iff.1 h
        obtain ⟨hin, hleast⟩ := firstLead?_eq_some.1 hlead
        obtain ⟨code, message, hcoded⟩ := Lead.isCoded_of_diagnostic? hin.starts hd
        exact .parenthesised hstart hin hleast hcoded
      · obtain ⟨lead, hlead, hd⟩ := Option.bind_eq_some_iff.1 h
        have hdash := Lead.ofDash?_eq_some.1 hlead
        obtain ⟨code, message, hcoded⟩ := Lead.isCoded_of_diagnostic? hdash.starts hd
        exact .dashed hstart hdash hcoded
  · intro h
    cases h with
    | program hline hcoded =>
      rw [hline]
      exact ⟨_, readDiagnostic?_program cwd hcoded⟩
    | parenthesised hstart hin hleast hcoded =>
      rw [readDiagnostic?_eq cwd hstart, firstLead?_eq_some.2 ⟨hin, hleast⟩, Option.bind_some,
        Lead.diagnostic?_of_isCoded cwd hcoded]
      exact ⟨_, rfl⟩
    | dashed hstart hdash hcoded =>
      rw [readDiagnostic?_eq cwd hstart, Lead.ofDash?_eq_some.2 hdash, Option.bind_some,
        Lead.diagnostic?_of_isCoded cwd hcoded]
      cases (firstLead? line).bind (Lead.diagnostic? cwd) with
      | none => exact ⟨_, rfl⟩
      | some d => exact ⟨d, rfl⟩

theorem readDiagnostic?_eq_none (cwd : Path) (h : ¬ IsDiagnosticLine line) :
    readDiagnostic? cwd line = none := by
  rw [Option.eq_none_iff_forall_not_mem]
  exact fun d hd => h ((exists_readDiagnostic? cwd).1 ⟨d, hd⟩)

instance (line : List Char) : Decidable (IsDiagnosticLine line) :=
  decidable_of_iff ((readDiagnostic? ⟨"/"⟩ line).isSome = true)
    (Option.isSome_iff_exists.trans (exists_readDiagnostic? ⟨"/"⟩))

end Lines

end AmbientBundle

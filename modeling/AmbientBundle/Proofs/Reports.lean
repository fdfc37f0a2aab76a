import AmbientBundle.Proofs.DiagnosticLines
import AmbientBundle.Proofs.Paths

/-!
# Reports that are printed and read

A compiler prints files and diagnostics one after the other, in any order. The lines of a message
after the first stand indented below it, so that a line tells by itself, and by the line before it,
where it belongs.

* `Report.Item`: a file or a diagnostic; `Report.printed`: items, each on a line of its own.
* `Diagnostic.IsPrintable`, `Report.Item.IsPrintable`: what can be told apart once it is printed.
* `readDiagnostic?_line`: the first line of a diagnostic is read as it was printed.
* `Report.State.run_item`: the lines of an item add this item, whatever was read before.
* `Report.read_printed`: **printed items are read back**, all of them and in order.
-/

namespace AmbientBundle

open Text

/-! ### Items -/

/-- **A line that continues a message**: it is indented, and no diagnostic itself. -/
structure IsContinuation (line : List Char) : Prop where
  indented : line.head? = some ' '
  one_line : '\n' ∉ line
  trimmed : trimEnd line = line
  no_diagnostic : ¬ IsDiagnosticLine line

namespace Diagnostic

/-- A code that is told apart from what stands around it. -/
def IsCode (code : String) : Prop :=
  ∃ digits : List Char, code.toList = 'T' :: 'S' :: digits ∧ ∀ c ∈ digits, c.isDigit = true

/-- A place that is told apart from what stands around it: that of the whole program, or one in a
file whose path does not look like the front of a diagnostic. -/
def IsPlaced (d : Diagnostic) : Prop :=
  match d.file with
  | none => d.line = 0 ∧ d.column = 0
  | some file => file.IsNormal ∧ '\n' ∉ file.text.toList ∧
      (∀ lead : Lead, ¬ lead.InParentheses file.text.toList) ∧
      d.line < 4294967296 ∧ d.column < 4294967296

/-- A message: a line without blanks around it, and lines that continue it. -/
def IsMessage (message : String) : Prop :=
  ∃ (first : String) (more : List String), message = "\n".intercalate (first :: more) ∧
    '\n' ∉ first.toList ∧ trim first.toList = first.toList ∧
    ∀ line ∈ more, IsContinuation line.toList

/-- **A diagnostic that can be told from its text.** -/
structure IsPrintable (d : Diagnostic) : Prop where
  code : IsCode d.code
  placed : d.IsPlaced
  message : IsMessage d.message

end Diagnostic

namespace Report

/-- What a compiler prints at a time. -/
inductive Item where
  | file (path : Path)
  | diagnostic (d : Diagnostic)
deriving Repr, DecidableEq

namespace Item

def text : Item → String
  | .file path => path.text
  | .diagnostic d => d.text

def file? : Item → Option Path
  | .file path => some path
  | .diagnostic _ => none

def diagnostic? : Item → Option Diagnostic
  | .file _ => none
  | .diagnostic d => some d

/-- **An item that can be told from its text.** -/
def IsPrintable : Item → Prop
  | .file path => path.IsNormal ∧ '\n' ∉ path.text.toList ∧
      trimEnd path.text.toList = path.text.toList ∧ ¬ IsDiagnosticLine path.text.toList
  | .diagnostic d => d.IsPrintable

end Item

/-- Items, each on a line of its own. -/
def printed (items : List Item) : String := String.join (items.map fun item => item.text ++ "\n")

/-- A report with one more item. -/
def add (report : Report) (item : Item) : Report :=
  ⟨report.diagnostics ++ item.diagnostic?.toList, report.listed ++ item.file?.toList⟩

theorem foldl_add (items : List Item) (report : Report) :
    items.foldl add report = ⟨report.diagnostics ++ items.filterMap Item.diagnostic?,
      report.listed ++ items.filterMap Item.file?⟩ := by
  induction items generalizing report with
  | nil => simp
  | cons item items ih =>
    rw [List.foldl_cons, ih]
    cases item <;> simp [add, Item.diagnostic?, Item.file?, List.filterMap_cons]

end Report

/-! ### The first line of a diagnostic -/

/-- A diagnostic up to its message. -/
def Diagnostic.front (d : Diagnostic) : List Char :=
  let body := d.severity.name.toList ++ ' ' :: (d.code.toList ++ [':', ' '])
  match d.file with
  | some file => file.text.toList ++ '(' ::
      (d.line.repr.toList ++ ',' :: (d.column.repr.toList ++ [')', ':', ' '] ++ body))
  | none => body

theorem Diagnostic.toList_text (d : Diagnostic) :
    d.text.toList = d.front ++ d.message.toList := by
  unfold text front body
  cases d.file <;> simp [toString]

/-- A message is what stands after its colon, without the blank between them. -/
theorem trim_message {first : List Char} (h : trim first = first) :
    trim (trimEnd (' ' :: first)) = first := by
  have hend : trimEnd first = first := by
    rw [← h, trim, trimEnd_trimEnd]
  rw [trimEnd_cons, hend]
  split
  · next hnil =>
    rw [hnil]
    decide
  · have hfront : trimStart (' ' :: first) = trimStart first := by
      rw [trimStart, List.dropWhile_cons_of_pos (by decide)]
      rfl
    rw [trim, hfront]
    exact h

/-- **The first line of a diagnostic is read as it was printed.** -/
theorem readDiagnostic?_line (cwd : Path) {d : Diagnostic} {first : List Char}
    (hcode : Diagnostic.IsCode d.code) (hplaced : d.IsPlaced) (hfirst : trim first = first) :
    readDiagnostic? cwd (trimEnd (d.front ++ first)) =
      some { d with message := String.ofList first } := by
  obtain ⟨digits, hcode, hdigits⟩ := hcode
  have hcoded : IsCoded ('T' :: 'S' :: (digits ++ ':' :: trimEnd (' ' :: first))) d.code.toList
      first := by
    refine ⟨digits, [], trimEnd (' ' :: first), ?_, hcode, hdigits, ?_, (trim_message hfirst).symm⟩
    · rw [hcode]
      simp
    · simp
  unfold Diagnostic.IsPlaced at hplaced
  unfold Diagnostic.front
  cases hfile : d.file with
  | none =>
    rw [hfile] at hplaced
    -- blanks are taken off after the colon at most
    have hline : trimEnd (d.severity.name.toList ++ ' ' :: (d.code.toList ++ [':', ' ']) ++ first) =
        d.severity.name.toList ++ ' ' :: ('T' :: 'S' :: (digits ++ ':' :: trimEnd (' ' :: first))) := by
      have hcut := trimEnd_append_cons (c := ':')
        (d.severity.name.toList ++ ' ' :: d.code.toList) (by decide) (' ' :: first)
      rw [hcode] at hcut ⊢
      simpa using hcut
    dsimp only
    rw [hline, readDiagnostic?_program cwd hcoded, String.ofList_toList, hplaced.1, hplaced.2]
  | some file =>
    rw [hfile] at hplaced
    obtain ⟨hnormal, -, hplain, hrow, hcolumn⟩ := hplaced
    obtain ⟨cs, hslash⟩ := hnormal.exists_slash
    have hline : trimEnd (file.text.toList ++ '(' :: (d.line.repr.toList ++ ',' ::
        (d.column.repr.toList ++ [')', ':', ' '] ++
          (d.severity.name.toList ++ ' ' :: (d.code.toList ++ [':', ' '])))) ++ first) =
        file.text.toList ++ '(' :: (placeText d.line.repr.toList d.column.repr.toList d.severity ++
          (digits ++ ':' :: trimEnd (' ' :: first))) := by
      have hcut := trimEnd_append_cons (c := ':') (file.text.toList ++ '(' ::
        (d.line.repr.toList ++ ',' :: (d.column.repr.toList ++ [')', ':', ' '] ++
          (d.severity.name.toList ++ ' ' :: d.code.toList)))) (by decide) (' ' :: first)
      rw [hcode] at hcut ⊢
      simpa [placeText] using hcut
    dsimp only
    rw [hline, readDiagnostic?_parenthesised cwd hslash hplain (readNumber?_repr hrow)
      (readNumber?_repr hcolumn) hcoded, String.ofList_toList, String.ofList_toList,
      Path.absolutize_of_isNormal hnormal]

/-! ### Lines one after the other -/

namespace Report

theorem extendLast_append (line : List Char) (ds : List Diagnostic) (d : Diagnostic) :
    extendLast line (ds ++ [d]) =
      ds ++ [{ d with message := d.message ++ "\n" ++ String.ofList line }] := by
  induction ds with
  | nil => rfl
  | cons first ds ih =>
    cases ds with
    | nil => rfl
    | cons second ds => exact congrArg (first :: ·) ih

namespace State

/-- A line that continues the last message. -/
theorem step_continuation (cwd : Path) {line : List Char} (h : IsContinuation line)
    (ds : List Diagnostic) (d : Diagnostic) (listed : List Path) :
    State.step cwd ⟨⟨ds ++ [d], listed⟩, true⟩ line =
      ⟨⟨ds ++ [{ d with message := d.message ++ "\n" ++ String.ofList line }], listed⟩, true⟩ := by
  have hne : line.isEmpty = false := by
    cases line with
    | nil => cases h.indented
    | cons c cs => rfl
  unfold step
  rw [hne, readDiagnostic?_eq_none cwd h.no_diagnostic, h.indented]
  simp [extendLast_append]

theorem intercalate_merge (first second : String) (more : List String) :
    "\n".intercalate ((first ++ "\n" ++ second) :: more) =
      "\n".intercalate (first :: second :: more) := by
  cases more <;> simp [String.intercalate_cons_cons, String.append_assoc]

/-- **The lines after the first** make up the rest of the message. -/
theorem run_continuations (cwd : Path) {more : List String}
    (h : ∀ line ∈ more, IsContinuation line.toList) (ds : List Diagnostic) (d : Diagnostic)
    (listed : List Path) :
    (more.map String.toList).foldl (State.step cwd) ⟨⟨ds ++ [d], listed⟩, true⟩ =
      ⟨⟨ds ++ [{ d with message := "\n".intercalate (d.message :: more) }], listed⟩, true⟩ := by
  induction more generalizing d with
  | nil => simp
  | cons line more ih =>
    rw [List.map_cons, List.foldl_cons, step_continuation cwd (h line List.mem_cons_self),
      ih fun later hlater => h later (List.mem_cons_of_mem _ hlater), String.ofList_toList,
      intercalate_merge]

/-- A file on a line of its own, whatever was read before. -/
theorem step_file (cwd : Path) {path : Path} (hnormal : path.IsNormal)
    (htrimmed : trimEnd path.text.toList = path.text.toList)
    (hplain : ¬ IsDiagnosticLine path.text.toList) (s : State) :
    (s.step cwd path.text.toList).report =
      ⟨s.report.diagnostics, s.report.listed ++ [path]⟩ := by
  obtain ⟨cs, hcs⟩ := hnormal.exists_slash
  have htrim : trim path.text.toList = path.text.toList := by
    have hfront : trimStart path.text.toList = path.text.toList := by
      rw [hcs, trimStart, List.dropWhile_cons_of_neg (by decide)]
    rw [trim, hfront, htrimmed]
  have hread := readDiagnostic?_eq_none cwd hplain
  unfold step
  rw [hread, htrim, String.ofList_toList, hcs, if_neg (by simp)]
  dsimp only
  rw [if_neg (by simp), if_pos hnormal.absolute, Path.absolutize_of_isNormal hnormal]

/-- A diagnostic up to its message stands on one line. -/
theorem newline_not_mem_front {d : Diagnostic} (hplaced : d.IsPlaced)
    (hcode : Diagnostic.IsCode d.code) : '\n' ∉ d.front := by
  have hnumber : ∀ n : Nat, '\n' ∉ Nat.toDigits 10 n := by
    intro n hmem
    exact absurd (Nat.isDigit_of_mem_toDigits (by decide) (by decide) hmem) (by decide)
  have hname : '\n' ∉ d.severity.name.toList := by
    cases d.severity <;> decide
  have hcoded : '\n' ∉ d.code.toList := by
    obtain ⟨digits, hdigits, hall⟩ := hcode
    rw [hdigits]
    intro hmem
    have hdigit : '\n' ∈ digits := by simpa using hmem
    exact absurd (hall _ hdigit) (by decide)
  unfold Diagnostic.IsPlaced at hplaced
  unfold Diagnostic.front
  cases hfile : d.file with
  | none => simp [hname, hcoded]
  | some file =>
    rw [hfile] at hplaced
    simp [hplaced.2.1, hnumber, hname, hcoded]

/-- The lines of a diagnostic: its front with the first line of the message, and the others. -/
theorem split_text {d : Diagnostic} (hplaced : d.IsPlaced) (hcode : Diagnostic.IsCode d.code)
    {first : String} {more : List String} (hmessage : d.message = "\n".intercalate (first :: more))
    (hfirst : '\n' ∉ first.toList) (hmore : ∀ line ∈ more, '\n' ∉ line.toList) :
    split '\n' d.text.toList = (d.front ++ first.toList) :: more.map String.toList := by
  have hfront := newline_not_mem_front hplaced hcode
  have hjoined : d.text.toList =
      ['\n'].intercalate ((d.front ++ first.toList) :: more.map String.toList) := by
    rw [d.toList_text, hmessage, String.toList_intercalate]
    cases more <;> simp [List.intercalate]
  rw [hjoined]
  refine split_intercalate (by simp) fun line hline => ?_
  rcases List.mem_cons.1 hline with rfl | hline
  · simp [hfront, hfirst]
  · obtain ⟨later, hlater, rfl⟩ := List.mem_map.1 hline
    exact hmore later hlater

/-- **The lines of an item add this item**, whatever was read before. -/
theorem run_item (cwd : Path) {item : Item} (h : item.IsPrintable) (s : State) :
    (((split '\n' item.text.toList).map trimEnd).foldl (State.step cwd) s).report =
      s.report.add item := by
  cases item with
  | file path =>
    obtain ⟨hnormal, hline, htrimmed, hplain⟩ := h
    have hsplit : split '\n' path.text.toList = [path.text.toList] := by
      have hone : ∀ line ∈ [path.text.toList], '\n' ∉ line := by simpa using hline
      simpa using split_intercalate (by simp) hone
    unfold Item.text
    rw [hsplit, List.map_singleton, List.foldl_cons, List.foldl_nil, htrimmed,
      step_file cwd hnormal htrimmed hplain]
    simp [add, Item.diagnostic?, Item.file?]
  | diagnostic d =>
    obtain ⟨hcode, hplaced, first, more, hmessage, hfirst, htrimmed, hmore⟩ := h
    have hlines := split_text hplaced hcode hmessage hfirst fun line hline =>
      (hmore line hline).one_line
    have hkept : (more.map String.toList).map trimEnd = more.map String.toList := by
      rw [List.map_map]
      exact List.map_congr_left fun line hline => (hmore line hline).trimmed
    have hread := readDiagnostic?_line cwd hcode hplaced htrimmed
    have hstep : State.step cwd s (trimEnd (d.front ++ first.toList)) =
        ⟨⟨s.report.diagnostics ++ [{ d with message := first }], s.report.listed⟩, true⟩ := by
      have hne : trimEnd (d.front ++ first.toList) ≠ [] := by
        intro hnil
        rw [hnil] at hread
        cases hread
      unfold step
      rw [hread, String.ofList_toList, if_neg (by simpa using hne)]
    unfold Item.text
    rw [hlines, List.map_cons, hkept, List.foldl_cons, hstep, run_continuations cwd hmore]
    simp [add, Item.diagnostic?, Item.file?, ← hmessage]

/-- **Items one after the other** add themselves in order. -/
theorem run_items (cwd : Path) {items : List Item} (h : ∀ item ∈ items, item.IsPrintable)
    (s : State) :
    (((items.flatMap fun item => split '\n' item.text.toList).map trimEnd).foldl
      (State.step cwd) s).report = items.foldl add s.report := by
  induction items generalizing s with
  | nil => rfl
  | cons item items ih =>
    rw [List.flatMap_cons, List.map_append, List.foldl_append, ih
      fun later hlater => h later (List.mem_cons_of_mem _ hlater),
      run_item cwd (h item List.mem_cons_self), List.foldl_cons]

end State

/-- The lines of printed items, and the empty one after them. -/
theorem split_printed (items : List Item) :
    split '\n' (printed items).toList =
      (items.flatMap fun item => split '\n' item.text.toList) ++ [[]] := by
  induction items with
  | nil => rfl
  | cons item items ih =>
    have htext : (printed (item :: items)).toList = item.text.toList ++ '\n' ::
        (printed items).toList := by
      simp [printed]
    rw [htext, split_append_sep, ih, List.flatMap_cons, List.append_assoc]

/-- **Printed items are read back.** Files and diagnostics, printed one after the other in any order,
are read as these files and these diagnostics, each in order, from whatever directory. -/
theorem read_printed (cwd : Path) {items : List Item} (h : ∀ item ∈ items, item.IsPrintable) :
    read cwd (printed items) =
      ⟨items.filterMap Item.diagnostic?, items.filterMap Item.file?⟩ := by
  have hrun := State.run_items cwd h ⟨empty, false⟩
  unfold read
  rw [split_printed, List.map_append, List.foldl_append]
  -- the empty line at the end adds nothing
  have hlast : ∀ s : State, ((([[]] : List (List Char)).map trimEnd).foldl (State.step cwd) s).report =
      s.report := fun s => rfl
  rw [hlast, hrun, foldl_add]
  rfl

end Report

/-! ### A small output -/

namespace Sample

/-- A diagnostic about a file whose path holds all that sets a place apart, with a message of two lines
that looks like a diagnostic further on. -/
def crowded : Diagnostic :=
  ⟨some ⟨"/a(1,2): b - c:3:4/d).ts"⟩, 5, 4294967295, "TS2322",
    "Not this (6,7): error TS8: but that.\n  The first: (1,2) - it says.", .warning⟩

/-- A diagnostic about the program that says nothing. -/
def silent : Diagnostic := ⟨none, 0, 0, "TS5", "", .message⟩

/-- A listed file whose path is almost a diagnostic. -/
def almost : Path := ⟨"/a(1,2): error T5: b.ts"⟩

def items : List Report.Item :=
  [.diagnostic crowded, .file almost, .diagnostic silent, .file ⟨"/b.ts"⟩, .file almost]

theorem crowded_isPrintable : crowded.IsPrintable where
  code := ⟨"2322".toList, by decide, List.all_eq_true.1 (by decide)⟩
  placed := ⟨by decide +kernel, by decide +kernel,
    not_inParentheses_of_firstLead? (by decide +kernel), by decide, by decide⟩
  message := by
    refine ⟨"Not this (6,7): error TS8: but that.", ["  The first: (1,2) - it says."],
      by decide +kernel, by decide +kernel, by decide +kernel, fun line hline => ?_⟩
    rw [List.mem_singleton.1 hline]
    exact ⟨by decide +kernel, by decide +kernel, by decide +kernel, by decide +kernel⟩

theorem silent_isPrintable : silent.IsPrintable where
  code := ⟨"5".toList, by decide, List.all_eq_true.1 (by decide)⟩
  placed := ⟨rfl, rfl⟩
  message := ⟨"", [], by decide +kernel, by decide +kernel, by decide +kernel, by simp⟩

end Sample

theorem Report.read_printed_crowded :
    (∀ item ∈ Sample.items, item.IsPrintable) ∧
    Report.read ⟨"/work"⟩ (Report.printed Sample.items) =
      ⟨[Sample.crowded, Sample.silent], [Sample.almost, ⟨"/b.ts"⟩, Sample.almost]⟩ := by
  have halmost : (Item.file Sample.almost).IsPrintable :=
    ⟨by decide +kernel, by decide +kernel, by decide +kernel, by decide +kernel⟩
  have hplain : (Item.file ⟨"/b.ts"⟩).IsPrintable :=
    ⟨by decide +kernel, by decide +kernel, by decide +kernel, by decide +kernel⟩
  have hitems : ∀ item ∈ Sample.items, item.IsPrintable := by
    simp only [Sample.items, List.forall_mem_cons]
    exact ⟨Sample.crowded_isPrintable, halmost, Sample.silent_isPrintable, hplain, halmost, by simp⟩
  exact ⟨hitems, Report.read_printed ⟨"/work"⟩ hitems⟩

end AmbientBundle

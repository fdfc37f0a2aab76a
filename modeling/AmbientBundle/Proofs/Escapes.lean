import AmbientBundle.CommandLine.Escape
import AmbientBundle.Proofs.Computations
import Mathlib.Algebra.Group.Nat.Even
import Mathlib.Data.List.TakeWhile

/-!
# Escaped values

In an escaped value, a backslash and the character after it stand for one character. Since a
backslash may itself be the second of such a pair, the pairs have to be told from the left.

* `Denotes`: what a value stands for; `unescapeChars_eq_ok`: it is what is read.
* `IsPaired`: every backslash that starts a pair has its partner, where a run of backslashes tells
  which of them do; `isPaired_iff`: these are the values that stand for something.
* `escape`: a text as an escaped value; `denotes_escape`: it stands for the text.
* `spellings`: a word in any letter case; `mem_spellings_of_toLower`.
* `unescape_exact`: **escaped values are read exactly.**
-/

namespace AmbientBundle.CommandLine

variable {c : Char} {cs out : List Char}

/-! ### What a value stands for -/

/-- The characters that may follow a backslash, and what they stand for then. -/
def escapes : List (Char × Char) := [('n', '\n'), ('r', '\r'), ('t', '\t'), ('\\', '\\')]

/-- **What an escaped value stands for**: read from the left, every character for itself, but a
backslash together with the character after it. -/
inductive Denotes : List Char → List Char → Prop
  | nil : Denotes [] []
  | plain {c : Char} {cs out : List Char} (h : c ≠ '\\') (rest : Denotes cs out) :
      Denotes (c :: cs) (c :: out)
  | pair {c d : Char} {cs out : List Char} (h : escapes.lookup c = some d)
      (rest : Denotes cs out) : Denotes ('\\' :: c :: cs) (d :: out)

/-- Induction on a value along its pairs. -/
theorem pairs_induction {motive : List Char → Prop} (nil : motive []) (lone : motive ['\\'])
    (plain : ∀ c cs, c ≠ '\\' → motive cs → motive (c :: cs))
    (pair : ∀ c cs, motive cs → motive ('\\' :: c :: cs)) : ∀ cs, motive cs
  | [] => nil
  | [c] => by
    by_cases h : c = '\\'
    · exact h ▸ lone
    · exact plain c [] h nil
  | c :: d :: cs => by
    by_cases h : c = '\\'
    · exact h ▸ pair d cs (pairs_induction nil lone plain pair cs)
    · exact plain c (d :: cs) h (pairs_induction nil lone plain pair (d :: cs))

theorem denotes_plain (h : c ≠ '\\') :
    Denotes (c :: cs) out ↔ ∃ rest, Denotes cs rest ∧ c :: rest = out := by
  constructor
  · intro hout
    cases hout with
    | plain _ rest => exact ⟨_, rest, rfl⟩
    | pair => exact absurd rfl h
  · rintro ⟨rest, hrest, rfl⟩
    exact .plain h hrest

theorem denotes_pair : Denotes ('\\' :: c :: cs) out ↔
    ∃ d, escapes.lookup c = some d ∧ ∃ rest, Denotes cs rest ∧ d :: rest = out := by
  constructor
  · intro hout
    cases hout with
    | plain h _ => exact absurd rfl h
    | pair h rest => exact ⟨_, h, _, rest, rfl⟩
  · rintro ⟨d, h, rest, hrest, rfl⟩
    exact .pair h hrest

theorem not_denotes_lone : ¬ Denotes ['\\'] out := by
  intro hout
  cases hout with
  | plain h _ => exact h rfl

/-! ### Reading -/

theorem unescapeChars_plain (h : c ≠ '\\') (cs : List Char) :
    unescapeChars (c :: cs) = (unescapeChars cs).map (c :: ·) := by
  simp [unescapeChars, h, Functor.map]

/-- **A pair is read by its second character.** -/
theorem unescapeChars_pair (c : Char) (cs : List Char) : unescapeChars ('\\' :: c :: cs) =
    match escapes.lookup c with
    | some d => (unescapeChars cs).map (d :: ·)
    | none => .error (.unsupported c) := by
  by_cases hn : c = 'n'
  · rw [hn]; rfl
  by_cases hr : c = 'r'
  · rw [hr]; rfl
  by_cases ht : c = 't'
  · rw [ht]; rfl
  by_cases hb : c = '\\'
  · rw [hb]; rfl
  have hnone : escapes.lookup c = none := by
    rw [List.lookup_eq_none_iff]
    simp [escapes, hn, hr, ht, hb]
  rw [hnone]
  simp [unescapeChars]

/-- **What is read is what the value stands for.** -/
theorem unescapeChars_eq_ok : unescapeChars cs = .ok out ↔ Denotes cs out := by
  induction cs using pairs_induction generalizing out with
  | nil =>
    constructor
    · intro h
      cases h
      exact .nil
    · intro h
      cases h
      rfl
  | lone => exact iff_of_false (by simp [unescapeChars]) not_denotes_lone
  | plain c cs h ih =>
    rw [unescapeChars_plain h, map_eq_ok, denotes_plain h]
    simp only [ih]
  | pair c cs ih =>
    rw [unescapeChars_pair, denotes_pair]
    cases hc : escapes.lookup c with
    | none => simp
    | some d =>
      simp only [Option.some.injEq, exists_eq_left', map_eq_ok, ih]

theorem Denotes.ne_nil (h : Denotes cs out) (hcs : cs ≠ []) : out ≠ [] := by
  cases h with
  | nil => exact absurd rfl hcs
  | plain => exact List.cons_ne_nil _ _
  | pair => exact List.cons_ne_nil _ _

/-! ### Backslashes that start a pair -/

/-- The number of backslashes at the end of a text. -/
def backslashesAtEnd (cs : List Char) : Nat := (cs.reverse.takeWhile (· == '\\')).length

/-- **Every backslash that starts a pair has its partner.** A backslash starts a pair if there is an
even number of others right before it. -/
def IsPaired (value : List Char) : Prop :=
  ∀ before after, value = before ++ '\\' :: after → Even (backslashesAtEnd before) →
    ∃ c rest, after = c :: rest ∧ (escapes.lookup c).isSome = true

theorem backslashesAtEnd_plain (h : c ≠ '\\') (before : List Char) :
    backslashesAtEnd (c :: before) = backslashesAtEnd before := by
  unfold backslashesAtEnd
  rw [List.reverse_cons, List.takeWhile_append]
  split
  · next hall =>
    rw [List.length_append, hall]
    simp [h]
  · rfl

theorem even_backslashesAtEnd_pair (c : Char) (before : List Char) :
    Even (backslashesAtEnd ('\\' :: c :: before)) ↔ Even (backslashesAtEnd before) := by
  unfold backslashesAtEnd
  rw [List.reverse_cons, List.reverse_cons, List.append_assoc, List.takeWhile_append]
  split
  · next hall =>
    rw [List.length_append, hall, Nat.even_add]
    -- the pair counts whole or not at all
    by_cases hc : c = '\\'
    · simp [hc, show Even 2 by decide]
    · simp [hc]
  · rfl

theorem isPaired_plain (h : c ≠ '\\') : IsPaired (c :: cs) ↔ IsPaired cs := by
  constructor
  · intro hpaired before after hcs heven
    refine hpaired (c :: before) after (by rw [hcs]; rfl) ?_
    rwa [backslashesAtEnd_plain h]
  · intro hpaired before after hcs heven
    cases before with
    | nil => exact absurd (List.cons.inj hcs).1 h
    | cons d before =>
      obtain ⟨hd, hrest⟩ := List.cons.inj hcs
      rw [← hd, backslashesAtEnd_plain h] at heven
      exact hpaired before after hrest heven

theorem isPaired_pair : IsPaired ('\\' :: c :: cs) ↔
    (escapes.lookup c).isSome = true ∧ IsPaired cs := by
  constructor
  · intro hpaired
    constructor
    · obtain ⟨d, rest, hrest, hd⟩ := hpaired [] (c :: cs) rfl (by decide)
      obtain ⟨rfl, -⟩ := List.cons.inj hrest
      exact hd
    · intro before after hcs heven
      refine hpaired ('\\' :: c :: before) after (by rw [hcs]; rfl) ?_
      rwa [even_backslashesAtEnd_pair]
  · rintro ⟨hc, hpaired⟩ before after hcs heven
    match before with
    | [] => exact ⟨c, cs, (List.cons.inj hcs).2.symm, hc⟩
    | [d] =>
      -- the second of a pair has one backslash before it
      rw [← (List.cons.inj hcs).1] at heven
      exact absurd heven (by decide)
    | d :: e :: before =>
      obtain ⟨hd, hrest⟩ := List.cons.inj hcs
      rw [← hd, even_backslashesAtEnd_pair] at heven
      exact hpaired before after (List.cons.inj hrest).2 heven

theorem not_isPaired_lone : ¬ IsPaired ['\\'] := by
  intro hpaired
  obtain ⟨c, rest, hrest, -⟩ := hpaired [] [] rfl (by decide)
  cases hrest

/-- **The values that stand for something** are those whose backslashes have their partners. -/
theorem isPaired_iff : IsPaired cs ↔ ∃ out, Denotes cs out := by
  induction cs using pairs_induction with
  | nil =>
    refine iff_of_true ?_ ⟨[], .nil⟩
    intro before after hcs
    cases before <;> cases hcs
  | lone =>
    refine iff_of_false not_isPaired_lone ?_
    rintro ⟨out, hout⟩
    exact not_denotes_lone hout
  | plain c cs h ih =>
    rw [isPaired_plain h, ih]
    constructor
    · rintro ⟨out, hout⟩
      exact ⟨c :: out, .plain h hout⟩
    · rintro ⟨out, hout⟩
      obtain ⟨rest, hrest, -⟩ := (denotes_plain h).1 hout
      exact ⟨rest, hrest⟩
  | pair c cs ih =>
    rw [isPaired_pair, ih, Option.isSome_iff_exists]
    constructor
    · rintro ⟨⟨d, hd⟩, out, hout⟩
      exact ⟨d :: out, .pair hd hout⟩
    · rintro ⟨out, hout⟩
      obtain ⟨d, hd, rest, hrest, -⟩ := denotes_pair.1 hout
      exact ⟨⟨d, hd⟩, rest, hrest⟩

/-! ### Writing -/

/-- A character with its escape. -/
def escapeChar : Char → List Char
  | '\n' => ['\\', 'n']
  | '\r' => ['\\', 'r']
  | '\t' => ['\\', 't']
  | '\\' => ['\\', '\\']
  | c => [c]

/-- A text as an escaped value. -/
def escape (text : String) : String := String.ofList (text.toList.flatMap escapeChar)

theorem escapeChar_cases (c : Char) :
    (c ≠ '\\' ∧ escapeChar c = [c]) ∨
      ∃ e, escapes.lookup e = some c ∧ escapeChar c = ['\\', e] := by
  unfold escapeChar
  split
  · exact .inr ⟨'n', rfl, rfl⟩
  · exact .inr ⟨'r', rfl, rfl⟩
  · exact .inr ⟨'t', rfl, rfl⟩
  · exact .inr ⟨'\\', rfl, rfl⟩
  · next hback => exact .inl ⟨hback, rfl⟩

/-- **An escaped text stands for the text.** -/
theorem denotes_escape (text : List Char) : Denotes (text.flatMap escapeChar) text := by
  induction text with
  | nil => exact .nil
  | cons c text ih =>
    rw [List.flatMap_cons]
    rcases escapeChar_cases c with ⟨hc, hescape⟩ | ⟨e, he, hescape⟩
    · rw [hescape]
      exact .plain hc ih
    · rw [hescape]
      exact .pair he ih

/-! ### Words in any letter case -/

/-- The ways to write a word of small letters with small and capital ones. -/
def spellingsOf : List Char → List (List Char)
  | [] => [[]]
  | c :: cs => (spellingsOf cs).flatMap fun rest => [c :: rest, c.toUpper :: rest]

/-- **A word in any letter case.** -/
def spellings (word : String) : List String := (spellingsOf word.toList).map String.ofList

/-- A letter is the small one that it stands for, or the capital one of that. -/
theorem eq_or_eq_toUpper_toLower (c : Char) : c = c.toLower ∨ c = c.toLower.toUpper := by
  by_cases hcapital : 'A'.val ≤ c.val ∧ c.val ≤ 'Z'.val
  · have hletters : ∀ n < 91, 65 ≤ n → Char.ofNat n = (Char.ofNat n).toLower.toUpper := by decide
    have hlow : 65 ≤ c.toNat := UInt32.le_iff_toNat_le.1 hcapital.1
    have hhigh : c.toNat ≤ 90 := UInt32.le_iff_toNat_le.1 hcapital.2
    have hletter := hletters c.toNat (by omega) hlow
    rw [Char.ofNat_toNat] at hletter
    exact .inr hletter
  · have hsame : c.toLower = c := dif_neg hcapital
    exact .inl hsame.symm

/-- A text that is a word up to letter case is one of its spellings. -/
theorem mem_spellings_of_toLower {value word : String}
    (h : String.ofList (value.toList.map Char.toLower) = word) : value ∈ spellings word := by
  have hchars : ∀ cs : List Char, cs ∈ spellingsOf (cs.map Char.toLower) := by
    intro cs
    induction cs with
    | nil => exact List.mem_singleton.2 rfl
    | cons c cs ih =>
      refine List.mem_flatMap.2 ⟨cs, ih, ?_⟩
      rcases eq_or_eq_toUpper_toLower c with hc | hc
      · rw [← hc]
        exact List.mem_cons_self
      · rw [← hc]
        exact List.mem_cons_of_mem _ List.mem_cons_self
  refine List.mem_map.2 ⟨value.toList, ?_, String.ofList_toList⟩
  rw [← h, String.toList_ofList]
  exact hchars value.toList

/-- A line end that is no spelling of a name is an escaped value. -/
theorem readEol_of_not_mem {value : String} (hlf : value ∉ spellings "lf")
    (hcrlf : value ∉ spellings "crlf") : readEol value = unescape value := by
  unfold readEol
  split
  · next heq => exact absurd (mem_spellings_of_toLower heq) hlf
  · next heq => exact absurd (mem_spellings_of_toLower heq) hcrlf
  · rfl

/-! ### Exact reading -/

/-- **A value is read as what it stands for**, if it is not empty. -/
theorem unescape_eq_ok {value text : String} :
    unescape value = .ok text ↔ value ≠ "" ∧ Denotes value.toList text.toList := by
  have hempty : value ≠ "" ↔ value.toList ≠ [] := by simp
  unfold unescape
  rw [bind_eq_ok, hempty]
  constructor
  · rintro ⟨out, hread, hout⟩
    rw [unescapeChars_eq_ok] at hread
    split at hout
    · cases hout
    · next hne =>
      cases hout
      rw [String.toList_ofList]
      refine ⟨fun hnil => ?_, hread⟩
      rw [hnil] at hread
      cases hread
      exact hne rfl
  · rintro ⟨hne, hdenotes⟩
    refine ⟨text.toList, unescapeChars_eq_ok.2 hdenotes, ?_⟩
    rw [if_neg (by simpa using hdenotes.ne_nil hne), String.ofList_toList]
    rfl

/-- **Escaped values are read exactly.** A text that is not empty is read from its escaped form. A
value is read just as what it stands for, and it is read just if it is not empty and each of its
backslashes that starts a pair has its partner. A line end is read in the same way, unless it is
one of its two names in some letter case. -/
theorem unescape_exact :
    (∀ text : String, text ≠ "" → unescape (escape text) = .ok text) ∧
    (∀ value text : String,
      unescape value = .ok text ↔ value ≠ "" ∧ Denotes value.toList text.toList) ∧
    (∀ value : String,
      (∃ text, unescape value = .ok text) ↔ value ≠ "" ∧ IsPaired value.toList) ∧
    (∀ value : String, value ∉ spellings "lf" → value ∉ spellings "crlf" →
      readEol value = unescape value) ∧
    (∀ value ∈ spellings "lf", readEol value = .ok "\n") ∧
    ∀ value ∈ spellings "crlf", readEol value = .ok "\r\n" := by
  refine ⟨fun text htext => ?_, fun _ _ => unescape_eq_ok, fun value => ?_,
    fun _ => readEol_of_not_mem, by decide, by decide⟩
  · have hdenotes : Denotes (escape text).toList text.toList := by
      rw [escape, String.toList_ofList]
      exact denotes_escape text.toList
    refine unescape_eq_ok.2 ⟨fun hempty => htext ?_, hdenotes⟩
    rw [hempty] at hdenotes
    cases hnil : text.toList with
    | nil => simpa using hnil
    | cons c cs =>
      rw [hnil] at hdenotes
      cases hdenotes
  · rw [isPaired_iff]
    constructor
    · rintro ⟨text, hread⟩
      obtain ⟨hne, hdenotes⟩ := unescape_eq_ok.1 hread
      exact ⟨hne, text.toList, hdenotes⟩
    · rintro ⟨hne, out, hdenotes⟩
      refine ⟨String.ofList out, unescape_eq_ok.2 ⟨hne, ?_⟩⟩
      rwa [String.toList_ofList]

/-- Three backslashes and a letter are a backslash and a line end; with one backslash more, the
letter stands for itself. -/
theorem unescape_exact_runs :
    "\\\n" ≠ "" ∧ escape "\\\n" = "\\\\\\n" ∧ unescape "\\\\\\n" = .ok "\\\n" ∧
    Denotes "\\\\\\\\n".toList "\\\\n".toList ∧ IsPaired "\\\\\\\\n".toList ∧
    "\\n" ∉ spellings "lf" ∧ "\\n" ∉ spellings "crlf" ∧
    readEol "\\n" = unescape "\\n" ∧ "cRlF" ∈ spellings "crlf" ∧ readEol "cRlF" = .ok "\r\n" := by
  obtain ⟨hescape, hdenotes, hpaired, heol, -, hcrlf⟩ := unescape_exact
  have hvalue : unescape "\\\\\\\\n" = .ok "\\\\n" := by decide
  have hwritten : escape "\\\n" = "\\\\\\n" := by decide
  have hread := hescape "\\\n" (by decide)
  rw [hwritten] at hread
  exact ⟨by decide, hwritten, hread, ((hdenotes _ _).1 hvalue).2, ((hpaired _).1 ⟨_, hvalue⟩).2,
    by decide, by decide, heol _ (by decide) (by decide), by decide, hcrlf _ (by decide)⟩

end AmbientBundle.CommandLine

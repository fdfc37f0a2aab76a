import AmbientBundle.Declaration.Basic
import AmbientBundle.Proofs.Computations
import AmbientBundle.Proofs.Offsets
import Mathlib.Data.List.Induction
import Mathlib.Data.Prod.Lex

/-!
# Lines and columns

The place of an offset is counted from the text before it. With each character more it moves on, to
the next column or to the next line, so that no two offsets have the same place. A place has 32 bits
for each number, and this is enough for all offsets but the largest one of 32 bits.

* `IsCurrentLine`: what there is of a line at the end of a text.
* `LineColumn.counts`: the numbers of a place without a bound; `counts_concat`: **how one character
  more moves them.** From that, `exists_isCurrentLine` says what a column counts, `counts_lt_append`
  that longer texts have later places, and `line_add_column_le` how large the numbers get.
* `LineColumn.numbers_after`: a place has the numbers that are counted, if they fit.
* `LineColumn.ofOffset_eq_after`: the place of an offset that falls between characters.
* `LineColumn.ofOffset_faithful`: **places count lines and columns, and tell offsets apart.**
* `LineColumn.ofOffset_replicate`: **a place that does not fit starts again from zero.**
-/

namespace AmbientBundle.Text

/-- **What there is of a line at the end of a text**: all that comes after the last line end, or the
whole text where there is none. -/
def IsCurrentLine (before current : List Char) : Prop :=
  '\n' ∉ current ∧ (before = current ∨ ∃ earlier, before = earlier ++ '\n' :: current)

theorem IsCurrentLine.nil : IsCurrentLine [] [] := ⟨List.not_mem_nil, .inl rfl⟩

/-- A line end starts a line. -/
theorem IsCurrentLine.start (before : List Char) : IsCurrentLine (before ++ ['\n']) [] :=
  ⟨List.not_mem_nil, .inr ⟨before, rfl⟩⟩

/-- Any other character goes on with the line. -/
theorem IsCurrentLine.concat {before current : List Char} (h : IsCurrentLine before current)
    {c : Char} (hc : c ≠ '\n') : IsCurrentLine (before ++ [c]) (current ++ [c]) := by
  obtain ⟨hcurrent, hbefore⟩ := h
  refine ⟨?_, ?_⟩
  · rw [List.mem_append, List.mem_singleton, not_or]
    exact ⟨hcurrent, Ne.symm hc⟩
  · rcases hbefore with rfl | ⟨earlier, rfl⟩
    · exact .inl rfl
    · exact .inr ⟨earlier, List.append_assoc _ _ _⟩

namespace LineColumn

variable {a b : LineColumn} {before text m : List Char} {i j : Nat}

/-! ### The order of places -/

/-- **The order of places**: by lines, and by columns on the same line. -/
instance : LT LineColumn :=
  ⟨fun a b => a.line < b.line ∨ a.line = b.line ∧ a.column < b.column⟩

/-- The numbers of a place. -/
def numbers (p : LineColumn) : Nat × Nat := (p.line.toNat, p.column.toNat)

theorem lt_iff : a < b ↔ toLex a.numbers < toLex b.numbers := by
  rw [Prod.Lex.toLex_lt_toLex]
  exact or_congr UInt32.lt_iff_toNat_lt
    (and_congr UInt32.toNat_inj.symm UInt32.lt_iff_toNat_lt)

theorem lt_irrefl (a : LineColumn) : ¬ a < a := fun h => (lt_iff.1 h).false

/-! ### One character more -/

/-- **The line and the column right after a text**, as large as they get. -/
def counts (before : List Char) : Nat × Nat :=
  (before.count '\n' + 1, (before.reverse.takeWhile (· != '\n')).length + 1)

/-- **How one character more moves a place**: a line end to the start of the next line, and any
other character to the next column. -/
theorem counts_concat (front : List Char) (c : Char) : counts (front ++ [c]) =
    if c = '\n' then ((counts front).1 + 1, 1) else ((counts front).1, (counts front).2 + 1) := by
  unfold counts
  rw [List.count_append, List.reverse_append]
  by_cases hc : c = '\n'
  · simp [hc]
  · simp [hc]

/-- **A column counts the characters of its line.** -/
theorem exists_isCurrentLine (before : List Char) :
    ∃ current, IsCurrentLine before current ∧ (counts before).2 = current.length + 1 := by
  induction before using List.reverseRecOn with
  | nil => exact ⟨[], .nil, rfl⟩
  | append_singleton before c ih =>
    obtain ⟨current, hcurrent, hcolumn⟩ := ih
    rw [counts_concat]
    by_cases hc : c = '\n'
    · rw [if_pos hc, hc]
      exact ⟨[], .start before, rfl⟩
    · rw [if_neg hc]
      exact ⟨current ++ [c], hcurrent.concat hc, by rw [hcolumn, List.length_append]; rfl⟩

theorem counts_lt_concat (front : List Char) (c : Char) :
    toLex (counts front) < toLex (counts (front ++ [c])) := by
  rw [counts_concat, Prod.Lex.toLex_lt_toLex]
  split
  · exact .inl (Nat.lt_succ_self _)
  · exact .inr ⟨rfl, Nat.lt_succ_self _⟩

/-- **A longer text has a later place.** -/
theorem counts_lt_append (front : List Char) (hm : m ≠ []) :
    toLex (counts front) < toLex (counts (front ++ m)) := by
  -- from the back, since a place is moved by the last character
  induction m using List.reverseRecOn with
  | nil => exact absurd rfl hm
  | append_singleton m c ih =>
    rw [← List.append_assoc]
    have hlast := counts_lt_concat (front ++ m) c
    by_cases hnil : m = []
    · rw [hnil, List.append_nil] at hlast ⊢
      exact hlast
    · exact (ih hnil).trans hlast

/-- Neither number gets larger than the bytes that it counts. -/
theorem line_add_column_le (before : List Char) :
    (counts before).1 + (counts before).2 ≤ byteLength before + 2 := by
  induction before using List.reverseRecOn with
  | nil => exact Nat.le_refl 2
  | append_singleton before c ih =>
    have hpos := c.utf8Size_pos
    have hone : byteLength [c] = c.utf8Size := rfl
    have hcolumn : 1 ≤ (counts before).2 := Nat.le_add_left 1 _
    rw [counts_concat, byteLength_append, hone]
    split
    · dsimp only
      omega
    · dsimp only
      omega

/-! ### Offsets -/

/-- **A place has the numbers that are counted**, if they fit. -/
theorem numbers_after (h : byteLength before + 1 < UInt32.size) :
    (after before).numbers = counts before := by
  -- each number is at least one, so that neither is larger than the bound on their sum less one
  have hle := line_add_column_le before
  have hlinePos : 1 ≤ (counts before).1 := Nat.le_add_left 1 _
  have hcolumnPos : 1 ≤ (counts before).2 := Nat.le_add_left 1 _
  have hline : (counts before).1 < UInt32.size := by omega
  have hcolumn : (counts before).2 < UInt32.size := by omega
  exact Prod.ext (UInt32.toNat_ofNat_of_lt' hline) (UInt32.toNat_ofNat_of_lt' hcolumn)

/-- The place of an offset that falls between characters. -/
theorem ofOffset_eq_after (before rest : List Char) :
    ofOffset (before ++ rest) (byteLength before) = after before := by
  have hmin : min (byteLength before) (byteLength (before ++ rest)) = byteLength before := by
    rw [byteLength_append]
    omega
  unfold ofOffset
  rw [hmin, splitAtByte?_eq_some.2 ⟨rfl, rfl⟩]

theorem ofOffset_lt (hi : IsBoundary text i) (hj : IsBoundary text j) (h : i < j)
    (hsmall : j + 1 < UInt32.size) : ofOffset text i < ofOffset text j := by
  obtain ⟨before, rest, htext, rfl⟩ := hi
  obtain ⟨longer, rest', htext', rfl⟩ := hj
  obtain ⟨m, rfl, rfl⟩ := front_le (htext.symm.trans htext') (Nat.le_of_lt h)
  have hm : m ≠ [] := by
    rintro rfl
    rw [List.append_nil] at h
    exact Nat.lt_irrefl _ h
  rw [htext, ofOffset_eq_after, ← List.append_assoc, ofOffset_eq_after, lt_iff,
    numbers_after (by omega), numbers_after hsmall]
  exact counts_lt_append before hm

/-- **Places count lines and columns, and tell offsets apart.** At an offset between characters that
is below the largest one of 32 bits, the line is one more than the line ends before it, and the
column one more than the characters since the last of them. Of two such offsets, the smaller one has
the earlier place, so that a place belongs to one offset only. A text without a byte-order mark that
cannot be read is reported at the place where reading it stops. -/
theorem ofOffset_faithful (source : String) :
    (∀ i, IsBoundary source.toList i → i + 1 < UInt32.size →
      ∃ before rest current, source.toList = before ++ rest ∧ byteLength before = i ∧
        IsCurrentLine before current ∧
        (ofOffset source.toList i).line.toNat = before.count '\n' + 1 ∧
        (ofOffset source.toList i).column.toNat = current.length + 1) ∧
    (∀ i j, IsBoundary source.toList i → IsBoundary source.toList j → i < j →
      j + 1 < UInt32.size → ofOffset source.toList i < ofOffset source.toList j) ∧
    (∀ i j, IsBoundary source.toList i → IsBoundary source.toList j → i + 1 < UInt32.size →
      j + 1 < UInt32.size → ofOffset source.toList i = ofOffset source.toList j → i = j) ∧
    (source.toList.head? ≠ some Declaration.byteOrderMark → ∀ place,
      Declaration.parse source = .error place ↔ ∃ fault,
        Source.readItems source.toList = .error fault ∧
        place = ofOffset source.toList fault.offset) := by
  refine ⟨?_, fun i j => ofOffset_lt, ?_, ?_⟩
  · rintro i ⟨before, rest, hsource, rfl⟩ hsmall
    obtain ⟨current, hcurrent, hcolumn⟩ := exists_isCurrentLine before
    have hnumbers := numbers_after hsmall
    rw [hsource, ofOffset_eq_after]
    refine ⟨before, rest, current, rfl, rfl, hcurrent, congrArg Prod.fst hnumbers, ?_⟩
    rw [← hcolumn]
    exact congrArg Prod.snd hnumbers
  · intro i j hi hj hismall hjsmall heq
    rcases Nat.lt_trichotomy i j with h | h | h
    · exact absurd (heq ▸ ofOffset_lt hi hj h hjsmall) (lt_irrefl _)
    · exact h
    · exact absurd (heq ▸ ofOffset_lt hj hi h hismall) (lt_irrefl _)
  · intro hmark place
    unfold Declaration.parse
    rw [Declaration.dropMark_eq_self hmark]
    cases Source.readItems source.toList with
    | ok items => simp
    | error fault => simp [eq_comm]

/-- Characters of one, two and three bytes on two lines: the offset of the line end, and the one
after the first character of the second line. A brace that closes nothing is reported where it
stands. -/
theorem ofOffset_faithful_bytes :
    IsBoundary "aé\n€b".toList 3 ∧ IsBoundary "aé\n€b".toList 7 ∧
    (∃ before rest current, "aé\n€b".toList = before ++ rest ∧ byteLength before = 7 ∧
      IsCurrentLine before current ∧
      (ofOffset "aé\n€b".toList 7).line.toNat = before.count '\n' + 1 ∧
      (ofOffset "aé\n€b".toList 7).column.toNat = current.length + 1) ∧
    ofOffset "aé\n€b".toList 3 = ⟨1, 3⟩ ∧ ofOffset "aé\n€b".toList 7 = ⟨2, 2⟩ ∧
    ofOffset "aé\n€b".toList 3 < ofOffset "aé\n€b".toList 7 ∧
    Declaration.parse "let é;\n \x7d" = .error (ofOffset "let é;\n \x7d".toList 9) ∧
    ofOffset "let é;\n \x7d".toList 9 = ⟨2, 2⟩ := by
  obtain ⟨hcounts, hlt, -, -⟩ := ofOffset_faithful "aé\n€b"
  obtain ⟨-, -, -, hparse⟩ := ofOffset_faithful "let é;\n \x7d"
  have hend : IsBoundary "aé\n€b".toList 3 := by decide
  have hnext : IsBoundary "aé\n€b".toList 7 := by decide
  have hfault : (Source.readItems "let é;\n \x7d".toList).map (fun _ => ()) = .error ⟨9⟩ := by
    decide +kernel
  exact ⟨hend, hnext, hcounts 7 hnext (by decide), by decide, by decide,
    hlt 3 7 hend hnext (by decide) (by decide),
    (hparse (by decide +kernel) _).2 ⟨_, map_eq_error.1 hfault, rfl⟩, by decide⟩

/-! ### Places that do not fit -/

theorem counts_replicate (n : Nat) : counts (List.replicate n '\n') = (n + 1, 1) := by
  simp [counts]

theorem byteLength_replicate (n : Nat) : byteLength (List.replicate n '\n') = n := by
  induction n with
  | zero => rfl
  | succ n ih =>
    have hone : '\n'.utf8Size = 1 := rfl
    rw [List.replicate_succ, byteLength, ih, hone, Nat.add_comm]

/-- **A line that does not fit starts again from zero.** -/
theorem ofOffset_replicate (n : Nat) :
    ofOffset (List.replicate n '\n') n = ⟨.ofNat (n + 1), 1⟩ := by
  have hafter := ofOffset_eq_after (List.replicate n '\n') []
  rw [List.append_nil, byteLength_replicate] at hafter
  rw [hafter]
  exact congrArg (fun p : Nat × Nat => (⟨.ofNat p.1, .ofNat p.2⟩ : LineColumn)) (counts_replicate n)

/-- The largest offset of 32 bits has no place of its own: after as many line ends, the line is
zero, so that the place comes before that of the start. And in a text with a byte-order mark, a
fault is reported too early: reading stops at the brace that starts the second line, but the place
that is reported lies on the first line. -/
theorem ofOffset_not_faithful :
    (∃ text, text = List.replicate (UInt32.size - 1) '\n' ∧ byteLength text < UInt32.size ∧
      IsBoundary text (UInt32.size - 1) ∧ text.count '\n' + 1 = UInt32.size ∧
      ofOffset text (UInt32.size - 1) = ⟨0, 1⟩ ∧
      ofOffset text (UInt32.size - 1) < ofOffset text 0) ∧
    slice? 30 31 "\uFEFFexport declare const x: 1;\n\x7d\n".toList = some ['\x7d'] ∧
      ofOffset "\uFEFFexport declare const x: 1;\n\x7d\n".toList 30 = ⟨2, 1⟩ ∧
      Declaration.parse "\uFEFFexport declare const x: 1;\n\x7d\n" = .error ⟨1, 26⟩ := by
  refine ⟨⟨_, rfl, ?_, ?_, ?_, ?_, ?_⟩, by decide, by decide, ?_⟩
  · rw [byteLength_replicate]
    decide
  · exact ⟨_, [], (List.append_nil _).symm, byteLength_replicate _⟩
  · rw [List.count_replicate_self]
    decide
  · rw [ofOffset_replicate]
    decide
  · have hstart : ofOffset (List.replicate (UInt32.size - 1) '\n') 0 = after [] :=
      ofOffset_eq_after [] _
    rw [ofOffset_replicate, hstart]
    exact .inl (by decide)
  · have hfault : (Declaration.parse "\uFEFFexport declare const x: 1;\n\x7d\n").map
        (fun _ => ()) = .error ⟨1, 26⟩ := by decide +kernel
    exact map_eq_error.1 hfault

end LineColumn

end AmbientBundle.Text

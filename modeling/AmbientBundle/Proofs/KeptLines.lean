import AmbientBundle.Project.File
import AmbientBundle.Proofs.Computations
import AmbientBundle.Proofs.Lists
import AmbientBundle.Proofs.Offsets

/-!
# Lines of cleaned texts

Cleaning drops characters, but no line end, however malformed the text is. So each character that
stays is on the line on which it was, and a fault in the cleaned text is reported with the line that
it has in the file.

* `commentMarks`, `commaMarks`: which characters the two steps of cleaning leave.
* `count_removeCommentsFrom`, `count_removeTrailingCommasFrom`: **no line end is dropped.**
* `keptPlaces`: the characters that stay, with the positions that they had.
* `lineAt_of_sublist`: characters that are left with all line ends stay on their lines.
* `Json.Place.after_append`: how the place of an offset is counted; from that, its line at the start
  of a character, inside of one and at the end.
* `cleaned_keeps_lines`: **cleaning keeps lines**, and so do the places of faults.
-/

namespace AmbientBundle.Project

open Text List

/-! ### Marks -/

section Marks

variable {α β : Type}

/-- The elements of a list that are marked. -/
def marked : List Bool → List α → List α
  | [], _ => []
  | _ :: _, [] => []
  | true :: marks, x :: xs => x :: marked marks xs
  | false :: marks, _ :: xs => marked marks xs

theorem marked_sublist (marks : List Bool) (xs : List α) : marked marks xs <+ xs := by
  fun_induction marked marks xs with
  | case1 xs => exact nil_sublist xs
  | case2 => exact Sublist.slnil
  | case3 marks x xs ih => exact ih.cons_cons x
  | case4 marks x xs ih => exact ih.cons x

theorem map_marked (f : α → β) (marks : List Bool) (xs : List α) :
    (marked marks xs).map f = marked marks (xs.map f) := by
  fun_induction marked marks xs with
  | case1 => rfl
  | case2 => rfl
  | case3 marks x xs ih => rw [map_cons, ih, map_cons, marked]
  | case4 marks x xs ih => rw [ih, map_cons, marked]

end Marks

/-- **The characters that are no comment**, from inside of some part of a text; the line ends of a
comment are among them. -/
def commentMarks : CommentMode → List Char → List Bool
  | _, [] => []
  | .plain, '/' :: '/' :: cs => false :: false :: commentMarks .line cs
  | .plain, '/' :: '*' :: cs => false :: false :: commentMarks .block cs
  | .plain, '"' :: cs => true :: commentMarks .string cs
  | .plain, _ :: cs => true :: commentMarks .plain cs
  | .string, '"' :: cs => true :: commentMarks .plain cs
  | .string, '\\' :: _ :: cs => true :: true :: commentMarks .string cs
  | .string, _ :: cs => true :: commentMarks .string cs
  | .line, '\n' :: cs => true :: commentMarks .plain cs
  | .line, _ :: cs => false :: commentMarks .line cs
  | .block, '*' :: '/' :: cs => false :: false :: commentMarks .plain cs
  | .block, '\n' :: cs => true :: commentMarks .block cs
  | .block, _ :: cs => false :: commentMarks .block cs

theorem removeCommentsFrom_eq_marked (mode : CommentMode) (cs : List Char) :
    removeCommentsFrom mode cs = marked (commentMarks mode cs) cs := by
  fun_induction removeCommentsFrom mode cs <;> simp_all [commentMarks, marked]

/-- **The characters that are no trailing comma**, from inside or outside of a string. -/
def commaMarks : Bool → List Char → List Bool
  | _, [] => []
  | false, '"' :: cs => true :: commaMarks true cs
  | false, ',' :: cs => (!closesNext cs) :: commaMarks false cs
  | false, _ :: cs => true :: commaMarks false cs
  | true, '"' :: cs => true :: commaMarks false cs
  | true, '\\' :: _ :: cs => true :: true :: commaMarks true cs
  | true, _ :: cs => true :: commaMarks true cs

theorem removeTrailingCommasFrom_eq_marked (inside : Bool) (cs : List Char) :
    removeTrailingCommasFrom inside cs = marked (commaMarks inside cs) cs := by
  fun_induction removeTrailingCommasFrom inside cs <;> simp_all [commaMarks, marked]

/-! ### Line ends -/

/-- **Comments leave their line ends**, wherever the text breaks off. -/
theorem count_removeCommentsFrom (mode : CommentMode) (cs : List Char) :
    (removeCommentsFrom mode cs).count '\n' = cs.count '\n' := by
  -- a step drops a mark of a comment, or a character inside of one that is no line end
  fun_induction removeCommentsFrom mode cs <;> simp_all [count_cons]

theorem count_removeTrailingCommasFrom (inside : Bool) (cs : List Char) :
    (removeTrailingCommasFrom inside cs).count '\n' = cs.count '\n' := by
  fun_induction removeTrailingCommasFrom inside cs <;> simp_all [count_cons]

theorem count_cleaned (text : String) :
    (cleaned text).toList.count '\n' = text.toList.count '\n' := by
  rw [cleaned, String.toList_ofList, removeTrailingCommas, count_removeTrailingCommasFrom,
    removeComments, count_removeCommentsFrom]

/-! ### Positions -/

/-- **The characters that cleaning leaves**, with the positions that they have in the text. -/
def keptPlaces (text : String) : List (Char × Nat) :=
  marked (commaMarks false (removeComments text.toList))
    (marked (commentMarks .plain text.toList) text.toList.zipIdx)

theorem map_fst_keptPlaces (text : String) :
    (keptPlaces text).map Prod.fst = (cleaned text).toList := by
  rw [keptPlaces, map_marked, map_marked, zipIdx_map_fst, ← removeCommentsFrom_eq_marked, cleaned,
    String.toList_ofList, removeTrailingCommas, removeTrailingCommasFrom_eq_marked]
  rfl

theorem keptPlaces_sublist (text : String) : keptPlaces text <+ text.toList.zipIdx :=
  (marked_sublist _ _).trans (marked_sublist _ _)

/-- **The line of a position**: one more than the line ends before it. -/
def lineAt (text : List Char) (n : Nat) : Nat := (text.take n).count '\n' + 1

/-- **Characters that are left with all line ends stay on their lines.** On either side of a
character there are no more line ends in what is left than there were; with as many of them in the
whole, no side has fewer. -/
theorem lineAt_of_sublist {text : List Char} {kept : List (Char × Nat)} (hsub : kept <+ text.zipIdx)
    (hcount : (kept.map Prod.fst).count '\n' = text.count '\n') {k i : Nat} {c : Char}
    (hk : kept[k]? = some (c, i)) :
    text[i]? = some c ∧ lineAt (kept.map Prod.fst) k = lineAt text i := by
  obtain ⟨hlt, hget⟩ := List.getElem?_eq_some_iff.1 hk
  have hkept : kept = kept.take k ++ (c, i) :: kept.drop (k + 1) := by
    rw [← hget, getElem_cons_drop, take_append_drop]
  obtain ⟨before, after, hzip, hfront, hback⟩ := exists_sides (hkept ▸ hsub)
  obtain ⟨htext, rfl⟩ := eq_append_of_zipIdx hzip
  have hbefore := (hfront.map Prod.fst).count_le '\n'
  have hafter := (hback.map Prod.fst).count_le '\n'
  have hsum : ((kept.take k).map Prod.fst).count '\n' +
        ((kept.drop (k + 1)).map Prod.fst).count '\n' =
      (before.map Prod.fst).count '\n' + (after.map Prod.fst).count '\n' := by
    rw [hkept, htext, map_append, map_cons, count_append, count_append, count_cons, count_cons]
      at hcount
    dsimp only at hcount
    omega
  have hlength : before.length = (before.map Prod.fst).length := (length_map _).symm
  constructor
  · rw [htext, hlength, getElem?_append_right (Nat.le_refl _), Nat.sub_self, getElem?_cons_zero]
  · rw [lineAt, lineAt, ← map_take, htext, hlength, take_left]
    omega

theorem lineAt_succ {text : List Char} {i : Nat} {c : Char} (h : text[i]? = some c) :
    lineAt text (i + 1) = lineAt text i + if c = '\n' then 1 else 0 := by
  rw [lineAt, lineAt, take_add_one, h, count_append]
  by_cases hc : c = '\n'
  · simp [hc]
  · simp [hc]

end AmbientBundle.Project

namespace AmbientBundle.Json.Place

open Text Project

/-! ### Reported places -/

variable {text front : List Char} {offset k : Nat} {place : Place} {c : Char}

/-- **The characters before an offset are passed**, and of them only the line ends move the line. -/
theorem after_append (rest : List Char) (h : byteLength front ≤ offset) :
    ∃ column, after (front ++ rest) offset place =
      after rest (offset - byteLength front) ⟨place.line + front.count '\n', column⟩ := by
  induction front generalizing offset place with
  | nil => exact ⟨place.column, rfl⟩
  | cons c front ih =>
    have hpos := c.utf8Size_pos
    have hlength : byteLength (c :: front) = c.utf8Size + byteLength front := rfl
    have hne : offset ≠ 0 := by omega
    have hle : byteLength front ≤ offset - c.utf8Size := by omega
    obtain ⟨column, hcolumn⟩ := ih hle
    refine ⟨column, ?_⟩
    rw [List.cons_append, after, if_neg hne, hcolumn, hlength, Nat.sub_sub, List.count_cons]
    by_cases hc : c = '\n'
    · simp [hc, Nat.add_assoc, Nat.add_comm 1]
    · simp [hc]

theorem after_zero (rest : List Char) : after rest 0 place = place := by
  cases rest with
  | nil => rfl
  | cons c rest => rw [after, if_pos rfl]

/-- The line where a character starts. -/
theorem line_ofOffset_start (text : List Char) (k : Nat) :
    (ofOffset text (byteLength (text.take k))).line = lineAt text k := by
  obtain ⟨column, hcolumn⟩ := after_append (text.drop k) (Nat.le_refl (byteLength (text.take k)))
  rw [List.take_append_drop, Nat.sub_self, after_zero] at hcolumn
  rw [ofOffset, hcolumn]
  exact Nat.add_comm _ _

/-- **The line inside of a character** is the one that comes after it, for a character is passed as
soon as a byte of it is. -/
theorem line_ofOffset_inside (h : text[k]? = some c) (hlt : byteLength (text.take k) < offset)
    (hle : offset ≤ byteLength (text.take (k + 1))) :
    (ofOffset text offset).line = lineAt text (k + 1) := by
  have hnext : text.take (k + 1) = text.take k ++ [c] := by rw [List.take_add_one, h]; rfl
  have hdrop : text.drop k = c :: text.drop (k + 1) := by
    obtain ⟨hk, hget⟩ := List.getElem?_eq_some_iff.1 h
    rw [List.drop_eq_getElem_cons hk, hget]
  have hone : byteLength [c] = c.utf8Size := rfl
  rw [hnext, byteLength_append, hone] at hle
  obtain ⟨column, hcolumn⟩ := after_append (text.drop k) (Nat.le_of_lt hlt)
  have hne : offset - byteLength (text.take k) ≠ 0 := by omega
  have hpassed : offset - byteLength (text.take k) - c.utf8Size = 0 := by omega
  rw [List.take_append_drop, hdrop, after, if_neg hne, hpassed, after_zero] at hcolumn
  rw [lineAt_succ h, ofOffset, hcolumn, lineAt]
  split
  · dsimp only
    omega
  · dsimp only
    omega

/-- The line at the end of a text, and past it. -/
theorem line_ofOffset_end (h : byteLength text ≤ offset) :
    (ofOffset text offset).line = text.count '\n' + 1 := by
  obtain ⟨column, hcolumn⟩ := after_append [] h
  rw [List.append_nil] at hcolumn
  rw [ofOffset, hcolumn, after]
  exact Nat.add_comm _ _

end AmbientBundle.Json.Place

namespace AmbientBundle.Project

open Text Json

/-- **The line of the file for an offset in its cleaned text.** Where a character that stays starts,
it is the line that the character has in the file; after any byte of the character, the line right
after it in the file; and at the end, the last line of the file. -/
structure IsLineOf (text : String) (offset line : Nat) : Prop where
  start : ∀ k c i, (keptPlaces text)[k]? = some (c, i) →
    offset = byteLength ((cleaned text).toList.take k) → line = lineAt text.toList i
  inside : ∀ k c i, (keptPlaces text)[k]? = some (c, i) →
    byteLength ((cleaned text).toList.take k) < offset →
    offset ≤ byteLength ((cleaned text).toList.take (k + 1)) → line = lineAt text.toList (i + 1)
  finish : byteLength (cleaned text).toList ≤ offset → line = text.toList.count '\n' + 1

variable {text : String} {k i : Nat} {c : Char}

theorem lineAt_keptPlaces (h : (keptPlaces text)[k]? = some (c, i)) :
    text.toList[i]? = some c ∧ lineAt (cleaned text).toList k = lineAt text.toList i := by
  have hcount := count_cleaned text
  rw [← map_fst_keptPlaces] at hcount ⊢
  exact lineAt_of_sublist (keptPlaces_sublist text) hcount h

theorem getElem?_cleaned (h : (keptPlaces text)[k]? = some (c, i)) :
    (cleaned text).toList[k]? = some c := by
  rw [← map_fst_keptPlaces, List.getElem?_map, h]
  rfl

/-- **A place that is counted in the cleaned text has its line in the file.** -/
theorem isLineOf_ofOffset (text : String) (offset : Nat) :
    IsLineOf text offset (Place.ofOffset (cleaned text).toList offset).line where
  start k c i h hstart := by
    rw [hstart, Place.line_ofOffset_start, (lineAt_keptPlaces h).2]
  inside k c i h hlt hle := by
    have hkept := getElem?_cleaned h
    obtain ⟨htext, hline⟩ := lineAt_keptPlaces h
    rw [Place.line_ofOffset_inside hkept hlt hle, lineAt_succ hkept, lineAt_succ htext, hline]
  finish hle := by
    rw [Place.line_ofOffset_end hle, count_cleaned]

theorem keptPlaces_pairwise (text : String) :
    (keptPlaces text).Pairwise fun a b => a.2 < b.2 := by
  have hsorted : (text.toList.zipIdx.map Prod.snd).Pairwise (· < ·) := by
    rw [List.zipIdx_map_snd]
    exact List.pairwise_lt_range'
  exact (List.pairwise_map.1 hsorted).sublist (keptPlaces_sublist text)

/-- **Cleaning keeps lines**, whatever the text. No line end is dropped. The characters that stay
are characters of the text in their order, each on the line on which it was. So the place of a fault
has the line of the file. -/
theorem cleaned_keeps_lines (text : String) :
    (cleaned text).toList.count '\n' = text.toList.count '\n' ∧
    (keptPlaces text).map Prod.fst = (cleaned text).toList ∧
    ((keptPlaces text).Pairwise fun a b => a.2 < b.2) ∧
    (∀ k c i, (keptPlaces text)[k]? = some (c, i) →
      text.toList[i]? = some c ∧ lineAt (cleaned text).toList k = lineAt text.toList i) ∧
    ∀ cause place, ConfigFile.parse text = .error (cause, place) →
      ∃ fault, document (record fileShape .empty) (cleaned text) = .error fault ∧
        fault.cause = cause ∧ IsLineOf text (fault.offset.getD 0) place.line := by
  refine ⟨count_cleaned text, map_fst_keptPlaces text, keptPlaces_pairwise text,
    fun k c i => lineAt_keptPlaces, ?_⟩
  intro cause place hparse
  obtain ⟨fault, hfault, hplace⟩ := mapError_eq_error.1 hparse
  obtain ⟨rfl, rfl⟩ := Prod.mk.inj hplace
  exact ⟨fault, hfault, rfl, isLineOf_ofOffset text (fault.offset.getD 0)⟩

/-- A number among the files, on the second line since a comment ends the first one, and a comment
that does not end. -/
theorem cleaned_keeps_lines_fault :
    cleaned "\x7b/*,\n*/\"files\":[7,]\x7d/*\n" = "\x7b\n\"files\":[7]\x7d\n" ∧
    (keptPlaces "\x7b/*,\n*/\"files\":[7,]\x7d/*\n")[11]? = some ('7', 16) ∧
    lineAt "\x7b\n\"files\":[7]\x7d\n".toList 11 =
      lineAt "\x7b/*,\n*/\"files\":[7,]\x7d/*\n".toList 16 ∧
    ConfigFile.parse "\x7b/*,\n*/\"files\":[7,]\x7d/*\n" =
      .error (.invalidType (.integer 7) "a string", ⟨2, 10⟩) ∧
    IsLineOf "\x7b/*,\n*/\"files\":[7,]\x7d/*\n" 12 2 ∧
    lineAt "\x7b/*,\n*/\"files\":[7,]\x7d/*\n".toList 17 = 2 := by
  obtain ⟨-, -, -, hlines, hplaces⟩ :=
    cleaned_keeps_lines "\x7b/*,\n*/\"files\":[7,]\x7d/*\n"
  have hclean : cleaned "\x7b/*,\n*/\"files\":[7,]\x7d/*\n" = "\x7b\n\"files\":[7]\x7d\n" := by
    decide +kernel
  have hkept : (keptPlaces "\x7b/*,\n*/\"files\":[7,]\x7d/*\n")[11]? = some ('7', 16) := by
    decide +kernel
  have hparse : ConfigFile.parse "\x7b/*,\n*/\"files\":[7,]\x7d/*\n" =
      .error (.invalidType (.integer 7) "a string", ⟨2, 10⟩) := by decide +kernel
  obtain ⟨fault, hfault, -, hline⟩ := hplaces _ _ hparse
  have hoffset : document (record fileShape .empty) "\x7b\n\"files\":[7]\x7d\n" =
      .error ⟨.invalidType (.integer 7) "a string", some 12⟩ := by decide +kernel
  rw [hclean, hoffset] at hfault
  obtain rfl := Except.error.inj hfault
  have hbytes : byteLength ("\x7b\n\"files\":[7]\x7d\n".toList.take 11) < 12 ∧
      12 ≤ byteLength ("\x7b\n\"files\":[7]\x7d\n".toList.take 12) := by decide +kernel
  refine ⟨hclean, hkept, hclean ▸ (hlines 11 '7' 16 hkept).2, hparse, hline, ?_⟩
  exact (hline.inside 11 '7' 16 hkept (hclean ▸ hbytes.1) (hclean ▸ hbytes.2)).symm

end AmbientBundle.Project

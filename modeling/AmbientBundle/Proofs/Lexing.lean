import AmbientBundle.Proofs.Offsets
import AmbientBundle.Source.Lexer

/-!
# What the lexer reads

The lexer takes each token from the front of the unread text, and counts the bytes it takes. Where a
text is no token, it gives the rest of the text up.

* `Cursor.Reads`, `Cursor.Passes`: a cursor after a part of the text, or after a part that is not
  empty.
* `Scanned`, `scanned_readToken`: a token is the end of the text, or no token, or takes something.
* `Scanned.respelled`: a mark that may be split stands in the text as it is spelled.
* `GapEnd.Closes`, `skipGap_closes`: a gap ends where a token starts.
-/

namespace AmbientBundle.Source

open Text

/-! ### Literals leave a rest of the text -/

theorem takeHex_suffix {n v : Nat} {cs rest : List Char} (h : takeHex n cs = some (v, rest)) :
    rest <:+ cs := by
  unfold takeHex at h
  dsimp only at h
  split at h
  · cases h
    exact List.drop_suffix n cs
  · cases h

theorem takeCodePoint_suffix {v : Nat} {cs rest : List Char}
    (h : takeCodePoint cs = some (v, rest)) : rest <:+ cs := by
  unfold takeCodePoint at h
  split at h
  · next cs =>
    dsimp only at h
    split at h
    · next left hleft =>
      have hdrop : left <:+ cs :=
        (hleft ▸ List.suffix_cons _ _ : left <:+ cs.drop _).trans (List.drop_suffix _ _)
      split at h
      · cases h
      · cases h
        exact hdrop.trans (List.suffix_cons _ _)
    · cases h
  · exact takeHex_suffix h

theorem readEscape_suffix {code : Option Nat} {cs rest : List Char}
    (h : readEscape cs = some (code, rest)) : rest <:+ cs := by
  unfold readEscape at h
  split at h
  case h_1 => cases h
  case h_8 => cases h; exact (List.suffix_cons _ _).trans (List.suffix_cons _ _)
  case h_9 cs =>
    obtain ⟨⟨v, left⟩, hleft, heq⟩ := Option.map_eq_some_iff.1 h
    cases heq
    exact (takeHex_suffix hleft).trans (List.suffix_cons _ _)
  case h_10 cs =>
    obtain ⟨⟨v, left⟩, hleft, heq⟩ := Option.map_eq_some_iff.1 h
    cases heq
    exact (takeCodePoint_suffix hleft).trans (List.suffix_cons _ _)
  case h_11 =>
    split at h
    · cases h; exact List.suffix_cons _ _
    · split at h
      · cases h; exact List.drop_suffix _ _
      · cases h; exact List.suffix_cons _ _
  all_goals cases h; exact List.suffix_cons _ _

theorem readStringBody_suffix {quote : Char} {n : Nat} {cs rest : List Char} {codes : List Nat}
    (h : readStringBody quote n cs = some (codes, rest)) : rest <:+ cs := by
  fun_induction readStringBody quote n cs generalizing codes with
  | case1 cs => cases h; exact List.suffix_refl _
  | case2 => cases h; exact List.suffix_refl _
  | case3 => cases h
  | case4 n cs code left hescape ih =>
    obtain ⟨⟨codes, left⟩, hleft, heq⟩ := Option.map_eq_some_iff.1 h
    cases heq
    exact ((ih hleft).trans (readEscape_suffix hescape)).trans (List.suffix_cons _ _)
  | case5 n c cs => cases h; exact List.suffix_refl _
  | case6 n c cs _ _ ih =>
    obtain ⟨⟨codes, left⟩, hleft, heq⟩ := Option.map_eq_some_iff.1 h
    cases heq
    exact (ih hleft).trans (List.suffix_cons _ _)

theorem readTemplateBody_suffix {closed : Bool} {cs rest : List Char}
    (h : readTemplateBody cs = some (closed, rest)) : rest <:+ cs := by
  fun_induction readTemplateBody cs with
  | case1 => cases h
  | case2 cs => cases h; exact List.suffix_cons _ _
  | case3 cs => cases h; exact (List.suffix_cons _ _).trans (List.suffix_cons _ _)
  | case4 c cs ih => exact ((ih h).trans (List.suffix_cons _ _)).trans (List.suffix_cons _ _)
  | case5 c cs _ _ _ ih => exact (ih h).trans (List.suffix_cons _ _)

theorem readRegexBody_suffix {inClass : Bool} {cs rest : List Char}
    (h : readRegexBody inClass cs = some rest) : rest <:+ cs := by
  fun_induction readRegexBody inClass cs with
  | case1 => cases h
  | case2 => cases h
  | case3 inClass c cs _ ih =>
    exact ((ih h).trans (List.suffix_cons _ _)).trans (List.suffix_cons _ _)
  | case4 => cases h
  | case5 inClass c cs _ _ _ => cases h; exact List.suffix_cons _ _
  | case6 inClass c cs _ _ _ ih => exact (ih h).trans (List.suffix_cons _ _)

theorem readWordBody_suffix {n : Nat} {cs name rest : List Char}
    (h : readWordBody n cs = some (name, rest)) : rest <:+ cs := by
  fun_induction readWordBody n cs generalizing name with
  | case1 cs => cases h; exact List.suffix_refl _
  | case2 => cases h
  | case3 n cs code left hcode _ ih =>
    obtain ⟨⟨w, left⟩, hleft, heq⟩ := Option.map_eq_some_iff.1 h
    cases heq
    exact (((ih hleft).trans (takeCodePoint_suffix hcode)).trans (List.suffix_cons _ _)).trans
      (List.suffix_cons _ _)
  | case4 => cases h
  | case5 n c cs _ _ ih =>
    obtain ⟨⟨w, left⟩, hleft, heq⟩ := Option.map_eq_some_iff.1 h
    cases heq
    exact (ih hleft).trans (List.suffix_cons _ _)
  | case6 => cases h
  | case7 n c cs => cases h; exact List.suffix_refl _
  | case8 => cases h; exact List.suffix_refl _

theorem dropDigits_suffix (isDigit : Char → Bool) (cs : List Char) : dropDigits isDigit cs <:+ cs :=
  List.dropWhile_suffix _

theorem dropExponent_suffix (cs : List Char) : dropExponent cs <:+ cs := by
  unfold dropExponent
  split
  · next e s d rest =>
    have hrest := dropDigits_suffix Char.isDigit rest
    have hd := dropDigits_suffix Char.isDigit (d :: rest)
    split
    · split
      · exact ((hrest.trans (List.suffix_cons _ _)).trans (List.suffix_cons _ _)).trans
          (List.suffix_cons _ _)
      · split
        · exact (hd.trans (List.suffix_cons _ _)).trans (List.suffix_cons _ _)
        · exact List.suffix_refl _
    · exact List.suffix_refl _
  · next e s rest _ =>
    split
    · exact ((dropDigits_suffix _ _).trans (List.suffix_cons _ _)).trans (List.suffix_cons _ _)
    · exact List.suffix_refl _
  · exact List.suffix_refl _

/-- A decimal number takes the digit or the dot it starts with. -/
theorem dropDecimal_suffix {h : Char} {cs : List Char} (hh : h.isDigit = true ∨ h = '.') :
    dropDecimal (h :: cs) <:+ cs := by
  have hdot : ∀ rest, dropExponent (dropDigits Char.isDigit rest) <:+ rest := fun rest =>
    (dropExponent_suffix _).trans (dropDigits_suffix _ _)
  unfold dropDecimal
  rcases hh with hdigit | rfl
  · have hdrop : dropDigits Char.isDigit (h :: cs) = dropDigits Char.isDigit cs := by
      unfold dropDigits
      rw [List.dropWhile_cons_of_pos (by simp [hdigit])]
    rw [hdrop]
    have hcs := dropDigits_suffix Char.isDigit cs
    split
    · next rest hrest =>
      rw [hrest] at hcs
      exact (hdot rest).trans ((List.suffix_cons _ _).trans hcs)
    · exact (dropExponent_suffix _).trans hcs
  · have hdrop : dropDigits Char.isDigit ('.' :: cs) = '.' :: cs := by
      unfold dropDigits
      rw [List.dropWhile_cons_of_neg (by decide)]
    rw [hdrop]
    exact hdot cs

/-! ### Cursors that have read something -/

/-- A cursor after a part of the text has been read. -/
def Cursor.Reads (c c' : Cursor) : Prop :=
  ∃ read, c.rest = read ++ c'.rest ∧ c'.pos = c.pos + byteLength read

/-- A cursor after something has been read. -/
def Cursor.Passes (c c' : Cursor) : Prop :=
  ∃ read, read ≠ [] ∧ c.rest = read ++ c'.rest ∧ c'.pos = c.pos + byteLength read

namespace Cursor

variable {c c' c'' : Cursor}

theorem Reads.refl (c : Cursor) : c.Reads c := ⟨[], rfl, rfl⟩

theorem Reads.trans (h : c.Reads c') (h' : c'.Reads c'') : c.Reads c'' := by
  obtain ⟨r, hr, hp⟩ := h
  obtain ⟨r', hr', hp'⟩ := h'
  refine ⟨r ++ r', by rw [hr, hr', List.append_assoc], ?_⟩
  rw [hp', hp, byteLength_append]
  omega

theorem Reads.pos_le (h : c.Reads c') : c.pos ≤ c'.pos := by
  obtain ⟨r, -, hp⟩ := h
  omega

theorem Passes.reads (h : c.Passes c') : c.Reads c' := by
  obtain ⟨r, -, hr⟩ := h
  exact ⟨r, hr⟩

theorem Passes.pos_lt (h : c.Passes c') : c.pos < c'.pos := by
  obtain ⟨r, hne, -, hp⟩ := h
  have := byteLength_pos hne
  omega

theorem Reads.passes (h : c.Reads c') (hlt : c'.rest.length < c.rest.length) : c.Passes c' := by
  obtain ⟨r, hr, hp⟩ := h
  refine ⟨r, ?_, hr, hp⟩
  rintro rfl
  rw [hr, List.nil_append] at hlt
  exact Nat.lt_irrefl _ hlt

theorem reads_past {left : List Char} (h : left <:+ c.rest) :
    c.Reads (c.past (consumed c.rest left) left) := by
  obtain ⟨front, hfront⟩ := h
  have hconsumed : consumed c.rest left = front := by
    unfold consumed
    rw [← hfront, List.length_append, Nat.add_sub_cancel, List.take_left]
  exact ⟨front, by rw [← hfront]; rfl, by rw [hconsumed]; rfl⟩

/-- What leaves a rest of the tail has read something. -/
theorem passes_past {h : Char} {cs left : List Char} (hc : c.rest = h :: cs) (hleft : left <:+ cs) :
    c.Passes (c.past (consumed c.rest left) left) := by
  refine (reads_past (hc ▸ hleft.trans (List.suffix_cons _ _))).passes ?_
  have := hleft.length_le
  rw [hc]
  simp only [past, List.length_cons]
  omega

theorem passes_drop {n : Nat} (hpos : 0 < n) (hn : byteLength (c.rest.take n) = n) :
    c.Passes ⟨c.rest.drop n, c.pos + n⟩ := by
  refine ⟨c.rest.take n, ?_, (List.take_append_drop n c.rest).symm, by rw [hn]⟩
  intro hnil
  rw [hnil] at hn
  simp only [byteLength] at hn
  omega

end Cursor

/-! ### Tokens -/

/-- The spelling of the marks that a reader may scan anew. -/
def Mark.respelled? : Mark → Option (List Char)
  | .rbrace => some ['\x7d']
  | .slash => some ['/']
  | .slashAssign => some ['/', '=']
  | .shiftLeft => some ['<', '<']
  | _ => none

theorem readMark_spec {inType : Bool} {cs : List Char} {m : Mark} {n : Nat}
    (h : readMark inType cs = some (m, n)) :
    0 < n ∧ byteLength (cs.take n) = n ∧ ∀ front, m.respelled? = some front → cs.take n = front := by
  unfold readMark at h
  repeat' split at h
  all_goals
    first
    | cases h
      refine ⟨by decide, rfl, fun front hfront => ?_⟩
      cases hfront <;> rfl
    | cases h

/-- A dot is a mark. -/
theorem readMark_dot (inType : Bool) (cs : List Char) : readMark inType ('.' :: cs) ≠ none := by
  by_cases hdots : ∃ rest, cs = '.' :: '.' :: rest
  · obtain ⟨rest, rfl⟩ := hdots
    exact Option.some_ne_none _
  · rw [readMark]
    · exact Option.some_ne_none _
    · exact fun rest hcs => hdots ⟨rest, hcs⟩

/-- A token that is neither a mark nor the end of the text. -/
def Token.isPlain : Token → Bool
  | .mark _ | .eof => false
  | _ => true

/-- **What a token takes from the text**: nothing at its end, all that is left if there is no token,
and something otherwise. -/
inductive Scanned (inType : Bool) (c : Cursor) : Token → Cursor → Prop
  | eof : c.rest = [] → Scanned inType c .eof c
  | bad (offset : Nat) : Scanned inType c (.bad offset) ⟨[], c.pos⟩
  | mark {m : Mark} {n : Nat} : readMark inType c.rest = some (m, n) →
    Scanned inType c (.mark m) ⟨c.rest.drop n, c.pos + n⟩
  | plain {token : Token} {c' : Cursor} : c.Passes c' → token.isPlain = true →
    Scanned inType c token c'

section Scanned

variable {inType : Bool} {c : Cursor} {h : Char} {cs : List Char}

theorem scanned_readString (quote : Char) (hc : c.rest = h :: cs) :
    Scanned inType c (readString quote c).1 (readString quote c).2 := by
  unfold readString
  split
  · exact .bad _
  · next codes rest hbody =>
    rw [hc, List.drop_one, List.tail_cons] at hbody
    have hrest := readStringBody_suffix hbody
    refine .plain (Cursor.passes_past hc ?_) rfl
    split
    · exact (List.drop_suffix _ _).trans hrest
    · exact hrest

theorem scanned_readTemplate (hc : c.rest = h :: cs) :
    Scanned inType c (readTemplate c).1 (readTemplate c).2 := by
  unfold readTemplate
  split
  · exact .bad _
  · next closed rest hbody =>
    rw [hc, List.drop_one, List.tail_cons] at hbody
    refine .plain (Cursor.passes_past hc (readTemplateBody_suffix hbody)) ?_
    cases closed <;> rfl

theorem scanned_readRegex (hc : c.rest = h :: cs) :
    Scanned inType c (readRegex c).1 (readRegex c).2 := by
  unfold readRegex
  split
  · exact .bad _
  · next rest hbody =>
    rw [hc, List.drop_one, List.tail_cons] at hbody
    exact .plain
      (Cursor.passes_past hc ((List.dropWhile_suffix _).trans (readRegexBody_suffix hbody))) rfl

/-- A word takes the character it starts with. -/
theorem readWordBody_suffix_tail {n : Nat} {name rest : List Char}
    (hh : (startsName h || h == '\\') = true)
    (hbody : readWordBody (n + 1) (h :: cs) = some (name, rest)) : rest <:+ cs := by
  unfold readWordBody at hbody
  split at hbody
  · cases ‹_ + 1 = 0›
  · next heq hlist =>
    cases hlist
    split at hbody
    · cases hbody
    · next code left hcode =>
      split at hbody
      · obtain ⟨⟨w, left⟩, hleft, heq⟩ := Option.map_eq_some_iff.1 hbody
        cases heq
        exact ((readWordBody_suffix hleft).trans (takeCodePoint_suffix hcode)).trans
          (List.suffix_cons _ _)
      · cases hbody
  · next hlist =>
    cases hlist
    split at hbody
    · obtain ⟨⟨w, left⟩, hleft, heq⟩ := Option.map_eq_some_iff.1 hbody
      cases heq
      exact readWordBody_suffix hleft
    · next hcontinues =>
      split at hbody
      · cases hbody
      · next hslash =>
        -- such a character starts no word
        simp only [continuesName, Bool.or_eq_true, not_or] at hcontinues
        simp [hcontinues.1.1, hslash] at hh
  · next hlist => cases hlist

theorem scanned_readWord (hc : c.rest = h :: cs) (hh : (startsName h || h == '\\') = true) :
    Scanned inType c (readWord c).1 (readWord c).2 := by
  unfold readWord
  split
  · exact .bad _
  · next name rest hbody =>
    rw [hc, List.length_cons] at hbody
    exact .plain (Cursor.passes_past hc (readWordBody_suffix_tail hh hbody)) rfl

theorem scanned_readNumber (hc : c.rest = h :: cs) (hh : h.isDigit = true ∨ h = '.') :
    Scanned inType c (readNumber c).1 (readNumber c).2 := by
  unfold readNumber
  dsimp only
  split
  · exact .bad _
  · next rest hbody =>
    -- all four ways to read digits drop the first character at least
    have hrest : rest <:+ cs := by
      have hdecimal : dropDecimal (h :: cs) <:+ cs := dropDecimal_suffix hh
      rw [hc] at hbody
      split at hbody
      · next x ds hlist =>
        cases hlist
        have hradix : ∀ isDigit : Char → Bool, ∀ rest, (if (dropDigits isDigit ds).length == ds.length
            then none else some (dropDigits isDigit ds)) = some rest → rest <:+ x :: ds := by
          intro isDigit rest hrest
          split at hrest
          · cases hrest
          · cases hrest
            exact (dropDigits_suffix _ _).trans (List.suffix_cons _ _)
        split at hbody
        · exact hradix _ _ hbody
        split at hbody
        · exact hradix _ _ hbody
        split at hbody
        · exact hradix _ _ hbody
        · cases hbody
          exact hdecimal
      · cases hbody
        exact hdecimal
    have hpasses : ∀ left, left <:+ rest → c.Passes (c.past (consumed c.rest left) left) :=
      fun left hleft => Cursor.passes_past hc (hleft.trans hrest)
    -- an `n` after the digits counts to the number
    cases rest with
    | nil => exact .plain (hpasses _ (List.suffix_refl _)) rfl
    | cons d rest =>
      by_cases hn : d = 'n'
      · subst hn
        cases rest with
        | nil => exact .plain (hpasses _ (List.suffix_cons _ _)) rfl
        | cons e rest =>
          split
          · split <;> exact .plain (hpasses _ (List.suffix_cons _ _)) rfl
          · next hleft => cases hleft
      · split
        · next e left hleft =>
          split at hleft
          · next heq => cases heq; exact absurd rfl hn
          · split <;> exact .plain (hpasses _ (List.suffix_refl _)) rfl
        · next hleft =>
          split at hleft
          · next heq => cases heq; exact absurd rfl hn
          · cases hleft

/-- **What a token takes from the text.** -/
theorem scanned_readToken (inType : Bool) (c : Cursor) :
    Scanned inType c (readToken inType c).1 (readToken inType c).2 := by
  unfold readToken
  split
  · next hc => exact .eof hc
  · next d rest hc =>
    split
    · exact scanned_readNumber hc (.inr rfl)
    · split
      · next m n hmark => exact .mark (hc ▸ hmark)
      · next hmark => exact absurd hmark (readMark_dot inType _)
  · next h cs _ hc =>
    split
    · exact scanned_readString h hc
    split
    · exact scanned_readTemplate hc
    split
    · next hdigit => exact scanned_readNumber hc (.inl hdigit)
    split
    · next hword => exact scanned_readWord hc hword
    split
    · next m n hmark => exact .mark (hc ▸ hmark)
    · exact .bad _

end Scanned

namespace Scanned

variable {inType : Bool} {c c' : Cursor} {token : Token}

/-- A token takes something, or nothing is left after it. -/
theorem passes_or_ended (h : Scanned inType c token c') : c.Passes c' ∨
    c'.rest = [] ∧ c'.pos = c.pos ∧ (token = .eof ∨ ∃ offset, token = .bad offset) := by
  cases h with
  | eof hrest => exact .inr ⟨hrest, rfl, .inl rfl⟩
  | bad offset => exact .inr ⟨rfl, rfl, .inr ⟨offset, rfl⟩⟩
  | mark hmark =>
    obtain ⟨hpos, hlength, -⟩ := readMark_spec hmark
    exact .inl (Cursor.passes_drop hpos hlength)
  | plain hpasses _ => exact .inl hpasses

/-- A mark that may be scanned anew is spelled as it is. -/
theorem respelled {m : Mark} {spelling : List Char} (h : Scanned inType c (.mark m) c')
    (hm : m.respelled? = some spelling) :
    c.rest = spelling ++ c'.rest ∧ c'.pos = c.pos + spelling.length := by
  have hascii : byteLength spelling = spelling.length := by
    cases m <;> cases hm <;> rfl
  cases h with
  | @mark _ n hmark =>
    obtain ⟨-, hlength, hspelling⟩ := readMark_spec hmark
    have hn : n = spelling.length := by
      rw [hspelling spelling hm, hascii] at hlength
      exact hlength.symm
    refine ⟨?_, by rw [← hn]⟩
    rw [← hspelling spelling hm]
    exact (List.take_append_drop n c.rest).symm
  | plain _ hplain => cases hplain

end Scanned

/-! ### Words -/

theorem readString_ne_word (quote : Char) (c : Cursor) : (readString quote c).1.isWord = false := by
  unfold readString
  split <;> rfl

theorem readTemplate_ne_word (c : Cursor) : (readTemplate c).1.isWord = false := by
  unfold readTemplate
  split
  · rfl
  · next closed _ _ => cases closed <;> rfl

theorem readRegex_ne_word (c : Cursor) : (readRegex c).1.isWord = false := by
  unfold readRegex
  split <;> rfl

theorem readNumber_ne_word (c : Cursor) : (readNumber c).1.isWord = false := by
  unfold readNumber
  dsimp only
  split
  · rfl
  · split <;> split <;> first | rfl | (split <;> rfl)

/-- **A word starts with a character that starts names**, and is read alike in and out of types. -/
theorem readToken_isWord {inType : Bool} {c : Cursor}
    (hword : (readToken inType c).1.isWord = true) :
    ∃ h cs, c.rest = h :: cs ∧ (startsName h || h == '\\') = true ∧
      readToken false c = readToken inType c := by
  have hnot : ∀ {t : Token × Cursor}, t.1.isWord = false → t.1.isWord ≠ true := by simp_all
  unfold readToken at hword ⊢
  split at hword
  · cases hword
  · split at hword
    · exact absurd hword (hnot (readNumber_ne_word c))
    · split at hword <;> cases hword
  · next h cs hdot hc =>
    split at hword
    · exact absurd hword (hnot (readString_ne_word h c))
    split at hword
    · exact absurd hword (hnot (readTemplate_ne_word c))
    split at hword
    · exact absurd hword (hnot (readNumber_ne_word c))
    split at hword
    · next hstart => exact ⟨h, cs, hc, hstart, by simp_all⟩
    split at hword <;> cases hword

/-! ### Gaps -/

/-- A text that a token starts: it starts with no blank. -/
def StartsToken (cs : List Char) : Prop :=
  ∀ c rest, cs = c :: rest → isGap c = false ∧ endsLine c = false

/-- A text that a comment in markup starts. -/
def StartsMarkup (cs : List Char) : Prop := ∃ c rest, cs = c :: rest ∧ (c = '<' ∨ c = '-')

/-- Markup does not change where a gap ends. -/
theorem skipGap_cursor (gap : Gap) (cs : List Char) (pos : Nat) (nl : Bool) (mk mk' : Option Nat) :
    (skipGap gap cs pos nl mk).cursor = (skipGap gap cs pos nl mk').cursor := by
  fun_induction skipGap gap cs pos nl mk generalizing mk' with
  | case1 => simp [skipGap]
  | case2 cs pos nl mk ih => exact ih mk'
  | case3 cs pos nl mk ih => exact ih mk'
  | case4 cs pos nl mk ih => exact ih _
  | case5 cs pos mk ih => exact ih _
  | case6 cs pos nl mk hnl => simp [skipGap, hnl]
  | case7 c cs pos nl mk _ _ _ _ hline ih =>
    rw [ih mk', skipGap, if_pos hline]
    all_goals assumption
  | case8 c cs pos nl mk _ _ _ _ hline hgap ih =>
    rw [ih mk', skipGap, if_neg hline, if_pos hgap]
    all_goals assumption
  | case9 c cs pos nl mk _ _ _ _ hline hgap =>
    rw [skipGap, if_neg hline, if_neg hgap]
    all_goals assumption
  | case10 c cs pos nl mk hline ih => rw [ih mk', skipGap, if_pos hline]
  | case11 c cs pos nl mk hline ih => rw [ih mk', skipGap, if_neg hline]
  | case12 cs pos nl mk ih => exact ih mk'
  | case13 c cs pos nl mk _ ih =>
    rw [ih mk', skipGap]
    assumption

/-- What a line comment hides does not depend on what stands before it. -/
theorem skipGap_line_cursor (cs : List Char) (pos : Nat) (nl nl' : Bool) (mk mk' : Option Nat) :
    (skipGap .line cs pos nl mk).cursor = (skipGap .line cs pos nl' mk').cursor := by
  induction cs generalizing pos with
  | nil => rfl
  | cons c cs ih =>
    simp only [skipGap]
    split
    · exact skipGap_cursor _ _ _ _ _ _
    · exact ih _

/-- The end of a gap: a token starts there, and the markup in the gap, if there is any, starts on the
way. At the front of a line, the gap from the markup on ends at the same token. -/
structure GapEnd.Closes (c : Cursor) (mk : Option Nat) (e : GapEnd) : Prop where
  reads : c.Reads e.cursor
  startsToken : StartsToken e.cursor.rest
  markup : e.markup = mk ∨ ∃ start : Cursor, e.markup = some start.pos ∧ c.Reads start ∧
    start.Reads e.cursor ∧ StartsMarkup start.rest ∧
    (skipGap .blank start.rest start.pos true none).cursor = e.cursor

namespace GapEnd.Closes

variable {c c' : Cursor} {mk : Option Nat} {e : GapEnd}

theorem step (h : c.Reads c') (he : e.Closes c' mk) : e.Closes c mk := by
  refine ⟨h.trans he.reads, he.startsToken, he.markup.imp_right ?_⟩
  rintro ⟨start, hmk, hstart, hend, hmarkup⟩
  exact ⟨start, hmk, h.trans hstart, hend, hmarkup⟩

theorem ofMarkup (hc : StartsMarkup c.rest) (h : c.Reads c')
    (hagain : (skipGap .blank c.rest c.pos true none).cursor = e.cursor)
    (he : e.Closes c' (mk.or (some c.pos))) : e.Closes c mk := by
  have hreads := h.trans he.reads
  refine ⟨hreads, he.startsToken, ?_⟩
  rcases he.markup with hmk | ⟨start, hmk, hstart, hend, hmarkup⟩
  · cases mk with
    | none => exact .inr ⟨c, hmk, .refl c, hreads, hc, hagain⟩
    | some m => exact .inl hmk
  · exact .inr ⟨start, hmk, h.trans hstart, hend, hmarkup⟩

end GapEnd.Closes

theorem reads_cons (c : Char) (cs : List Char) (pos : Nat) :
    (⟨c :: cs, pos⟩ : Cursor).Reads ⟨cs, pos + c.utf8Size⟩ := ⟨[c], rfl, rfl⟩

/-- **A gap is read up to a token.** -/
theorem skipGap_closes (gap : Gap) (cs : List Char) (pos : Nat) (nl : Bool) (mk : Option Nat) :
    (skipGap gap cs pos nl mk).Closes ⟨cs, pos⟩ mk := by
  fun_induction skipGap gap cs pos nl mk with
  | case1 => exact ⟨.refl _, by rintro c rest ⟨⟩, .inl rfl⟩
  | case2 cs pos nl mk ih => exact ih.step ⟨['/', '/'], rfl, rfl⟩
  | case3 cs pos nl mk ih => exact ih.step ⟨['/', '*'], rfl, rfl⟩
  | case4 cs pos nl mk ih =>
    exact ih.ofMarkup ⟨_, _, rfl, .inl rfl⟩ ⟨['<', '!', '-', '-'], rfl, rfl⟩
      (skipGap_line_cursor cs (pos + 4) _ _ _ _)
  | case5 cs pos mk ih =>
    exact ih.ofMarkup ⟨_, _, rfl, .inr rfl⟩ ⟨['-', '-', '>'], rfl, rfl⟩
      (skipGap_line_cursor cs (pos + 3) _ _ _ _)
  | case6 cs pos nl mk _ => exact ⟨.refl _, by rintro c rest ⟨⟩; decide, .inl rfl⟩
  | case7 c cs pos nl mk _ _ _ _ _ ih => exact ih.step (reads_cons c cs pos)
  | case8 c cs pos nl mk _ _ _ _ _ _ ih => exact ih.step (reads_cons c cs pos)
  | case9 c cs pos nl mk _ _ _ _ hline hgap =>
    refine ⟨.refl _, ?_, .inl rfl⟩
    rintro c' rest ⟨⟩
    exact ⟨by simpa using hgap, by simpa using hline⟩
  | case10 c cs pos nl mk _ ih => exact ih.step (reads_cons c cs pos)
  | case11 c cs pos nl mk _ ih => exact ih.step (reads_cons c cs pos)
  | case12 cs pos nl mk ih => exact ih.step ⟨['*', '/'], rfl, rfl⟩
  | case13 c cs pos nl mk _ ih => exact ih.step (reads_cons c cs pos)

/-- At a word there is no gap. -/
theorem skipGap_word {h : Char} {cs : List Char} (hh : (startsName h || h == '\\') = true)
    (htoken : StartsToken (h :: cs)) (pos : Nat) (nl : Bool) (mk : Option Nat) :
    (skipGap .blank (h :: cs) pos nl mk).cursor = ⟨h :: cs, pos⟩ := by
  obtain ⟨hgap, hline⟩ := htoken h cs rfl
  have hne : h ≠ '/' ∧ h ≠ '<' ∧ h ≠ '-' := by
    refine ⟨?_, ?_, ?_⟩ <;> rintro rfl <;> exact absurd hh (by decide)
  rw [skipGap]
  · simp [hgap, hline]
  all_goals simp [hne]

end AmbientBundle.Source

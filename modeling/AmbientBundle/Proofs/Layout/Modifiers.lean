import AmbientBundle.Proofs.Cutting
import AmbientBundle.Proofs.Layout.Basic
import AmbientBundle.Source.Grammar.Modules

/-!
# Where the `declare` modifier stands

The modifier of a declaration is found in the text, not in the tree. What is found is the word that
has been read: it stands between the front of the item and the declaration.

* `readToken_word`: a word with a blank after it is read as it is spelled.
* `nextLexeme_blanks`: blanks before a token are passed over.
* `fits_declareSpan?_declaration`, `fits_declareSpan?_exported`: the modifier of a declaration, and
  of one that is exported.
-/

namespace AmbientBundle.Source

open Text Laid Reading

/-! ### Blanks -/

/-- The code points of blanks. -/
def blankCodes : List Nat :=
  [9, 10, 11, 12, 13, 0x20, 0x85, 0xa0, 0x1680, 0x2000, 0x2001, 0x2002, 0x2003, 0x2004, 0x2005,
    0x2006, 0x2007, 0x2008, 0x2009, 0x200a, 0x2028, 0x2029, 0x202f, 0x205f, 0x3000]

theorem toNat_mem_blankCodes {b : Char} (h : isBlank b = true) : b.toNat ∈ blankCodes := by
  simp only [isBlank, Bool.or_eq_true, Bool.and_eq_true, decide_eq_true_eq, beq_iff_eq] at h
  simp only [blankCodes, List.mem_cons, List.not_mem_nil, or_false]
  omega

/-- **A blank belongs to a gap**, and ends a word. -/
theorem gap_of_isBlank {b : Char} (h : isBlank b = true) :
    (endsLine b = true ∨ isGap b = true) ∧ continuesName b = false ∧ b ∉ ['\\', '/', '<', '-'] := by
  have hcodes : ∀ n ∈ blankCodes, (endsLine (Char.ofNat n) = true ∨ isGap (Char.ofNat n) = true) ∧
      continuesName (Char.ofNat n) = false ∧ Char.ofNat n ∉ ['\\', '/', '<', '-'] := by
    decide +kernel
  have hb := hcodes b.toNat (toNat_mem_blankCodes h)
  rwa [Char.ofNat_toNat] at hb

/-- Blanks before a token are passed over. -/
theorem skipGap_blanks {ws : List Char} (h : ∀ b ∈ ws, isBlank b = true) (rest : List Char)
    (pos : Nat) (nl : Bool) (mk : Option Nat) :
    ∃ nl', skipGap .blank (ws ++ rest) pos nl mk =
      skipGap .blank rest (pos + byteLength ws) nl' mk := by
  induction ws generalizing pos nl with
  | nil => exact ⟨nl, rfl⟩
  | cons b ws ih =>
    have hb := h b List.mem_cons_self
    have hstep : ∃ nl', skipGap .blank (b :: (ws ++ rest)) pos nl mk =
        skipGap .blank (ws ++ rest) (pos + b.utf8Size) nl' mk := by
      obtain ⟨hgap, -, hne⟩ := gap_of_isBlank hb
      simp only [List.mem_cons, List.not_mem_nil, or_false, not_or] at hne
      rw [skipGap]
      · by_cases hline : endsLine b = true
        · exact ⟨true, by rw [if_pos hline]⟩
        · exact ⟨nl, by rw [if_neg hline, if_pos (hgap.resolve_left hline)]⟩
      all_goals simp [hne]
    obtain ⟨nl', hnl'⟩ := hstep
    obtain ⟨nl'', hnl''⟩ := ih (fun b hb => h b (List.mem_cons_of_mem _ hb)) (pos + b.utf8Size) nl'
    refine ⟨nl'', ?_⟩
    rw [List.cons_append, hnl', hnl'', byteLength, Nat.add_assoc]

theorem nextLexeme_blanks {ws : List Char} (h : ∀ b ∈ ws, isBlank b = true) (inType nl : Bool)
    (rest : List Char) (pos : Nat) :
    ∃ nl', nextLexeme inType nl ⟨ws ++ rest, pos⟩ =
      nextLexeme inType nl' ⟨rest, pos + byteLength ws⟩ := by
  obtain ⟨nl', hgap⟩ := skipGap_blanks h rest pos nl none
  exact ⟨nl', by simp only [nextLexeme, hgap]⟩

/-! ### Words -/

/-- A word is read up to the first character that cannot stand in it. -/
theorem readWordBody_append {w : List Char} (hw : ∀ c ∈ w, continuesName c = true ∧ c ≠ '\\')
    {b : Char} (hb : continuesName b = false) (hslash : b ≠ '\\') (rest : List Char) {n : Nat}
    (hn : w.length < n) : readWordBody n (w ++ b :: rest) = some (w, b :: rest) := by
  induction w generalizing n with
  | nil =>
    obtain ⟨n, rfl⟩ : ∃ m, n = m + 1 := ⟨n - 1, by omega⟩
    rw [List.nil_append, readWordBody]
    · simp [hb, hslash]
    · simp [hslash]
  | cons c w ih =>
    obtain ⟨n, rfl⟩ : ∃ m, n = m + 1 := ⟨n - 1, by omega⟩
    obtain ⟨hc, hcslash⟩ := hw c List.mem_cons_self
    have hrest := ih (fun c hc => hw c (List.mem_cons_of_mem _ hc)) (n := n) (by
      rw [List.length_cons] at hn
      omega)
    rw [List.cons_append, readWordBody]
    · rw [if_pos hc, hrest]
      rfl
    · simp [hcslash]

/-- The words that the modifier of a declaration is looked for by. -/
def modifierWords : List String := ["declare", "export"]

/-- **A word with a blank after it** is read as it is spelled. -/
theorem readToken_word {w : String} (hw : w ∈ modifierWords) {b : Char} (hb : isBlank b = true)
    (inType : Bool) (rest : List Char) (pos : Nat) :
    readToken inType ⟨w.toList ++ b :: rest, pos⟩ =
      (.word w, ⟨b :: rest, pos + byteLength w.toList⟩) := by
  obtain ⟨-, hname, hslash⟩ := gap_of_isBlank hb
  have hwords : (modifierWords.all fun w => w.toList.all fun c => continuesName c && c != '\\') =
      true := by decide +kernel
  have hchars : ∀ c ∈ w.toList, continuesName c = true ∧ c ≠ '\\' := by
    intro c hc
    simpa using List.all_eq_true.1 (List.all_eq_true.1 hwords w hw) c hc
  have hbody : readWordBody (w.toList ++ b :: rest).length (w.toList ++ b :: rest) =
      some (w.toList, b :: rest) :=
    readWordBody_append hchars hname (by simp_all) rest (by simp)
  have hconsumed : consumed (w.toList ++ b :: rest) (b :: rest) = w.toList := by
    simp [consumed]
  have hread : readToken inType ⟨w.toList ++ b :: rest, pos⟩ =
      readWord ⟨w.toList ++ b :: rest, pos⟩ := by
    simp only [modifierWords, List.mem_cons, List.not_mem_nil, or_false] at hw
    rcases hw with rfl | rfl <;> rfl
  rw [hread, readWord]
  dsimp only
  rw [hbody]
  simp only [Cursor.past, hconsumed, String.ofList_toList]

/-- A word of the text is the token at its front. -/
theorem Place.Valid.word_here {text : List Char} {s : Place} (hs : s.Valid text) (hended : ¬ s.Ended)
    {w : String} (hw : w ∈ modifierWords) {b : Char} (hb : isBlank b = true)
    {before rest : List Char} (htext : text = before ++ (w.toList ++ b :: rest))
    (hpos : byteLength before = s.front) :
    s.current.token = .word w ∧ s.after = ⟨b :: rest, s.front + byteLength w.toList⟩ := by
  obtain ⟨c, hat, hfront, -, horigin⟩ := hs.origin.resolve_left hended
  have hhere : (⟨w.toList ++ b :: rest, s.front⟩ : Cursor).At text := ⟨before, htext, hpos⟩
  have hrest : c.rest = w.toList ++ b :: rest := hat.rest_eq hhere hfront
  rcases horigin with ⟨inType, hread⟩ | ⟨h, cs, hcons, hother⟩
  · have hc : c = ⟨w.toList ++ b :: rest, s.front⟩ := by
      rw [← hrest, ← hfront]
    rw [hc, readToken_word hw hb] at hread
    exact ⟨(congrArg Prod.fst hread).symm, (congrArg Prod.snd hread).symm⟩
  · rw [hcons] at hrest
    simp only [modifierWords, List.mem_cons, List.not_mem_nil, or_false] at hw
    rcases hw with rfl | rfl
    · obtain rfl : h = 'd' := (List.cons.inj hrest).1
      exact absurd hother (by decide)
    · obtain rfl : h = 'e' := (List.cons.inj hrest).1
      exact absurd hother (by decide)

/-! ### The modifier -/

variable {text : List Char}

/-- The blanks after a modifier: spaces and tabs. -/
def isSpace (c : Char) : Bool := c == ' ' || c == '\t'

theorem isBlank_of_isSpace {c : Char} (h : isSpace c = true) : isBlank c = true := by
  simp only [isSpace, Bool.or_eq_true, beq_iff_eq] at h
  rcases h with rfl | rfl <;> decide

theorem byteLength_of_isSpace {ws : List Char} (h : ∀ b ∈ ws, isSpace b = true) :
    byteLength ws = ws.length := by
  induction ws with
  | nil => rfl
  | cons b ws ih =>
    have hb : b.utf8Size = 1 := by
      have := h b List.mem_cons_self
      simp only [isSpace, Bool.or_eq_true, beq_iff_eq] at this
      rcases this with rfl | rfl <;> rfl
    rw [byteLength, hb, ih fun b hb => h b (List.mem_cons_of_mem _ hb), List.length_cons, Nat.add_comm]

/-- What a modifier is found to be: seven bytes, and all spaces and tabs after them. -/
theorem declareAt?_eq_some {x : Nat} {span : Span} (h : declareAt? text x = some span) :
    ∃ before rest, text = before ++ rest ∧ byteLength before = x + 7 ∧
      rest.takeWhile isSpace ≠ [] ∧
      span = ⟨x, x + 7 + byteLength (rest.takeWhile isSpace)⟩ := by
  obtain ⟨rest, hrest, h⟩ := Option.bind_eq_some_iff.1 h
  obtain ⟨before, htext, hpos⟩ := dropBytes?_eq_some.1 hrest
  dsimp only at h
  split at h
  · cases h
  · next hne =>
    cases h
    have hspaces : ∀ b ∈ rest.takeWhile isSpace, isSpace b = true :=
      List.all_eq_true.1 List.all_takeWhile
    refine ⟨before, rest, htext, hpos, ?_, ?_⟩
    · intro hnil
      have hlength : (rest.takeWhile isSpace).length = 0 := by rw [hnil]; rfl
      exact hne (beq_iff_eq.2 hlength)
    · rw [byteLength_of_isSpace hspaces]
      rfl

/-- A modifier that is found covers something, between characters. -/
theorem fits_declareAt? {x lo : Nat} {span : Span} (h : declareAt? text x = some span)
    (hlo : lo ≤ x) (hx : IsBoundary text x) : Fits text lo [span] span.stop := by
  obtain ⟨before, rest, htext, hpos, -, rfl⟩ := declareAt?_eq_some h
  refine ⟨hlo, by dsimp only; omega, hx, ?_, Nat.le_refl _⟩
  refine ⟨before ++ rest.takeWhile isSpace, rest.dropWhile isSpace, ?_, ?_⟩
  · rw [List.append_assoc, List.takeWhile_append_dropWhile, htext]
  · rw [byteLength_append, hpos]

/-- A modifier is looked for at the front of an item, after `export` if that is there, and else at
the end of what stands before the declaration. -/
theorem declareSpan?_eq_some {item : Item} {head : Head} {span : Span}
    (hhead : item.kind.head? = some head) (h : declareSpan? text item = some span) :
    (∃ rest, dropBytes? (afterExport text item.start) text = some ("declare".toList ++ rest) ∧
        declareAt? text (afterExport text item.start) = some span) ∨
      declareBefore? text item.start head.start = some span := by
  unfold declareSpan? at h
  obtain ⟨head', hhead', h⟩ := Option.bind_eq_some_iff.1 h
  obtain rfl : head' = head := Option.some.inj (hhead'.symm.trans hhead)
  obtain ⟨u, -, h⟩ := Option.bind_eq_some_iff.1 h
  obtain ⟨rest, hrest, h⟩ := Option.bind_eq_some_iff.1 h
  split at h
  · next hstarts =>
    obtain ⟨rest', hcut⟩ := Option.isSome_iff_exists.1 hstarts
    rw [cutFront?_eq_some] at hcut
    exact .inl ⟨rest', hcut ▸ hrest, h⟩
  · exact .inr h

/-- The text after `export` is found if a blank follows the word. -/
theorem afterExport_cases (text : List Char) (x : Nat) : afterExport text x = x ∨
    ∃ before b ws rest, text = before ++ ("export".toList ++ b :: (ws ++ rest)) ∧
      byteLength before = x ∧ (∀ c ∈ b :: ws, isBlank c = true) ∧
      afterExport text x = x + 6 + byteLength (b :: ws) := by
  unfold afterExport
  split
  · next after hafter =>
    obtain ⟨here, hhere, hcut⟩ := Option.bind_eq_some_iff.1 hafter
    obtain ⟨before, htext, hpos⟩ := dropBytes?_eq_some.1 hhere
    rw [cutFront?_eq_some] at hcut
    dsimp only
    split
    · next hlt =>
      have hsplit : after.takeWhile isBlank ++ trimStart after = after :=
        List.takeWhile_append_dropWhile
      have hblanks : ∀ c ∈ after.takeWhile isBlank, isBlank c = true :=
        List.all_eq_true.1 List.all_takeWhile
      cases hws : after.takeWhile isBlank with
      | nil =>
        rw [hws, List.nil_append] at hsplit
        rw [hsplit] at hlt
        omega
      | cons b ws =>
        rw [hws] at hblanks hsplit
        refine .inr ⟨before, b, ws, trimStart after, ?_, hpos, hblanks, ?_⟩
        · rw [htext, hcut]
          exact congrArg (fun cs => before ++ ("export".toList ++ cs)) hsplit.symm
        · have hlength : byteLength text = x + (6 + (byteLength (b :: ws) +
              byteLength (trimStart after))) := by
            rw [htext, hcut, byteLength_append, byteLength_append, hpos, ← byteLength_append (b :: ws),
              hsplit]
            rfl
          omega
    · exact .inl rfl
  · exact .inl rfl

/-- What the text goes on with after `export` and blanks. -/
theorem afterExport_drop {x : Nat} {rest : List Char}
    (hrest : dropBytes? (afterExport text x) text = some rest) : afterExport text x = x ∨
    ∃ before b ws, text = before ++ ("export".toList ++ b :: (ws ++ rest)) ∧ byteLength before = x ∧
      (∀ c ∈ b :: ws, isBlank c = true) ∧ afterExport text x = x + 6 + byteLength (b :: ws) := by
  refine (afterExport_cases text x).imp_right ?_
  rintro ⟨before, b, ws, after, htext, hpos, hblanks, h⟩
  obtain ⟨before', htext', hpos'⟩ := dropBytes?_eq_some.1 hrest
  have hfront : (before ++ ("export".toList ++ b :: ws)) ++ after = before' ++ rest := by
    rw [← htext', htext]
    simp
  have hlength : byteLength (before ++ ("export".toList ++ b :: ws)) = byteLength before' := by
    rw [hpos', h, byteLength_append, byteLength_append, hpos, ← Nat.add_assoc]
    rfl
  obtain ⟨-, rfl⟩ := front_eq hfront hlength
  exact ⟨before, b, ws, htext, hpos, hblanks, h⟩

/-- Spaces at the front of a text end with them, if no space comes after. -/
theorem takeWhile_append_isSpace (ws : List Char) {post : List Char}
    (hpost : ∀ c rest, post = c :: rest → isSpace c = false) :
    byteLength ((ws ++ post).takeWhile isSpace) ≤ byteLength ws := by
  induction ws with
  | nil =>
    cases post with
    | nil => exact Nat.le_refl _
    | cons c rest => simp [hpost c rest rfl, byteLength]
  | cons c ws ih =>
    rw [List.cons_append, List.takeWhile_cons]
    split
    · simp only [byteLength]
      omega
    · exact Nat.zero_le _

/-- A text without its last blanks is a front of it. -/
theorem trimEnd_append (cs : List Char) :
    ∃ ws, cs = trimEnd cs ++ ws ∧ ∀ c ∈ ws, isBlank c = true := by
  refine ⟨(cs.reverse.takeWhile isBlank).reverse, ?_, ?_⟩
  · rw [trimEnd, ← List.reverse_append, List.takeWhile_append_dropWhile, List.reverse_reverse]
  · intro c hc
    exact List.all_eq_true.1 List.all_takeWhile c (List.mem_reverse.1 hc)

/-- The word before a declaration has only blanks after it, up to the declaration. -/
theorem declareBefore?_eq_some {a b : Nat} {span : Span}
    (h : declareBefore? text a b = some span) :
    ∃ front ws post, text = front ++ ("declare".toList ++ (ws ++ post)) ∧ a ≤ byteLength front ∧
      byteLength front + 7 + byteLength ws = b ∧
      declareAt? text (byteLength front) = some span := by
  obtain ⟨before, hslice, h⟩ := Option.bind_eq_some_iff.1 h
  obtain ⟨front, hcut, h⟩ := Option.bind_eq_some_iff.1 h
  obtain ⟨pre, post, htext, hpre, hstop⟩ := slice?_eq_some.1 hslice
  obtain ⟨ws, hws, -⟩ := trimEnd_append before
  rw [cutBack?_eq_some] at hcut
  rw [hcut] at hws
  have hat : declareAt? text (a + byteLength front) = some span := by
    split at h
    · split at h
      · exact h
      · cases h
    · exact h
  refine ⟨pre ++ front, ws, post, ?_, ?_, ?_, ?_⟩
  · rw [htext, hws]
    simp
  · rw [byteLength_append]
    omega
  · rw [← hstop, hws]
    simp only [byteLength_append]
    rw [show byteLength "declare".toList = 7 from rfl]
    omega
  · rw [byteLength_append, hpre]
    exact hat

/-- A modifier that is found where a token starts is that token, with the blanks after it. -/
theorem Place.Valid.declare_here {s : Place} (hs : s.Valid text) (hended : ¬ s.Ended)
    {rest : List Char} {span : Span}
    (hrest : dropBytes? s.front text = some ("declare".toList ++ rest))
    (hat : declareAt? text s.front = some span) :
    s.current.token = .word "declare" ∧ Fits text s.front [span] s.nextFront := by
  obtain ⟨before, htext, hpos⟩ := dropBytes?_eq_some.1 hrest
  obtain ⟨before', rest', htext', hpos', hne, rfl⟩ := declareAt?_eq_some hat
  have hfront : (before ++ "declare".toList) ++ rest = before' ++ rest' := by
    rw [List.append_assoc, ← htext, htext']
  obtain ⟨-, rfl⟩ := front_eq hfront (by rw [byteLength_append, hpos, hpos']; rfl)
  obtain ⟨b, ws, hws⟩ := List.exists_cons_of_ne_nil hne
  have hsplit : b :: (ws ++ rest.dropWhile isSpace) = rest := by
    rw [← List.cons_append, ← hws, List.takeWhile_append_dropWhile]
  have hblanks : ∀ c ∈ b :: ws, isBlank c = true := by
    rw [← hws]
    exact fun c hc => isBlank_of_isSpace (List.all_eq_true.1 List.all_takeWhile c hc)
  rw [← hsplit] at htext
  obtain ⟨hword, hafter⟩ := hs.word_here hended (by simp [modifierWords])
    (hblanks b List.mem_cons_self) htext hpos
  refine ⟨hword, (fits_declareAt? hat (Nat.le_refl _) hs.front_boundary).mono ?_⟩
  -- The next token comes after the blanks.
  obtain ⟨nl, hnext⟩ := nextLexeme_blanks hblanks false false (rest.dropWhile isSpace)
    (s.front + 7)
  obtain ⟨start, hstart, hreads, -⟩ := nextLexeme_start false nl
    ⟨rest.dropWhile isSpace, s.front + 7 + byteLength (b :: ws)⟩
  have hle := hreads.pos_le
  have hnextFront : s.nextFront = start.pos := by
    rw [Place.nextFront, hafter, ← hstart, ← hnext]
    rfl
  rw [hnextFront, hws]
  exact hle

/-- The text does not go on with `export` at another token. -/
theorem Place.Valid.afterExport_eq {s : Place} (hs : s.Valid text) (hended : ¬ s.Ended)
    (hexport : s.current.token ≠ .word "export") : afterExport text s.front = s.front := by
  rcases afterExport_cases text s.front with h | ⟨before, b, ws, rest, htext, hpos, hblanks, -⟩
  · exact h
  · have hb := hblanks b List.mem_cons_self
    exact absurd (hs.word_here hended (by simp [modifierWords]) hb htext hpos).1 hexport

/-- No word is found where nothing stands before the declaration. -/
theorem declareBefore?_self (text : List Char) (a : Nat) (span : Span) :
    declareBefore? text a a ≠ some span := by
  intro hbefore
  obtain ⟨front, ws, post, -, hle, hstop, -⟩ := declareBefore?_eq_some hbefore
  omega

/-- A word that is found before a token ends before it, with the spaces after it. -/
theorem Place.Valid.stop_le_of_declareBefore? {s : Place} (hs : s.Valid text) (hended : ¬ s.Ended)
    {a : Nat} {span : Span} (hbefore : declareBefore? text a s.front = some span) :
    span.stop ≤ s.front := by
  obtain ⟨front, ws, post, htext, hle, hstop, hat⟩ := declareBefore?_eq_some hbefore
  obtain ⟨c, hcat, hcpos, hstarts, -⟩ := hs.origin.resolve_left hended
  have hhere : (⟨post, s.front⟩ : Cursor).At text := by
    refine ⟨front ++ ("declare".toList ++ ws), by rw [htext]; simp, ?_⟩
    rw [byteLength_append, byteLength_append, ← Nat.add_assoc]
    exact hstop
  have hpost : ∀ c rest, post = c :: rest → isSpace c = false := by
    intro b rest hb
    obtain ⟨hgap, -⟩ := hstarts b rest ((hcat.rest_eq hhere hcpos).trans hb)
    simp only [isGap, Bool.or_eq_false_iff] at hgap
    simp [isSpace, hgap]
  obtain ⟨before, rest, htext', hpos', -, rfl⟩ := declareAt?_eq_some hat
  have hfront : (front ++ "declare".toList) ++ (ws ++ post) = before ++ rest := by
    rw [← htext', htext, List.append_assoc]
  obtain ⟨-, rfl⟩ := front_eq hfront (by rw [byteLength_append, hpos']; rfl)
  have hspaces := takeWhile_append_isSpace ws hpost
  dsimp only
  omega

/-- **The modifier of a declaration** stands where the item starts, before the next token. -/
theorem fits_declareSpan?_declaration {s : Place} (hs : s.Valid text) (hended : ¬ s.Ended)
    (hexport : s.current.token ≠ .word "export") (d : Declared) {span : Span}
    (hspan : declareSpan? text (declarationItem s.front true d) = some span) :
    s.current.token = .word "declare" ∧ Fits text s.front [span] s.nextFront := by
  have hstart := hs.afterExport_eq hended hexport
  rcases declareSpan?_eq_some rfl hspan with ⟨rest, hrest, hat⟩ | hbefore
  · rw [show (declarationItem s.front true d).start = s.front from rfl, hstart] at hrest hat
    exact hs.declare_here hended hrest hat
  · exact absurd hbefore (declareBefore?_self text s.front span)

/-- **The modifier of an exported declaration** stands after `export`, before the declaration. -/
theorem fits_declareSpan?_exported {s : Place} (hs : s.Valid text)
    (hexport : s.current.token = .word "export") (inType : Bool)
    (hdeclare : (s.advanced inType).current.token = .word "declare") (d : Declared) {span : Span}
    (hspan : declareSpan? text (exportedItem s.front (s.advanced inType).front true d) = some span) :
    Fits text s.front [span] (s.advanced inType).nextFront := by
  obtain ⟨hvalid, hreaches⟩ := hs.advanced inType
  have hended : ¬ s.Ended := Place.not_ended_of_word hexport
  have hended' : ¬ (s.advanced inType).Ended := Place.not_ended_of_word hdeclare
  rcases declareSpan?_eq_some rfl hspan with ⟨rest, hrest, hat⟩ | hbefore
  · change dropBytes? (afterExport text s.front) text = _ at hrest
    change declareAt? text (afterExport text s.front) = _ at hat
    rcases afterExport_drop hrest with h | ⟨before, b, ws, htext, hpos, hblanks, h⟩
    · -- `declare` would be the current token, which is `export`
      rw [h] at hrest hat
      have := (hs.declare_here hended hrest hat).1
      rw [hexport] at this
      exact absurd this (by decide)
    · -- only blanks stand between `export` and `declare`, so that is the next token
      obtain ⟨-, hafter⟩ := hs.word_here hended (by simp [modifierWords])
        (hblanks b List.mem_cons_self) htext hpos
      have hfront : (s.advanced inType).front = afterExport text s.front := by
        obtain ⟨nl, hnext⟩ := nextLexeme_blanks hblanks inType false ("declare".toList ++ rest)
          (s.front + 6)
        rw [Place.front, Place.advanced, hafter, h]
        change (nextLexeme inType false
          ⟨b :: ws ++ ("declare".toList ++ rest), s.front + 6⟩).1.span.start = _
        rw [hnext]
        rfl
      rw [← hfront] at hrest hat
      exact (hvalid.declare_here hended' hrest hat).2.mono_left hreaches.front_le
  · obtain ⟨front, ws, post, htext, hle, -, hat⟩ := declareBefore?_eq_some hbefore
    have hstop := hvalid.stop_le_of_declareBefore? hended' hbefore
    have hnext := (hvalid.advanced false).2.front_le
    exact (fits_declareAt? hat hle ⟨front, _, htext, rfl⟩).mono (Nat.le_trans hstop hnext)

end AmbientBundle.Source

import AmbientBundle.Proofs.Lexing
import AmbientBundle.Source.Grammar.Types

/-!
# Places in a text

A reader stands at a token of the text, with the rest of the text after it. Reading moves it on and
never back.

* `Cursor.At`: a cursor with the rest of a text.
* `Place.Valid`: what holds at every place that a reader comes to.
* `Place.Reaches`: the places that come after a place.
* `Place.Valid.advanced`, `Place.Valid.rescanned`: the steps from a place to the next.
-/

namespace AmbientBundle.Source

open Text

/-- A cursor before the rest of a text. -/
def Cursor.At (text : List Char) (c : Cursor) : Prop :=
  ∃ before, text = before ++ c.rest ∧ byteLength before = c.pos

/-- The gap before the next token. -/
def Cursor.gap (c : Cursor) (nl : Bool) : GapEnd := skipGap .blank c.rest c.pos nl none

namespace Cursor.At

variable {text : List Char} {c c' : Cursor}

theorem reads (h : c.At text) (hr : c.Reads c') : c'.At text := by
  obtain ⟨before, htext, hpos⟩ := h
  obtain ⟨read, hrest, hpos'⟩ := hr
  exact ⟨before ++ read, by rw [htext, hrest, List.append_assoc], by
    rw [byteLength_append, hpos, hpos']⟩

theorem isBoundary (h : c.At text) : IsBoundary text c.pos := by
  obtain ⟨before, htext, hpos⟩ := h
  exact ⟨before, c.rest, htext, hpos⟩

/-- A text has one rest at an offset. -/
theorem rest_eq (h : c.At text) (h' : c'.At text) (hpos : c.pos = c'.pos) : c.rest = c'.rest := by
  obtain ⟨before, htext, hb⟩ := h
  obtain ⟨before', htext', hb'⟩ := h'
  exact (front_eq (htext.symm.trans htext') (by rw [hb, hb', hpos])).2

end Cursor.At

/-! ### What holds at a place -/

namespace Place

/-- Where a token starts. -/
def front (s : Place) : Nat := s.current.span.start

/-- Where the next token starts. -/
def nextFront (s : Place) : Nat := (nextLexeme false false s.after).1.span.start

/-- A place at which nothing is left to read. -/
def Ended (s : Place) : Prop :=
  s.after.rest = [] ∧ (s.current.token = .eof ∨ ∃ offset, s.current.token = .bad offset)

theorem not_ended {s : Place} {token : Token} (htoken : s.current.token = token)
    (heof : token ≠ .eof) (hbad : ∀ offset, token ≠ .bad offset) : ¬ s.Ended := by
  rintro ⟨-, hend | ⟨offset, hend⟩⟩
  · exact heof (htoken.symm.trans hend)
  · exact hbad offset (htoken.symm.trans hend)

theorem not_ended_of_word {s : Place} {name : String} (htoken : s.current.token = .word name) :
    ¬ s.Ended := not_ended htoken nofun nofun

/-- The marks that tokens which are not read from their front may start with: comments in markup
count to the token after them, and some marks are scanned anew. -/
def otherFronts : List Char := ['<', '-', '\x7d', '/']

/-- **What holds at every place that a reader comes to.** -/
structure Valid (text : List Char) (s : Place) : Prop where
  after_at : s.Ended ∨ s.after.At text
  after_boundary : IsBoundary text s.after.pos
  stop_eq : s.current.span.stop = s.after.pos
  lastStop_le : s.lastStop ≤ s.front
  start_le : s.front ≤ s.after.pos
  lastStop_boundary : IsBoundary text s.lastStop
  front_boundary : IsBoundary text s.front
  /-- Only the last token may be empty. -/
  width : s.after.rest ≠ [] ∨ (∃ value, s.current.token = .string value) → s.front < s.after.pos
  /-- The marks that may be scanned anew are spelled as they are. -/
  respelled : ∀ m spelling, s.current.token = .mark m → m.respelled? = some spelling →
    ∃ c : Cursor, c.At text ∧ s.front ≤ c.pos ∧ c.rest = spelling ++ s.after.rest ∧
      c.pos + spelling.length = s.after.pos
  /-- A word is read again from its front, past the markup that counts to it. -/
  reread : s.current.token.isWord = true → ∃ c : Cursor, c.At text ∧ c.pos = s.front ∧
    readToken false (c.gap true).cursor = (s.current.token, s.after)
  /-- A token has been read from its front. -/
  origin : s.Ended ∨ ∃ c : Cursor, c.At text ∧ c.pos = s.front ∧ StartsToken c.rest ∧
    ((∃ inType, readToken inType c = (s.current.token, s.after)) ∨
      ∃ h rest, c.rest = h :: rest ∧ h ∈ otherFronts)

/-- **The places that come after a place.** A reader that has moved on from a word has moved to the
next token or further. -/
structure Reaches (s t : Place) : Prop where
  front_le : s.front ≤ t.front
  word : s.current.token.isWord = true →
    (t.current = s.current ∧ t.after = s.after) ∨ s.nextFront ≤ t.front
  ended : s.Ended → t.Ended

namespace Reaches

variable {s t u : Place}

theorem refl (s : Place) : s.Reaches s := ⟨Nat.le_refl _, fun _ => .inl ⟨rfl, rfl⟩, id⟩

theorem trans (h : s.Reaches t) (h' : t.Reaches u) : s.Reaches u where
  front_le := Nat.le_trans h.front_le h'.front_le
  ended := fun hs => h'.ended (h.ended hs)
  word := by
    intro hs
    rcases h.word hs with ⟨hcurrent, hafter⟩ | hnext
    · have hnext : t.nextFront = s.nextFront := by rw [nextFront, nextFront, hafter]
      rcases h'.word (hcurrent ▸ hs) with ⟨hcurrent', hafter'⟩ | hnext'
      · exact .inl ⟨hcurrent'.trans hcurrent, hafter'.trans hafter⟩
      · exact .inr (hnext ▸ hnext')
    · exact .inr (Nat.le_trans hnext h'.front_le)

end Reaches

/-! ### Steps -/

end Place

section NextLexeme

variable {text : List Char} {c : Cursor} (inType nl : Bool)

theorem nextLexeme_eq (c : Cursor) : nextLexeme inType nl c =
    (⟨(readToken inType (c.gap nl).cursor).1,
      ⟨(c.gap nl).markup.getD (c.gap nl).cursor.pos, (readToken inType (c.gap nl).cursor).2.pos⟩,
      (c.gap nl).afterLine⟩, (readToken inType (c.gap nl).cursor).2) := rfl

/-- A token starts where its gap ends, or at the markup in the gap. -/
theorem nextLexeme_start (c : Cursor) : ∃ start : Cursor,
    (nextLexeme inType nl c).1.span.start = start.pos ∧ c.Reads start ∧
      start.Reads (c.gap nl).cursor ∧ (start = (c.gap nl).cursor ∨
        StartsMarkup start.rest ∧ (start.gap true).cursor = (c.gap nl).cursor) := by
  have hgap := skipGap_closes .blank c.rest c.pos nl none
  rcases hgap.markup with hmk | ⟨start, hmk, hstart, hend, hmarkup⟩
  · refine ⟨(c.gap nl).cursor, ?_, hgap.reads, .refl _, .inl rfl⟩
    rw [nextLexeme_eq]
    simp only [Cursor.gap, hmk, Option.getD_none]
  · refine ⟨start, ?_, hstart, hend, .inr hmarkup⟩
    rw [nextLexeme_eq]
    simp only [Cursor.gap, hmk, Option.getD_some]

/-- Nothing is left to read at the end of the text. -/
theorem nextLexeme_end (hc : c.rest = []) :
    nextLexeme inType nl c = (⟨.eof, ⟨c.pos, c.pos⟩, nl⟩, c) := by
  obtain ⟨rest, pos⟩ := c
  obtain rfl : rest = [] := hc
  rfl

end NextLexeme

namespace Place

variable {text : List Char} {s : Place}

/-- The place after the current token. -/
def advanced (inType : Bool) (s : Place) : Place :=
  ⟨(nextLexeme inType false s.after).1, (nextLexeme inType false s.after).2, s.current.span.stop,
    s.arrowStart⟩

/-- **A place at the next token of a text is valid.** -/
theorem Valid.ofLexeme {c : Cursor} (inType nl : Bool) {lastStop : Nat} (arrowStart : Option Nat)
    (hc : c.At text) (hlast : IsBoundary text lastStop) (hle : lastStop ≤ c.pos) :
    Valid text ⟨(nextLexeme inType nl c).1, (nextLexeme inType nl c).2, lastStop, arrowStart⟩ := by
  obtain ⟨start, hstart, hcs, hsg, hfront⟩ := nextLexeme_start inType nl c
  have hgap := skipGap_closes .blank c.rest c.pos nl none
  have hscan := scanned_readToken inType (c.gap nl).cursor
  have hat := hc.reads hgap.reads
  have hstartAt := hc.reads hcs
  have hpos : (c.gap nl).cursor.pos ≤ (readToken inType (c.gap nl).cursor).2.pos := by
    rcases hscan.passes_or_ended with hp | ⟨-, hp, -⟩
    · exact hp.reads.pos_le
    · exact Nat.le_of_eq hp.symm
  have hend : (readToken inType (c.gap nl).cursor).2.At text ∨
      (readToken inType (c.gap nl).cursor).2.rest = [] ∧
        (readToken inType (c.gap nl).cursor).2.pos = (c.gap nl).cursor.pos ∧
        ((readToken inType (c.gap nl).cursor).1 = .eof ∨
          ∃ offset, (readToken inType (c.gap nl).cursor).1 = .bad offset) :=
    hscan.passes_or_ended.imp_left fun hp => hat.reads hp.reads
  constructor
  case after_at => exact hend.symm.imp_left fun h => ⟨h.1, h.2.2⟩
  case after_boundary =>
    rcases hend with h | ⟨-, h, -⟩
    · exact h.isBoundary
    · exact h ▸ hat.isBoundary
  case stop_eq => rfl
  case lastStop_le =>
    rw [front, hstart]
    exact Nat.le_trans hle hcs.pos_le
  case start_le =>
    rw [front, hstart]
    exact Nat.le_trans hsg.pos_le hpos
  case lastStop_boundary => exact hlast
  case front_boundary =>
    rw [front, hstart]
    exact hstartAt.isBoundary
  case width =>
    intro h
    have hpasses : (c.gap nl).cursor.Passes (readToken inType (c.gap nl).cursor).2 := by
      rcases hscan.passes_or_ended with hp | ⟨hrest, -, htoken⟩
      · exact hp
      · rcases h with hne | ⟨value, hvalue⟩
        · exact absurd hrest hne
        · rw [show (readToken inType (c.gap nl).cursor).1 = _ from hvalue] at htoken
          rcases htoken with h | ⟨_, h⟩ <;> cases h
    rw [front, hstart]
    exact Nat.lt_of_le_of_lt hsg.pos_le hpasses.pos_lt
  case respelled =>
    intro m spelling htoken hm
    rw [show (readToken inType (c.gap nl).cursor).1 = _ from htoken] at hscan
    obtain ⟨hrest, hpos⟩ := hscan.respelled hm
    refine ⟨(c.gap nl).cursor, hat, ?_, hrest, hpos.symm⟩
    rw [front, hstart]
    exact hsg.pos_le
  case reread =>
    intro hword
    obtain ⟨h, cs, hrest, hh, htype⟩ := readToken_isWord hword
    refine ⟨start, hstartAt, hstart.symm, ?_⟩
    have hagain : (start.gap true).cursor = (c.gap nl).cursor := by
      rcases hfront with rfl | ⟨-, hagain⟩
      · have hstarts := hgap.startsToken
        rw [show (skipGap .blank c.rest c.pos nl none).cursor.rest = h :: cs from hrest] at hstarts
        have hword := skipGap_word hh hstarts (c.gap nl).cursor.pos true none
        rw [← hrest] at hword
        exact hword
      · exact hagain
    rw [hagain]
    exact htype
  case origin =>
    -- a token starts after the gap, or where the markup in the gap starts
    rcases hend with h | h
    · refine .inr ⟨start, hstartAt, hstart.symm, ?_⟩
      rcases hfront with rfl | ⟨⟨h, rest, hrest, hmark⟩, -⟩
      · exact ⟨hgap.startsToken, .inl ⟨inType, rfl⟩⟩
      · refine ⟨?_, .inr ⟨h, rest, hrest, by rcases hmark with rfl | rfl <;> decide⟩⟩
        rintro c rest' heq
        rw [hrest] at heq
        cases heq
        rcases hmark with rfl | rfl <;> decide
    · exact .inl ⟨h.1, h.2.2⟩

/-- At the end of the text there is no more to come. -/
theorem advanced_of_ended (inType : Bool) (hs : s.Ended) : (s.advanced inType).Ended ∧
    (s.advanced inType).after = s.after ∧ (s.advanced inType).front = s.after.pos := by
  unfold advanced front Ended
  rw [nextLexeme_end inType false hs.1]
  exact ⟨⟨hs.1, .inl rfl⟩, rfl, rfl⟩

/-- **The place after a token.** -/
theorem Valid.advanced (inType : Bool) (h : s.Valid text) :
    (s.advanced inType).Valid text ∧ s.Reaches (s.advanced inType) := by
  have hnext : s.after.pos ≤ (s.advanced inType).front := by
    obtain ⟨start, hstart, hreads, -⟩ := nextLexeme_start inType false s.after
    rw [front, Place.advanced, hstart]
    exact hreads.pos_le
  have hreaches : s.Reaches (s.advanced inType) := by
    refine ⟨Nat.le_trans h.start_le hnext, fun _ => .inr (Nat.le_of_eq rfl), fun hs => ?_⟩
    exact (advanced_of_ended inType hs).1
  refine ⟨?_, hreaches⟩
  -- after the end of the text, the same place is reached again and again
  rcases h.after_at with hs | hat
  · obtain ⟨hended, hafter, hfront⟩ := advanced_of_ended inType hs
    have hstop : (s.advanced inType).lastStop = s.after.pos := h.stop_eq
    exact
      { after_at := .inl hended
        after_boundary := by rw [hafter]; exact h.after_boundary
        stop_eq := rfl
        lastStop_le := Nat.le_of_eq (hstop.trans hfront.symm)
        start_le := Nat.le_of_eq (by rw [hfront, hafter])
        lastStop_boundary := by rw [hstop]; exact h.after_boundary
        front_boundary := by rw [hfront]; exact h.after_boundary
        width := by
          rintro (hrest | ⟨value, hvalue⟩)
          · exact absurd hended.1 hrest
          · exact absurd hended (not_ended hvalue nofun nofun)
        respelled := fun m spelling htoken => absurd hended (not_ended htoken nofun nofun)
        reread := by
          intro hword
          rcases hended.2 with htoken | ⟨offset, htoken⟩ <;> rw [htoken] at hword <;> cases hword
        origin := .inl hended }
  · refine Valid.ofLexeme inType false s.arrowStart hat ?_ (Nat.le_of_eq h.stop_eq)
    rw [h.stop_eq]
    exact h.after_boundary

/-- The current token, scanned anew. -/
def rescanned (s : Place) (token : Token) (after : Cursor) : Place :=
  { s with
    current := { s.current with token := token, span := ⟨s.current.span.start, after.pos⟩ }
    after := after }

/-- **The place after a mark has been scanned anew.** -/
theorem Valid.rescanned {m : Mark} {spelling : List Char} {inType : Bool} {token : Token}
    {after : Cursor} (h : s.Valid text) (htoken : s.current.token = .mark m)
    (hm : m.respelled? = some spelling)
    (hscan : Scanned inType ⟨spelling ++ s.after.rest, s.after.pos - spelling.length⟩ token after)
    (hword : token.isWord = false) :
    (s.rescanned token after).Valid text ∧ s.Reaches (s.rescanned token after) := by
  obtain ⟨c, hat, hfront, hrest, hpos⟩ := h.respelled m spelling htoken hm
  have hc : (⟨spelling ++ s.after.rest, s.after.pos - spelling.length⟩ : Cursor) = c := by
    cases c
    simp only [Cursor.mk.injEq]
    exact ⟨hrest.symm, by simp only at hpos; omega⟩
  rw [hc] at hscan
  have hnot : ¬ s.Ended := not_ended htoken nofun nofun
  have hend := hscan.passes_or_ended
  have hle : c.pos ≤ after.pos := by
    rcases hend with hp | ⟨-, hp, -⟩
    · exact hp.reads.pos_le
    · exact Nat.le_of_eq hp.symm
  refine ⟨?_, Nat.le_refl _, fun hw => ?_, fun hs => absurd hs hnot⟩
  · constructor
    case after_at => exact hend.symm.imp (fun h => ⟨h.1, h.2.2⟩) fun hp => hat.reads hp.reads
    case after_boundary =>
      rcases hend with hp | ⟨-, hp, -⟩
      · exact (hat.reads hp.reads).isBoundary
      · exact (hp ▸ hat.isBoundary : IsBoundary text after.pos)
    case stop_eq => rfl
    case lastStop_le => exact h.lastStop_le
    case start_le => exact Nat.le_trans hfront hle
    case lastStop_boundary => exact h.lastStop_boundary
    case front_boundary => exact h.front_boundary
    case width =>
      intro hw
      rcases hend with hp | ⟨hr, -, ht⟩
      · exact Nat.lt_of_le_of_lt hfront hp.pos_lt
      · rcases hw with hne | ⟨value, hvalue⟩
        · exact absurd hr hne
        · rw [show token = _ from hvalue] at ht
          rcases ht with ht | ⟨_, ht⟩ <;> cases ht
    case respelled =>
      intro m' spelling' htoken' hm'
      rw [show token = _ from htoken'] at hscan
      obtain ⟨hr, hp⟩ := hscan.respelled hm'
      exact ⟨c, hat, hfront, hr, hp.symm⟩
    case reread => exact fun h => absurd h (Bool.eq_false_iff.1 hword)
    case origin =>
      -- the token has been read from its front before, as a mark that is one of `otherFronts`
      obtain ⟨start, hstart, hstartPos, hstarts, horigin⟩ := h.origin.resolve_left hnot
      refine .inr ⟨start, hstart, hstartPos, hstarts, .inr ?_⟩
      rcases horigin with ⟨inType', hread⟩ | hother
      · have hscan' := scanned_readToken inType' start
        rw [hread, htoken] at hscan'
        obtain ⟨hr, -⟩ := hscan'.respelled hm
        cases m <;> cases hm <;> exact ⟨_, _, hr, by decide⟩
      · exact hother
  · rw [htoken] at hw
    cases hw

end Place

end AmbientBundle.Source

import AmbientBundle.Proofs.ByteOrderMark
import AmbientBundle.Proofs.Layout.Fronts
import AmbientBundle.Proofs.Splicing

/-!
# Dropping the `declare` modifiers of a file

The tree of a file tells that a declaration has a modifier, but not where. The modifier is a token
of the text: the first one of the item, or the one after `export`. It is looked for without reading
tokens, and so it is found only where it is written plainly.

* `Item.IsDroppable`, `modifierWord?`, `modifierSpan?`: what should be dropped, and from which items.
* `Item.isPlain`: modifiers without escapes and without comments around them.
* `Fronted.declareSpan?_eq_iff`: **a modifier is dropped as it should be exactly if it is plain.**
* `Tree.visits_ne_declareKeyword`, `Declaration.pairwise_edits`: nothing else is offered as a
  modifier, and no edit gets in the way of one.
* `Declaration.modifiers_dropped_iff`: **what is dropped from a file.**
* `Declaration.modifier_after_comment_kept`: **modifiers that are not dropped.**
-/

namespace AmbientBundle

open Source Text

namespace Source

open Reading

variable {text : List Char}

/-! ### The modifier of an item -/

/-- A declaration whose modifier is dropped: it has one, and it is neither the global scope nor a
module named by a string. -/
def Head.IsDroppable (head : Head) : Prop :=
  head.declared = true ∧
    (head.kind ∈ [.classLike, .function, .binding, .interface, .alias, .enumeration] ∨
      ∃ name, name ≠ "global" ∧ head.kind = .moduleBlock (.ident name))

theorem Head.losesDeclare_iff (head : Head) : head.losesDeclare = true ↔ head.IsDroppable := by
  obtain ⟨kind, declared, start⟩ := head
  unfold losesDeclare IsDroppable
  cases kind with
  | moduleBlock name => cases name <;> simp
  | _ => simp

/-- An item whose modifier is dropped. -/
def Item.IsDroppable (item : Item) : Prop :=
  ∃ head, item.kind.head? = some head ∧ head.IsDroppable

instance (item : Item) : Decidable item.IsDroppable :=
  decidable_of_iff (item.kind.head?.any Head.losesDeclare = true) (by
    simp only [Option.any_eq_true, Head.losesDeclare_iff]
    rfl)

/-- The word `w` at an offset, past the blanks and comments before it. `afterLine` tells whether a
line has ended there. -/
def wordAt? (w : String) (text : List Char) (afterLine : Bool) (offset : Nat) : Option Span := do
  let rest ← dropBytes? offset text
  let front := ((⟨rest, offset⟩ : Cursor).gap afterLine).cursor
  let (token, after) := readToken false front
  if token = .word w then some ⟨front.pos, after.pos⟩ else none

/-- **The modifier of a declaration as a token of the text**: the first one of the item, or the one
after `export`. -/
def modifierWord? (text : List Char) (item : Item) : Option Span :=
  match item.kind with
  | .declaration _ => wordAt? "declare" text true item.start
  | .exportDeclaration _ => do
    let word ← wordAt? "export" text true item.start
    wordAt? "declare" text false word.stop
  | _ => none

/-- **What should be dropped from an item**: its modifier, with all spaces and tabs after it. -/
def modifierSpan? (text : List Char) (item : Item) : Option Span := do
  guard item.IsDroppable
  let word ← modifierWord? text item
  let after ← dropBytes? word.stop text
  return ⟨word.start, word.stop + byteLength (after.takeWhile isSpace)⟩

/-- `declare` at the front of a text, with a space or a tab after it. -/
def startsModifier (text : List Char) : Bool :=
  match cutFront? "declare".toList text with
  | some (c :: _) => isSpace c
  | _ => false

/-- **Whether the modifier of an item is written plainly**: without escapes, with a space or a tab
after it, and with nothing but blanks between `export` and it. -/
def Item.isPlain (text : List Char) (item : Item) : Bool :=
  match dropBytes? item.start text, item.kind with
  | some rest, .declaration _ => startsModifier rest
  | some rest, .exportDeclaration _ =>
    match cutFront? "export".toList rest with
    | some (b :: after) => isBlank b && startsModifier (trimStart after)
    | _ => false
  | _, _ => false

/-! ### Plain modifiers -/

theorem startsModifier_iff {cs : List Char} : startsModifier cs = true ↔
    ∃ c rest, cs = "declare".toList ++ c :: rest ∧ isSpace c = true := by
  unfold startsModifier
  constructor
  · intro h
    split at h
    · next c rest hcut => exact ⟨c, rest, cutFront?_eq_some.1 hcut, h⟩
    · cases h
  · rintro ⟨c, rest, rfl, hc⟩
    rw [cutFront?_eq_some.2 rfl]
    exact hc

theorem trimStart_blanks {ws : List Char} (hws : ∀ x ∈ ws, isBlank x = true) (c : Char)
    (rest : List Char) :
    trimStart (ws ++ ("declare".toList ++ c :: rest)) = "declare".toList ++ c :: rest := by
  rw [trimStart, List.dropWhile_append_of_pos hws]
  rfl

/-- What stands before a plain modifier: nothing, or `export` and blanks. -/
def Item.Leads (item : Item) (lead : List Char) : Prop :=
  (∃ head, item.kind = .declaration head) ∧ lead = [] ∨
    (∃ head, item.kind = .exportDeclaration head) ∧
      ∃ b ws, lead = "export".toList ++ b :: ws ∧ ∀ x ∈ b :: ws, isBlank x = true

theorem Item.isPlain_iff {item : Item} : item.isPlain text = true ↔
    ∃ before lead c rest, text = before ++ (lead ++ ("declare".toList ++ c :: rest)) ∧
      byteLength before = item.start ∧ isSpace c = true ∧ item.Leads lead := by
  unfold isPlain
  constructor
  · intro h
    split at h
    · next rest head hrest hkind =>
      obtain ⟨before, htext, hbefore⟩ := dropBytes?_eq_some.1 hrest
      obtain ⟨c, after, rfl, hc⟩ := startsModifier_iff.1 h
      exact ⟨before, [], c, after, htext, hbefore, hc, .inl ⟨⟨head, hkind⟩, rfl⟩⟩
    · next rest head hrest hkind =>
      obtain ⟨before, htext, hbefore⟩ := dropBytes?_eq_some.1 hrest
      split at h
      · next b after hcut =>
        obtain ⟨hb, hstarts⟩ := Bool.and_eq_true_iff.1 h
        obtain ⟨c, last, hlast, hc⟩ := startsModifier_iff.1 hstarts
        have hafter : after.takeWhile isBlank ++ ("declare".toList ++ c :: last) = after := by
          rw [← hlast]
          exact List.takeWhile_append_dropWhile
        have hblanks : ∀ x ∈ after.takeWhile isBlank, isBlank x = true :=
          List.all_eq_true.1 List.all_takeWhile
        refine ⟨before, "export".toList ++ b :: after.takeWhile isBlank, c, last, ?_, hbefore, hc,
          .inr ⟨⟨head, hkind⟩, b, _, rfl, List.forall_mem_cons.2 ⟨hb, hblanks⟩⟩⟩
        rw [htext, cutFront?_eq_some.1 hcut, List.append_assoc, List.cons_append, hafter]
      · cases h
    · cases h
  · rintro ⟨before, lead, c, rest, rfl, hbefore, hc, ⟨⟨head, hkind⟩, rfl⟩ |
      ⟨⟨head, hkind⟩, b, ws, rfl, hblanks⟩⟩
    · rw [dropBytes?_eq_some.2 ⟨before, rfl, hbefore⟩, hkind]
      exact startsModifier_iff.2 ⟨c, rest, rfl, hc⟩
    · obtain ⟨hb, hws⟩ := List.forall_mem_cons.1 hblanks
      rw [dropBytes?_eq_some.2 ⟨before, rfl, hbefore⟩, hkind]
      dsimp only
      rw [cutFront?_eq_some.2 (List.append_assoc _ _ _)]
      refine Bool.and_eq_true_iff.2 ⟨hb, startsModifier_iff.2 ⟨c, rest, ?_, hc⟩⟩
      exact trimStart_blanks hws c rest

/-- A word after blanks is found as it is spelled. -/
theorem wordAt?_blanks {w : String} (hw : w ∈ modifierWords) {before ws rest : List Char}
    (hws : ∀ x ∈ ws, isBlank x = true) {b : Char} (hb : isBlank b = true)
    (htext : text = before ++ (ws ++ (w.toList ++ b :: rest))) (afterLine : Bool) :
    wordAt? w text afterLine (byteLength before) =
      some ⟨byteLength (before ++ ws), byteLength (before ++ ws) + byteLength w.toList⟩ := by
  have hgap : ((⟨ws ++ (w.toList ++ b :: rest), byteLength before⟩ : Cursor).gap afterLine).cursor =
      ⟨w.toList ++ b :: rest, byteLength (before ++ ws)⟩ := by
    obtain ⟨nl, hskip⟩ :=
      skipGap_blanks hws (w.toList ++ b :: rest) (byteLength before) afterLine none
    rw [Cursor.gap, hskip, ← byteLength_append]
    simp only [modifierWords, List.mem_cons, List.not_mem_nil, or_false] at hw
    rcases hw with rfl | rfl <;> rfl
  unfold wordAt?
  rw [dropBytes?_eq_some.2 ⟨before, htext, rfl⟩, Option.bind_eq_bind, Option.bind_some]
  dsimp only
  rw [hgap, readToken_word hw hb, if_pos rfl]

/-- The spaces after a plain modifier belong to it. -/
theorem declareAt?_eq {before rest : List Char} {c : Char}
    (htext : text = before ++ ("declare".toList ++ c :: rest)) (hc : isSpace c = true) :
    declareAt? text (byteLength before) = some ⟨byteLength before,
      byteLength before + 7 + byteLength ((c :: rest).takeWhile isSpace)⟩ := by
  have hdrop : dropBytes? (byteLength before + 7) text = some (c :: rest) := by
    refine dropBytes?_eq_some.2 ⟨before ++ "declare".toList, by rw [htext, List.append_assoc], ?_⟩
    rw [byteLength_append]
    rfl
  have hspaces : ∀ x ∈ (c :: rest).takeWhile isSpace, isSpace x = true :=
    List.all_eq_true.1 List.all_takeWhile
  rw [byteLength_of_isSpace hspaces]
  unfold declareAt?
  dsimp only
  rw [Option.bind_eq_bind, hdrop, Option.bind_some]
  refine if_neg fun hzero => ?_
  have hnil : (c :: rest).takeWhile isSpace = [] :=
    List.eq_nil_of_length_eq_zero (beq_iff_eq.1 hzero)
  rw [List.takeWhile_cons, if_pos hc] at hnil
  cases hnil

section Leads

variable {item : Item} {before lead rest : List Char} {c : Char}

/-- What stands before a plain modifier is passed over in the text. -/
theorem Item.Leads.afterExport_eq (hlead : item.Leads lead)
    (htext : text = before ++ (lead ++ ("declare".toList ++ c :: rest))) :
    afterExport text (byteLength before) = byteLength (before ++ lead) := by
  unfold afterExport
  rw [dropBytes?_eq_some.2 ⟨before, htext, rfl⟩, Option.bind_some]
  rcases hlead with ⟨-, rfl⟩ | ⟨-, b, ws, rfl, hblanks⟩
  · rw [List.append_nil]
    rfl
  · rw [cutFront?_eq_some.2 (List.append_assoc _ _ _)]
    have hlt : ("declare".toList ++ c :: rest).length <
        (b :: ws ++ ("declare".toList ++ c :: rest)).length := by
      rw [List.cons_append, List.length_cons, @List.length_append _ ws]
      omega
    dsimp only
    rw [trimStart_blanks hblanks, if_pos hlt, htext, ← List.append_assoc before,
      byteLength_append (before ++ _), Nat.add_sub_cancel]

/-- What stands before a plain modifier is passed over by the lexer. -/
theorem Item.Leads.modifierWord?_eq (hlead : item.Leads lead)
    (htext : text = before ++ (lead ++ ("declare".toList ++ c :: rest)))
    (hbefore : byteLength before = item.start) (hc : isBlank c = true) :
    modifierWord? text item =
      some ⟨byteLength (before ++ lead), byteLength (before ++ lead) + 7⟩ := by
  unfold modifierWord?
  rcases hlead with ⟨⟨head, hkind⟩, rfl⟩ | ⟨⟨head, hkind⟩, b, ws, rfl, hblanks⟩
  · rw [hkind, ← hbefore]
    exact wordAt?_blanks (by simp [modifierWords]) (List.forall_mem_nil _) hc htext true
  · have hfirst : text = before ++ ([] ++ ("export".toList ++
        b :: (ws ++ ("declare".toList ++ c :: rest)))) := by
      rw [htext]
      simp
    have hsecond : text = before ++ "export".toList ++
        (b :: ws ++ ("declare".toList ++ c :: rest)) := by
      rw [htext]
      simp
    have hexport := wordAt?_blanks (by simp [modifierWords]) (List.forall_mem_nil _)
      (hblanks b List.mem_cons_self) hfirst true
    have hdeclare := wordAt?_blanks (by simp [modifierWords]) hblanks hc hsecond false
    rw [byteLength_append before, List.append_assoc] at hdeclare
    rw [List.append_nil] at hexport
    rw [hkind, ← hbefore]
    dsimp only
    rw [hexport, Option.bind_eq_bind, Option.bind_some]
    exact hdeclare

/-- **A plain modifier is found** where it is looked for. -/
theorem declareSpan?_of_isPlain (hdrop : item.IsDroppable) (hplain : item.isPlain text = true) :
    declareSpan? text item = modifierSpan? text item := by
  obtain ⟨before, lead, c, rest, htext, hbefore, hc, hlead⟩ := Item.isPlain_iff.1 hplain
  obtain ⟨head, hhead, hloses⟩ := id hdrop
  have hword := hlead.modifierWord?_eq htext hbefore (isBlank_of_isSpace hc)
  have hafter := hlead.afterExport_eq htext
  rw [hbefore] at hafter
  rw [← List.append_assoc] at htext
  have hrest : dropBytes? (byteLength (before ++ lead)) text =
      some ("declare".toList ++ c :: rest) := dropBytes?_eq_some.2 ⟨_, htext, rfl⟩
  have hstop : dropBytes? (byteLength (before ++ lead) + 7) text = some (c :: rest) := by
    refine dropBytes?_eq_some.2 ⟨before ++ lead ++ "declare".toList, ?_, ?_⟩
    · rw [htext, List.append_assoc (before ++ lead)]
    · rw [byteLength_append (before ++ lead)]
      rfl
  have hfound : declareSpan? text item = declareAt? text (byteLength (before ++ lead)) := by
    unfold declareSpan?
    simp only [hhead, head.losesDeclare_iff.2 hloses, hafter, hrest, guard, if_true,
      Option.bind_eq_bind, Option.bind_some, Option.pure_def]
    exact if_pos rfl
  rw [hfound, declareAt?_eq htext hc]
  unfold modifierSpan?
  simp only [guard, if_pos hdrop, hword, hstop, Option.bind_eq_bind, Option.bind_some,
    Option.pure_def]

end Leads

/-! ### Modifiers that have been read -/

/-- A word that is read after a gap is the word at the front of the gap. -/
theorem wordAt?_of_gap {w : String} {c after : Cursor} {afterLine : Bool} (hc : c.At text)
    (hread : readToken false (c.gap afterLine).cursor = (.word w, after)) :
    wordAt? w text afterLine c.pos = some ⟨(c.gap afterLine).cursor.pos, after.pos⟩ := by
  obtain ⟨before, htext, hpos⟩ := hc
  unfold wordAt?
  rw [dropBytes?_eq_some.2 ⟨before, htext, hpos⟩, Option.bind_eq_bind, Option.bind_some]
  simp only [hread, if_true]

theorem Cursor.pos_le_gap (c : Cursor) (afterLine : Bool) : c.pos ≤ (c.gap afterLine).cursor.pos :=
  (skipGap_closes .blank c.rest c.pos afterLine none).reads.pos_le

namespace Place.Valid

variable {s : Place} {w : String}

/-- The word at a place is the word at its front. -/
theorem wordAt?_here (hs : s.Valid text) (hword : s.current.token = .word w) :
    ∃ start, s.front ≤ start ∧ wordAt? w text true s.front = some ⟨start, s.after.pos⟩ := by
  obtain ⟨c, hc, hfront, hread⟩ := hs.reread (by rw [hword]; rfl)
  rw [hword] at hread
  exact ⟨_, hfront ▸ c.pos_le_gap true, hfront ▸ wordAt?_of_gap hc hread⟩

/-- The word after a place is the word after its token. -/
theorem wordAt?_next (hs : s.Valid text) (hended : ¬ s.Ended) {inType : Bool}
    (hword : (s.advanced inType).current.token = .word w) :
    ∃ start, (s.advanced inType).front ≤ start ∧
      wordAt? w text false s.after.pos = some ⟨start, (s.advanced inType).after.pos⟩ := by
  have hat := hs.after_at.resolve_left hended
  have hisWord : (readToken inType (s.after.gap false).cursor).1.isWord = true := by
    rw [show (readToken inType (s.after.gap false).cursor).1 = .word w from hword]
    rfl
  obtain ⟨-, -, -, -, htype⟩ := readToken_isWord hisWord
  obtain ⟨start, hstart, -, hreads, -⟩ := nextLexeme_start inType false s.after
  refine ⟨_, ?_, wordAt?_of_gap hat (htype.trans (Prod.ext hword rfl))⟩
  rw [front, Place.advanced, hstart]
  exact hreads.pos_le

end Place.Valid

/-- Where `declare` is found, a space or a tab follows it. -/
theorem exists_space_of_declareAt? {before rest : List Char} {span : Span}
    (htext : text = before ++ ("declare".toList ++ rest))
    (hat : declareAt? text (byteLength before) = some span) :
    ∃ c after, rest = c :: after ∧ isSpace c = true := by
  obtain ⟨before', rest', htext', hpos', hne, -⟩ := declareAt?_eq_some hat
  have hfront : (before ++ "declare".toList) ++ rest = before' ++ rest' := by
    rw [List.append_assoc, ← htext, htext']
  obtain ⟨-, rfl⟩ := front_eq hfront (by rw [byteLength_append, hpos']; rfl)
  cases rest with
  | nil => exact absurd rfl hne
  | cons c after =>
    refine ⟨c, after, rfl, ?_⟩
    by_contra hc
    rw [List.takeWhile_cons, if_neg hc] at hne
    exact hne rfl

section Found

variable {s : Place} {rest : List Char} {span : Span}

/-- A modifier that is found at its token is plain. -/
theorem isPlain_of_declare (hs : s.Valid text) (hdeclare : s.current.token = .word "declare")
    (d : Declared)
    (hrest : dropBytes? (afterExport text s.front) text = some ("declare".toList ++ rest))
    (hat : declareAt? text (afterExport text s.front) = some span) :
    (declarationItem s.front true d).isPlain text = true := by
  have hended : ¬ s.Ended := Place.not_ended_of_word hdeclare
  rw [hs.afterExport_eq hended (by rw [hdeclare]; decide)] at hrest hat
  obtain ⟨before, htext, hpos⟩ := dropBytes?_eq_some.1 hrest
  rw [← hpos] at hat
  obtain ⟨c, after, rfl, hc⟩ := exists_space_of_declareAt? htext hat
  exact Item.isPlain_iff.2 ⟨before, [], c, after, htext, hpos, hc, .inl ⟨⟨_, rfl⟩, rfl⟩⟩

/-- A modifier that is found after `export` is plain. -/
theorem isPlain_of_export (hs : s.Valid text) (hexport : s.current.token = .word "export")
    (inner : Nat) (d : Declared)
    (hrest : dropBytes? (afterExport text s.front) text = some ("declare".toList ++ rest))
    (hat : declareAt? text (afterExport text s.front) = some span) :
    (exportedItem s.front inner true d).isPlain text = true := by
  have hended : ¬ s.Ended := Place.not_ended_of_word hexport
  rcases afterExport_drop hrest with h | ⟨before, b, ws, htext, hpos, hblanks, h⟩
  · -- `declare` would be the current token, which is `export`
    rw [h] at hrest hat
    have htoken := (hs.declare_here hended hrest hat).1
    rw [hexport] at htoken
    exact absurd htoken (by decide)
  · have hlength : byteLength (before ++ ("export".toList ++ b :: ws)) =
        afterExport text s.front := by
      rw [h, ← hpos, byteLength_append, byteLength_append, ← Nat.add_assoc]
      rfl
    have hlead : text = before ++ ("export".toList ++ b :: ws ++ ("declare".toList ++ rest)) := by
      rw [htext]
      simp
    rw [← hlength] at hat
    obtain ⟨c, after, rfl, hc⟩ :=
      exists_space_of_declareAt? (hlead.trans (List.append_assoc _ _ _).symm) hat
    exact Item.isPlain_iff.2 ⟨before, _, c, after, hlead, hpos, hc,
      .inr ⟨⟨_, rfl⟩, b, ws, rfl, hblanks⟩⟩

end Found

namespace Fronted

variable {item : Item}

/-- **An item with a modifier has it in its text.** -/
theorem exists_modifierWord (h : Fronted text item) {head : Head}
    (hhead : item.kind.head? = some head) (hdeclared : head.declared = true) :
    ∃ word, modifierWord? text item = some word ∧ head.start ≤ word.start ∧
      IsBoundary text word.stop := by
  cases h with
  | undeclared hundeclared =>
    rw [hundeclared head hhead] at hdeclared
    cases hdeclared
  | @declared s hs hdeclare d =>
    cases hhead
    obtain ⟨start, hle, hword⟩ := hs.wordAt?_here hdeclare
    exact ⟨_, hword, hle, hs.after_boundary⟩
  | @exported s hs hexport inType hdeclare d =>
    cases hhead
    obtain ⟨_, -, hfirst⟩ := hs.wordAt?_here hexport
    obtain ⟨start, hle, hword⟩ := hs.wordAt?_next (Place.not_ended_of_word hexport) hdeclare
    refine ⟨⟨start, (s.advanced inType).after.pos⟩, ?_, hle, (hs.advanced inType).1.after_boundary⟩
    change (wordAt? "export" text true s.front >>= fun word =>
      wordAt? "declare" text false word.stop) = _
    rw [hfirst]
    exact hword

/-- **What is found in the place of a modifier that is not written plainly** stands before it. -/
theorem found_before (h : Fronted text item) (hplain : item.isPlain text = false) {span : Span}
    (hspan : declareSpan? text item = some span) {word : Span}
    (hword : modifierWord? text item = some word) :
    item.start ≤ span.start ∧ span.start < span.stop ∧ span.stop ≤ word.start := by
  have hnot : item.isPlain text ≠ true := by rw [hplain]; exact Bool.false_ne_true
  cases h with
  | undeclared hundeclared =>
    rw [declareSpan?_kept fun head hhead => by rw [Head.losesDeclare, hundeclared head hhead]; rfl]
      at hspan
    cases hspan
  | @declared s hs hdeclare d =>
    rcases declareSpan?_eq_some rfl hspan with ⟨rest, hrest, hat⟩ | hbefore
    · exact absurd (isPlain_of_declare hs hdeclare d hrest hat) hnot
    · exact absurd hbefore (declareBefore?_self text s.front span)
  | @exported s hs hexport inType hdeclare d =>
    rcases declareSpan?_eq_some rfl hspan with ⟨rest, hrest, hat⟩ | hbefore
    · exact absurd (isPlain_of_export hs hexport _ d hrest hat) hnot
    · have hended := Place.not_ended_of_word hdeclare
      have hstop := (hs.advanced inType).1.stop_le_of_declareBefore? hended hbefore
      obtain ⟨front, ws, post, -, hle, -, hat⟩ := declareBefore?_eq_some hbefore
      obtain ⟨_, rest, -, -, -, rfl⟩ := declareAt?_eq_some hat
      obtain ⟨word', hword', hstart, -⟩ :=
        (exported hs hexport inType hdeclare d).exists_modifierWord rfl rfl
      obtain rfl := Option.some.inj (hword'.symm.trans hword)
      refine ⟨hle, ?_, Nat.le_trans hstop hstart⟩
      dsimp only
      omega

/-- Every declaration that can do without its modifier has a stretch of text that should be
dropped. -/
theorem exists_modifierSpan (h : Fronted text item) (hdrop : item.IsDroppable) :
    ∃ word length, modifierWord? text item = some word ∧
      modifierSpan? text item = some ⟨word.start, word.stop + length⟩ := by
  obtain ⟨head, hhead, hloses⟩ := id hdrop
  obtain ⟨word, hword, -, before, after, htext, hstop⟩ := h.exists_modifierWord hhead hloses.1
  refine ⟨word, byteLength (after.takeWhile isSpace), hword, ?_⟩
  unfold modifierSpan?
  simp only [guard, if_pos hdrop, hword, dropBytes?_eq_some.2 ⟨before, htext, hstop⟩,
    Option.bind_eq_bind, Option.bind_some, Option.pure_def]

/-- **A modifier is dropped as it should be exactly if it is written plainly.** -/
theorem declareSpan?_eq_iff (h : Fronted text item) :
    declareSpan? text item = modifierSpan? text item ↔
      (item.IsDroppable → item.isPlain text = true) := by
  constructor
  · intro heq hdrop
    by_contra hplain
    obtain ⟨word, length, hword, hspan⟩ := h.exists_modifierSpan hdrop
    have hfound := h.found_before (Bool.eq_false_iff.2 hplain) (heq.trans hspan) hword
    dsimp only at hfound
    omega
  · intro hplain
    by_cases hdrop : item.IsDroppable
    · exact declareSpan?_of_isPlain hdrop (hplain hdrop)
    · have hkept : ∀ head, item.kind.head? = some head → head.losesDeclare = false := by
        refine fun head hhead => Bool.eq_false_iff.2 fun hloses => hdrop ⟨head, hhead, ?_⟩
        exact head.losesDeclare_iff.1 hloses
      rw [declareSpan?_kept hkept, modifierSpan?, guard, if_neg hdrop]
      rfl

end Fronted

end Source

/-! ### What is offered -/

/-- Nothing in a tree is offered as a modifier. -/
theorem Tree.visits_ne_declareKeyword (r : Replacer) (t : Tree) :
    ∀ v ∈ visits r t, v.node ≠ .declareKeyword := by
  have heach : ∀ ts : List Tree, (∀ t ∈ ts, ∀ v ∈ visits r t, v.node ≠ .declareKeyword) →
      ∀ v ∈ (visitsEach r ts).flatten, v.node ≠ .declareKeyword := by
    intro ts hts v hv
    rw [visitsEach_eq_map, ← List.flatMap_def] at hv
    obtain ⟨t, ht, hv⟩ := List.mem_flatMap.1 hv
    exact hts t ht v hv
  induction t using Source.Tree.inductionOn with
  | external span target => simp [visits, Replacer.offer]
  | specifier target => simp [visits, Replacer.offer]
  | importType target arguments options harguments hoptions =>
    intro v hv
    rw [visits] at hv
    split at hv
    · rcases List.mem_cons.1 hv with rfl | hv
      · rintro ⟨⟩
      · exact heach arguments harguments v hv
    · rcases List.mem_append.1 hv with hv | hv
      · rcases List.mem_cons.1 hv with rfl | hv
        · rintro ⟨⟩
        · exact heach arguments harguments v hv
      · exact heach options hoptions v hv
  | moduleBlock span name body hbody =>
    intro v hv
    rw [visits] at hv
    split at hv
    · rw [List.mem_singleton.1 hv]
      rintro ⟨⟩
    · rcases List.mem_cons.1 hv with rfl | hv
      · rintro ⟨⟩
      · exact heach body hbody v hv
  | parts form children hchildren =>
    intro v hv
    rw [visits] at hv
    obtain ⟨inside, hinside, hv⟩ := List.mem_flatten.1 hv
    exact heach children hchildren v (List.mem_flatten.2 ⟨inside, Form.mem_visit.1 hinside, hv⟩)

namespace Declaration

variable {d : Declaration}

/-- **The modifiers that are offered** are those that are looked for, item by item. -/
theorem filter_visits (d : Declaration) (r : Replacer) :
    (d.visits r).filter (fun v => v.node = .declareKeyword) =
      d.modifierSpans.map (r.offer .declareKeyword) := by
  rw [visits, List.filter_flatMap, modifierSpans, List.map_filterMap,
    List.filterMap_eq_flatMap_toList]
  refine List.flatMap_congr fun item _ => ?_
  have htree : (Tree.visits r item.tree).filter (fun v => v.node = .declareKeyword) = [] :=
    List.filter_eq_nil_iff.2 fun v hv => by simpa using Tree.visits_ne_declareKeyword r _ v hv
  rw [itemVisits, List.filter_append, htree, List.append_nil]
  cases declareSpan? d.source.toList item <;> rfl

end Declaration

/-! ### What is kept -/

theorem keptFrom_sublist (limit offset : Nat) (edits : List Edit) :
    (keptFrom limit offset edits).Sublist edits := by
  induction edits generalizing offset with
  | nil => exact .slnil
  | cons e edits ih =>
    rw [keptFrom]
    split
    · exact (ih _).cons_cons e
    · exact (ih _).cons e

/-- **Edits that no other edit gets in the way of are kept.** -/
theorem filter_keptFrom {limit offset : Nat} {edits : List Edit} {p : Edit → Bool}
    (hoffset : ∀ e ∈ edits, p e = true → offset ≤ e.span.start)
    (hlimit : ∀ e ∈ edits, p e = true → e.span.stop ≤ limit)
    (hedits : edits.Pairwise fun a b => p b = true → a.span.stop ≤ b.span.start) :
    (keptFrom limit offset edits).filter p = edits.filter p := by
  induction edits generalizing offset with
  | nil => rfl
  | cons e edits ih =>
    obtain ⟨he, hrest⟩ := List.pairwise_cons.1 hedits
    have hlimit' := fun e' he' => hlimit e' (List.mem_cons_of_mem _ he')
    have hoffset' := fun e' he' => hoffset e' (List.mem_cons_of_mem _ he')
    rw [keptFrom]
    split
    · rw [List.filter_cons, List.filter_cons, ih he hlimit' hrest]
    · next hdropped =>
      have hp : p e ≠ true := fun hp =>
        hdropped ⟨hoffset e List.mem_cons_self hp, hlimit e List.mem_cons_self hp⟩
      rw [ih hoffset' hlimit' hrest, List.filter_cons_of_neg hp]

section Picks

variable {α β : Type} {f g : α → Option β} {xs : List α}

theorem length_filterMap_le (h : ∀ x ∈ xs, g x = none → f x = none) :
    (xs.filterMap f).length ≤ (xs.filterMap g).length := by
  induction xs with
  | nil => exact Nat.le_refl _
  | cons x xs ih =>
    have hrest := ih fun x hx => h x (List.mem_cons_of_mem _ hx)
    have hx := h x List.mem_cons_self
    rw [List.filterMap_cons, List.filterMap_cons]
    cases hg : g x with
    | none => rwa [hx hg]
    | some b =>
      cases f x with
      | none => exact Nat.le_succ_of_le hrest
      | some a => exact Nat.succ_le_succ hrest

/-- Two ways to pick something from each element pick the same just if they agree on each element,
if the first picks nothing where the second does not. -/
theorem filterMap_eq_iff (h : ∀ x ∈ xs, g x = none → f x = none) :
    xs.filterMap f = xs.filterMap g ↔ ∀ x ∈ xs, f x = g x := by
  refine ⟨fun heq => ?_, List.filterMap_congr⟩
  induction xs with
  | nil => exact List.forall_mem_nil _
  | cons x xs ih =>
    have hrest := fun x hx => h x (List.mem_cons_of_mem _ hx)
    have hx := h x List.mem_cons_self
    rw [List.filterMap_cons, List.filterMap_cons] at heq
    refine List.forall_mem_cons.2 ?_
    cases hg : g x with
    | none =>
      rw [hx hg, hg] at heq
      exact ⟨hx hg, ih hrest heq⟩
    | some b =>
      cases hf : f x with
      | none =>
        -- nothing that comes later makes up for what is not picked here
        rw [hf, hg] at heq
        have hlength := congrArg List.length heq
        have hle := length_filterMap_le hrest
        simp only [List.length_cons] at hlength
        omega
      | some a =>
        rw [hf, hg] at heq
        obtain ⟨rfl, htail⟩ := List.cons.inj heq
        exact ⟨rfl, ih hrest htail⟩

end Picks

namespace Declaration

variable {d : Declaration} {source : String} {r : Resolver} {current : String}

/-- The edits of references are none of modifiers. -/
theorem filter_edits_modifiers (d : Declaration) (r : Resolver) (current : String) :
    (d.edits (r.rules current)).filter (fun e => e.text == "") =
      d.modifierSpans.map fun span => ⟨span, ""⟩ := by
  rw [edits_eq_flatMap, List.filter_flatMap, modifierSpans, List.map_filterMap,
    List.filterMap_eq_flatMap_toList]
  refine List.flatMap_congr fun item _ => ?_
  have htree : (item.tree.asked (r.rules current)).filter (fun e => e.text == "") = [] :=
    List.filter_eq_nil_iff.2 fun e he => by simpa using text_ne_of_mem_asked he
  rw [List.filter_append, htree, List.append_nil, flatMap_modifiers]
  cases declareSpan? d.source.toList item <;> rfl

/-- **No edit gets in the way of a modifier**: what comes before it in a visit stands before it in
the text. -/
theorem pairwise_edits (hparse : parse source = .ok d)
    (hmark : source.toList.head? ≠ some byteOrderMark) (r : Resolver) (current : String) :
    (d.edits (r.rules current)).Pairwise fun a b =>
      (b.text == "") = true → a.span.stop ≤ b.span.start := by
  have hr : ∀ name, r.rules current (.moduleBlock name) = none := fun _ => rfl
  have hwanted := before_of_fits (fits_wanted hparse hmark (r.rules current))
  rw [wanted_eq_flatMap] at hwanted
  rw [edits_eq_flatMap]
  obtain ⟨-, hitems⟩ := List.pairwise_flatMap.1 hwanted
  refine List.pairwise_flatMap.2 ⟨fun item _ => ?_, ?_⟩
  · -- in an item the modifier comes first
    have htree : ∀ e ∈ item.tree.asked (r.rules current), (e.text == "") = true → False :=
      fun e he htext => text_ne_of_mem_asked he (beq_iff_eq.1 htext)
    refine List.pairwise_append.2 ⟨?_, ?_, fun a _ b hb htext => (htree b hb htext).elim⟩
    · rw [flatMap_modifiers]
      cases declareSpan? d.source.toList item <;> simp
    · exact (List.pairwise_of_forall_mem_list fun a _ b hb htext => (htree b hb htext).elim)
  · refine hitems.imp fun {item item'} hbefore a ha b hb _ => ?_
    exact (hbefore a (itemEdits_subset hr item ha) b (itemEdits_subset hr item' hb)).2

theorem fallsBetween_of_mem_edits (hparse : parse source = .ok d)
    (hmark : source.toList.head? ≠ some byteOrderMark) {e : Edit}
    (he : e ∈ d.edits (r.rules current)) :
    e.FallsBetween source.toList ∧ e.span.stop ≤ byteLength source.toList := by
  have hfits := fits_wanted hparse hmark (r.rules current)
  have hmem := List.mem_map_of_mem (f := Edit.span) (edits_subset_wanted (fun _ => rfl) he)
  obtain ⟨-, hlt, hstart, hstop, hle⟩ := hfits.sublist (List.singleton_sublist.2 hmem)
  exact ⟨⟨Nat.le_of_lt hlt, fun _ => ⟨hstart, hstop⟩⟩, hle⟩

/-- **The `declare` modifiers of a file that has been read.** An item that is declared has the word
in its text, at its front or after `export`, and only what is looked for item by item is offered as a
modifier. What is found for an item is its modifier, with all spaces and tabs after it, exactly if
the modifier is written plainly or is not to be dropped; else it is nothing, or a stretch before the
modifier. In a bundle, the stretches that are found are dropped, all other edits replace references,
and the rest of the text is taken over. So exactly the modifiers that should be dropped are dropped
just if all of them are written plainly. -/
theorem modifiers_dropped_iff (hparse : parse source = .ok d)
    (hmark : source.toList.head? ≠ some byteOrderMark) (r : Resolver) (current : String) :
    (∀ item ∈ d.items, ∀ head, item.kind.head? = some head → head.declared = true →
      (modifierWord? source.toList item).isSome) ∧
    (∀ replacer : Replacer, (d.visits replacer).filter (fun v => v.node = .declareKeyword) =
      (d.items.filterMap (declareSpan? source.toList)).map (replacer.offer .declareKeyword)) ∧
    (∀ item ∈ d.items,
      (declareSpan? source.toList item = modifierSpan? source.toList item ↔
        (item.IsDroppable → item.isPlain source.toList = true)) ∧
      ∀ span word, item.isPlain source.toList = false →
        declareSpan? source.toList item = some span → modifierWord? source.toList item = some word →
        item.start ≤ span.start ∧ span.start < span.stop ∧ span.stop ≤ word.start) ∧
    ∃ kept output, d.replace? (r.rules current) = some output ∧
      Spliced source.toList 0 kept output.toList ∧
      (∀ e ∈ kept, e.text ≠ "" → ∃ place ∈ d.references, e.span = place.2) ∧
      (kept.filter fun e => e.text == "") =
        (d.items.filterMap (declareSpan? source.toList)).map (fun span => ⟨span, ""⟩) ∧
      ((kept.filter fun e => e.text == "") =
          (d.items.filterMap (modifierSpan? source.toList)).map (fun span => ⟨span, ""⟩) ↔
        ∀ item ∈ d.items, item.IsDroppable → item.isPlain source.toList = true) := by
  have hfronted := fronted_readItems (readItems_of_parse hparse hmark)
  have hspans : d.modifierSpans = d.items.filterMap (declareSpan? source.toList) := by
    rw [modifierSpans, source_of_parse hparse]
  refine ⟨?_, ?_, ?_, ?_⟩
  · intro item hitem head hhead hdeclared
    obtain ⟨word, hword, -⟩ := (hfronted item hitem).exists_modifierWord hhead hdeclared
    rw [hword]
    rfl
  · intro replacer
    rw [filter_visits, hspans]
  · intro item hitem
    refine ⟨(hfronted item hitem).declareSpan?_eq_iff, fun span word hplain hspan hword => ?_⟩
    exact (hfronted item hitem).found_before hplain hspan hword
  · have hfalls := fun e (he : e ∈ d.edits (r.rules current)) =>
      fallsBetween_of_mem_edits hparse hmark he
    obtain ⟨result, happly, hspliced⟩ := exists_spliced_of_applyFrom?
      (List.nil_append source.toList).symm fun e he => (hfalls e he).1
    have hkept : (keptFrom (byteLength source.toList) 0 (d.edits (r.rules current))).filter
        (fun e => e.text == "") =
        (d.items.filterMap (declareSpan? source.toList)).map fun span => ⟨span, ""⟩ := by
      rw [filter_keptFrom (fun _ _ _ => Nat.zero_le _) (fun e he _ => (hfalls e he).2)
        (pairwise_edits hparse hmark r current), filter_edits_modifiers, hspans]
    refine ⟨_, String.ofList result, ?_, ?_, ?_, hkept, ?_⟩
    · rw [replace?, applyEdits?, source_of_parse hparse]
      exact congrArg (Option.map String.ofList) happly
    · rw [String.toList_ofList]
      exact hspliced
    · intro e he htext
      have hasked : e ∈ (d.edits (r.rules current)).filter fun e => e.text != "" :=
        List.mem_filter.2 ⟨(keptFrom_sublist _ _ _).subset he, bne_iff_ne.2 htext⟩
      rw [filter_edits] at hasked
      obtain ⟨item, hitem, hasked⟩ := List.mem_flatMap.1 hasked
      obtain ⟨place, hplace, hat⟩ :=
        List.mem_flatMap.1 (Tree.asked_subset_wanted (fun _ => rfl) item.tree hasked)
      obtain ⟨_, -, rfl⟩ := Replacer.mem_editsAt.1 hat
      exact ⟨place, List.mem_flatMap.2 ⟨item, hitem, hplace⟩, rfl⟩
    · have hinjective : Function.Injective fun span => (⟨span, ""⟩ : Edit) :=
        fun a b hab => congrArg Edit.span hab
      have hfound : ∀ item ∈ d.items, modifierSpan? source.toList item = none →
          declareSpan? source.toList item = none := by
        intro item hitem hnone
        refine ((hfronted item hitem).declareSpan?_eq_iff.2 fun hdrop => ?_).trans hnone
        obtain ⟨_, _, -, hsome⟩ := (hfronted item hitem).exists_modifierSpan hdrop
        cases hnone.symm.trans hsome
      rw [hkept, (List.map_injective_iff.2 hinjective).eq_iff, filterMap_eq_iff hfound]
      exact forall₂_congr fun item hitem => (hfronted item hitem).declareSpan?_eq_iff

/-- A text with modifiers that are dropped, one of them on a line of its own, and with modifiers
that are kept: of the global scope, of a module named by a string, and of a nested declaration. -/
def plainSample : String :=
  "declare class A \x7b\x7d\nexport\n  declare \tconst b: 1;\ndeclare global \x7b\x7d\n" ++
    "declare module 'm' \x7b\x7d\n" ++
    "export declare namespace N \x7b\n\tdeclare class D \x7b\x7d\n\x7d\n"

/-- The text without the modifiers that are dropped. -/
def plainBundled : String :=
  "class A \x7b\x7d\nexport\n  const b: 1;\ndeclare global \x7b\x7d\n" ++
    "declare module 'm' \x7b\x7d\n" ++
    "export namespace N \x7b\n\tdeclare class D \x7b\x7d\n\x7d\n"

theorem modifiers_dropped_iff_plain : ∃ d kept, parse plainSample = .ok d ∧
    plainSample.toList.head? ≠ some byteOrderMark ∧
    (∀ item ∈ d.items, item.IsDroppable → item.isPlain plainSample.toList = true) ∧
    d.items.filterMap (modifierSpan? plainSample.toList) = [⟨0, 8⟩, ⟨28, 37⟩, ⟨96, 104⟩] ∧
    (kept.filter fun e => e.text == "") = [⟨⟨0, 8⟩, ""⟩, ⟨⟨28, 37⟩, ""⟩, ⟨⟨96, 104⟩, ""⟩] ∧
    Spliced plainSample.toList 0 kept plainBundled.toList := by
  have hmark : plainSample.toList.head? ≠ some byteOrderMark := by decide +kernel
  have hrun : ∃ d, parse plainSample = .ok d ∧
      (d.items.all fun item => !decide item.IsDroppable || item.isPlain plainSample.toList,
        d.items.filterMap (modifierSpan? plainSample.toList),
        d.replace? (Resolver.rules ⟨[], none, none⟩ "m/cur")) =
      (true, [⟨0, 8⟩, ⟨28, 37⟩, ⟨96, 104⟩], some plainBundled) :=
    exists_of_parse (by decide +kernel)
  obtain ⟨d, hparse, hrun⟩ := hrun
  simp only [Prod.mk.injEq] at hrun
  obtain ⟨hall, hspans, hreplace⟩ := hrun
  have hplain : ∀ item ∈ d.items, item.IsDroppable → item.isPlain plainSample.toList = true := by
    intro item hitem hdrop
    simpa [hdrop] using List.all_eq_true.1 hall item hitem
  obtain ⟨-, -, -, kept, output, houtput, hspliced, -, -, hiff⟩ :=
    modifiers_dropped_iff hparse hmark ⟨[], none, none⟩ "m/cur"
  obtain rfl := Option.some.inj (hreplace.symm.trans houtput)
  refine ⟨d, kept, hparse, hmark, hplain, hspans, ?_, hspliced⟩
  rw [hiff.2 hplain, hspans]
  rfl

/-- **Modifiers that are not dropped.** Where a comment stands between `export` and the modifier,
nothing is offered; and where the comment ends with the word, a part of the comment is dropped in
the place of the modifier. -/
theorem modifier_after_comment_kept :
    (∃ d, parse "export /* c */ declare class A \x7b\x7d\n" = .ok d ∧
      (∀ item ∈ d.items, item.IsDroppable) ∧
      d.items.filterMap (modifierSpan? "export /* c */ declare class A \x7b\x7d\n".toList) =
        [⟨15, 23⟩] ∧
      d.edits (Resolver.rules ⟨[], none, none⟩ "m/cur") = [] ∧
      d.replace? (Resolver.rules ⟨[], none, none⟩ "m/cur") =
        some "export /* c */ declare class A \x7b\x7d\n") ∧
    ∃ d, parse "export // declare \ndeclare const x: 1;\n" = .ok d ∧
      (∀ item ∈ d.items, item.IsDroppable) ∧
      d.items.filterMap (modifierSpan? "export // declare \ndeclare const x: 1;\n".toList) =
        [⟨19, 27⟩] ∧
      d.edits (Resolver.rules ⟨[], none, none⟩ "m/cur") = [⟨⟨10, 18⟩, ""⟩] ∧
      d.replace? (Resolver.rules ⟨[], none, none⟩ "m/cur") =
        some "export // \ndeclare const x: 1;\n" := by
  have hblock : ∃ d, parse "export /* c */ declare class A \x7b\x7d\n" = .ok d ∧
      (d.items.all fun item => decide item.IsDroppable,
        d.items.filterMap (modifierSpan? "export /* c */ declare class A \x7b\x7d\n".toList),
        d.edits (Resolver.rules ⟨[], none, none⟩ "m/cur"),
        d.replace? (Resolver.rules ⟨[], none, none⟩ "m/cur")) =
      (true, [⟨15, 23⟩], [], some "export /* c */ declare class A \x7b\x7d\n") :=
    exists_of_parse (by decide +kernel)
  have hline : ∃ d, parse "export // declare \ndeclare const x: 1;\n" = .ok d ∧
      (d.items.all fun item => decide item.IsDroppable,
        d.items.filterMap (modifierSpan? "export // declare \ndeclare const x: 1;\n".toList),
        d.edits (Resolver.rules ⟨[], none, none⟩ "m/cur"),
        d.replace? (Resolver.rules ⟨[], none, none⟩ "m/cur")) =
      (true, [⟨19, 27⟩], [⟨⟨10, 18⟩, ""⟩], some "export // \ndeclare const x: 1;\n") :=
    exists_of_parse (by decide +kernel)
  obtain ⟨d, hparse, hrun⟩ := hblock
  obtain ⟨d', hparse', hrun'⟩ := hline
  simp only [Prod.mk.injEq, List.all_eq_true, decide_eq_true_eq] at hrun hrun'
  exact ⟨⟨d, hparse, hrun⟩, d', hparse', hrun'⟩

end Declaration

end AmbientBundle

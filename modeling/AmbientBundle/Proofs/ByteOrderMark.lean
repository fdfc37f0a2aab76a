import AmbientBundle.Proofs.Failures

/-!
# A byte-order mark in front of a text

The mark in front of a text is not read: the offsets of all that is read count from after it. The
text that is edited still has the mark, which is three bytes long. So the references in a marked text
are replaced three bytes too early, and its modifiers are looked for three bytes too early.

* `applyFrom?_zero_shift`: edits that are moved along with their text are made in the same way.
* `Declaration.filter_edits`: the edits of references do not depend on the text that is edited.
* `Declaration.edits_afterMark_iff`: **a mark does no harm exactly if no reference is replaced, and
  all modifiers are found behind it.**
* `Declaration.reference_misplaced_by_mark`: **a reference that is replaced in the wrong place.**
-/

namespace AmbientBundle

open Source Text

/-! ### Edits that are moved -/

/-- A stretch of text that is moved. -/
def Source.Span.shift (k : Nat) (span : Span) : Span := ⟨k + span.start, k + span.stop⟩

/-- An edit that is moved. -/
def Edit.shift (k : Nat) (e : Edit) : Edit := ⟨e.span.shift k, e.text⟩

/-- An edit that comes too late, or ends past the text, does so behind a front as well. -/
theorem Edit.dropped_shift (front text : List Char) (e : Edit) (offset offset' : Nat)
    (hoffset : byteLength front + e.span.start < offset' ↔ e.span.start < offset) :
    (decide ((e.shift (byteLength front)).span.start < offset') ||
        decide (byteLength (front ++ text) < (e.shift (byteLength front)).span.stop)) =
      (decide (e.span.start < offset) || decide (byteLength text < e.span.stop)) := by
  rw [Bool.eq_iff_iff]
  simp only [Edit.shift, Span.shift, byteLength_append, Bool.or_eq_true, decide_eq_true_eq, hoffset]
  omega

/-- Edits that are moved behind a front are made in the text behind it. -/
theorem applyFrom?_shift (front text : List Char) (offset : Nat) (edits : List Edit) :
    applyFrom? (front ++ text) (byteLength front + offset)
      (edits.map (Edit.shift (byteLength front))) = applyFrom? text offset edits := by
  induction edits generalizing offset with
  | nil => exact dropBytes?_append front text offset
  | cons e edits ih =>
    have hslice : slice? (byteLength front + offset) (e.shift (byteLength front)).span.start
        (front ++ text) = slice? offset e.span.start text := slice?_append front text _ _
    have hrest : applyFrom? (front ++ text) (e.shift (byteLength front)).span.stop
        (edits.map (Edit.shift (byteLength front))) = applyFrom? text e.span.stop edits :=
      ih e.span.stop
    rw [List.map_cons, applyFrom?, applyFrom?, e.dropped_shift front text offset _ (by omega), ih,
      hslice, hrest]
    rfl

/-- The front itself is taken over as it is. -/
theorem applyFrom?_zero_shift (front text : List Char) (edits : List Edit) :
    applyFrom? (front ++ text) 0 (edits.map (Edit.shift (byteLength front))) =
      (applyFrom? text 0 edits).map (front ++ ·) := by
  induction edits with
  | nil =>
    have hall : ∀ cs : List Char, dropBytes? 0 cs = some cs :=
      fun cs => dropBytes?_eq_some.2 ⟨[], rfl, rfl⟩
    rw [List.map_nil, applyFrom?, applyFrom?, hall, hall]
    rfl
  | cons e edits ih =>
    have hslice : slice? 0 (e.shift (byteLength front)).span.start (front ++ text) =
        (slice? 0 e.span.start text).map (front ++ ·) := slice?_zero_append front text _
    have hrest : applyFrom? (front ++ text) (e.shift (byteLength front)).span.stop
        (edits.map (Edit.shift (byteLength front))) = applyFrom? text e.span.stop edits :=
      applyFrom?_shift front text e.span.stop edits
    rw [List.map_cons, applyFrom?, applyFrom?, e.dropped_shift front text 0 0 (by omega), ih, hslice,
      hrest]
    split
    · rfl
    · cases slice? 0 e.span.start text with
      | none => rfl
      | some before =>
        cases applyFrom? text e.span.stop edits with
        | none => rfl
        | some after => simp [Edit.shift, List.append_assoc]

/-- No edit stays where it is when it is moved. -/
theorem eq_nil_of_shift {k : Nat} (hk : 0 < k) {edits : List Edit}
    (h : edits = edits.map (Edit.shift k)) : edits = [] := by
  cases edits with
  | nil => rfl
  | cons e edits =>
    have hstart : e.span.start = k + e.span.start :=
      congrArg (fun e : Edit => e.span.start) (List.cons.inj h).1
    omega

/-! ### Edits of references and of modifiers -/

theorem Node.referring_ne_empty (node : Node) (id : String) : node.referring id ≠ "" := by
  intro hempty
  have hlength := congrArg String.length hempty
  cases node <;> simp [Node.referring] at hlength

namespace Source.Tree

/-- Where nothing is asked for, nothing is wanted. -/
theorem wanted_eq_nil {r : Replacer} (hr : ∀ name, r (.moduleBlock name) = Option.none) (t : Tree)
    (h : t.asked r = []) : t.wanted r = [] := by
  have heach : ∀ ts : List Tree, (∀ t ∈ ts, t.asked r = [] → t.wanted r = []) →
      ts.flatMap (asked r) = [] → ts.flatMap (wanted r) = [] := by
    intro ts hts hasked
    rw [List.flatMap_eq_nil_iff] at hasked ⊢
    exact fun t ht => hts t ht (hasked t ht)
  induction t using Source.Tree.inductionOn with
  | external span target => rwa [asked_external] at h
  | specifier target => rwa [asked_specifier] at h
  | importType target arguments options harguments hoptions =>
    rw [asked_importType] at h
    by_cases hsome : (r (.importType target)).isSome
    · obtain ⟨text, htext⟩ := Option.isSome_iff_exists.1 hsome
      have hedit : ⟨target.span, text⟩ ∈ r.editsAt (.importType target, target.span) :=
        Replacer.mem_editsAt.2 ⟨text, htext, rfl⟩
      rw [if_pos hsome] at h
      rw [(List.append_eq_nil_iff.1 h).1] at hedit
      cases hedit
    · rw [if_neg hsome] at h
      obtain ⟨hargs, hopts⟩ := List.append_eq_nil_iff.1 h
      rw [wanted_importType, r.editsAt_eq_nil (Option.not_isSome_iff_eq_none.1 hsome),
        heach options hoptions hopts, heach arguments harguments hargs]
      rfl
  | moduleBlock span name body hbody =>
    rw [asked_moduleBlock hr] at h
    rw [wanted_moduleBlock]
    exact heach body hbody h
  | parts form children hchildren =>
    rw [asked_parts, List.flatMap_eq_nil_iff] at h
    rw [wanted_parts]
    refine heach children hchildren (List.flatMap_eq_nil_iff.2 fun t ht => ?_)
    obtain ⟨i, hi⟩ := List.getElem?_of_mem ht
    exact h (t, i) (Form.mem_visit.2 (List.mem_zipIdx_iff_getElem?.2 hi))

end Source.Tree

namespace Declaration

variable {d : Declaration} {r : Resolver} {current : String}

/-- The modifiers of a file that are dropped. -/
def modifierSpans (d : Declaration) : List Span := d.items.filterMap (declareSpan? d.source.toList)

theorem text_ne_of_mem_asked {t : Tree} {e : Edit} (h : e ∈ t.asked (r.rules current)) :
    e.text ≠ "" := by
  have hwanted := Tree.asked_subset_wanted (fun _ => rfl) t h
  obtain ⟨place, hplace, hat⟩ := List.mem_flatMap.1 hwanted
  obtain ⟨text, hrule, rfl⟩ := Replacer.mem_editsAt.1 hat
  rcases Resolver.of_rules_eq_some hrule with hdeclare | ⟨-, id, -, -, rfl⟩
  · exact absurd hdeclare (t.references_ne_declareKeyword place hplace)
  · exact place.1.referring_ne_empty id

theorem flatMap_modifiers (d : Declaration) (item : Item) :
    (d.modifiers item).flatMap (r.rules current).editsAt =
      ((declareSpan? d.source.toList item).map fun span => (⟨span, ""⟩ : Edit)).toList := by
  unfold modifiers
  cases declareSpan? d.source.toList item <;> rfl

/-- **The edits of references** are those that put something in the place of what they cover. They do
not depend on the text that is edited. -/
theorem filter_edits (d : Declaration) (r : Resolver) (current : String) :
    (d.edits (r.rules current)).filter (fun e => e.text != "") =
      d.items.flatMap fun item => item.tree.asked (r.rules current) := by
  rw [edits_eq_flatMap, List.filter_flatMap]
  refine List.flatMap_congr fun item _ => ?_
  have hmodifier : ((d.modifiers item).flatMap (r.rules current).editsAt).filter
      (fun e => e.text != "") = [] := by
    rw [flatMap_modifiers]
    cases declareSpan? d.source.toList item <;> rfl
  have hasked : (item.tree.asked (r.rules current)).filter (fun e => e.text != "") =
      item.tree.asked (r.rules current) :=
    List.filter_eq_self.2 fun e he => bne_iff_ne.2 (text_ne_of_mem_asked he)
  rw [List.filter_append, hmodifier, hasked, List.nil_append]

/-- Where no reference is replaced, the edits are those of modifiers. -/
theorem edits_eq_modifiers
    (h : (d.items.flatMap fun item => item.tree.asked (r.rules current)) = []) :
    d.edits (r.rules current) = d.modifierSpans.map fun span => ⟨span, ""⟩ := by
  rw [edits_eq_flatMap, modifierSpans, List.map_filterMap, List.filterMap_eq_flatMap_toList]
  refine List.flatMap_congr fun item hitem => ?_
  rw [List.flatMap_eq_nil_iff.1 h item hitem, List.append_nil, flatMap_modifiers]

/-- No reference is replaced just if none is resolved. -/
theorem asked_eq_nil_iff (d : Declaration) (r : Resolver) (current : String) :
    (d.items.flatMap fun item => item.tree.asked (r.rules current)) = [] ↔
      ∀ place ∈ d.references, ∀ specifier, place.1.referenced? = some specifier →
        r.resolve specifier current = none := by
  constructor
  · intro hasked place hplace specifier hspecifier
    obtain ⟨item, hitem, hplace⟩ := List.mem_flatMap.1 hplace
    have hwanted := item.tree.wanted_eq_nil (fun _ => rfl) (List.flatMap_eq_nil_iff.1 hasked item hitem)
    by_contra hresolved
    obtain ⟨id, hid⟩ := Option.ne_none_iff_exists'.1 hresolved
    have hedit : ⟨place.2, place.1.referring id⟩ ∈ item.tree.wanted (r.rules current) :=
      List.mem_flatMap.2 ⟨place, hplace,
        Replacer.mem_editsAt.2 ⟨_, Resolver.rules_eq_some hspecifier hid, rfl⟩⟩
    rw [hwanted] at hedit
    cases hedit
  · intro hnone
    refine List.flatMap_eq_nil_iff.2 fun item hitem => List.eq_nil_iff_forall_not_mem.2 fun e he => ?_
    obtain ⟨place, hplace, hat⟩ :=
      List.mem_flatMap.1 (Tree.asked_subset_wanted (fun _ => rfl) item.tree he)
    obtain ⟨text, hrule, -⟩ := Replacer.mem_editsAt.1 hat
    rcases Resolver.of_rules_eq_some hrule with hdeclare | ⟨specifier, id, hspecifier, hid, -⟩
    · exact item.tree.references_ne_declareKeyword place hplace hdeclare
    · rw [hnone place (List.mem_flatMap.2 ⟨item, hitem, hplace⟩) specifier hspecifier] at hid
      cases hid

/-! ### The mark -/

/-- A text behind a byte-order mark. -/
def marked (source : String) : String := String.ofList (byteOrderMark :: source.toList)

/-- A file with a byte-order mark put in front of its text. -/
def afterMark (d : Declaration) : Declaration := { d with source := marked d.source }

theorem toList_marked (source : String) : (marked source).toList = [byteOrderMark] ++ source.toList :=
  String.toList_ofList

theorem byteLength_mark : byteLength [byteOrderMark] = 3 := by decide

/-- The same is read from a text behind a mark. -/
theorem parse_marked {source : String} (hparse : parse source = .ok d)
    (hmark : source.toList.head? ≠ some byteOrderMark) : parse (marked source) = .ok d.afterMark := by
  have hdrop : dropMark (marked source).toList = source.toList := by
    rw [toList_marked, List.singleton_append, dropMark, if_pos rfl]
  unfold parse
  rw [hdrop, readItems_of_parse hparse hmark, afterMark, source_of_parse hparse]

theorem applyEdits?_marked (source : String) (edits : List Edit) :
    applyEdits? (marked source) (edits.map (Edit.shift 3)) =
      (applyEdits? source edits).map marked := by
  have hshift := applyFrom?_zero_shift [byteOrderMark] source.toList edits
  rw [byteLength_mark] at hshift
  rw [applyEdits?, applyEdits?, toList_marked, hshift, Option.map_map, Option.map_map]
  refine congrArg (Option.map · _) (funext fun cs => ?_)
  simp [marked]

/-- **What a mark in front of a text does to its rewriting.** The marked text is read like the text
itself, and its references are replaced at the offsets at which they stand in the text without the
mark, three bytes before the place where they are. So all edits are moved along with the text just if
no reference is replaced, and the modifiers that are dropped have moved along; then the rewritten text
is that of the text itself, behind the mark. -/
theorem edits_afterMark_iff {source : String} (hparse : parse source = .ok d)
    (hmark : source.toList.head? ≠ some byteOrderMark) (r : Resolver) (current : String) :
    parse (marked source) = .ok d.afterMark ∧
    (d.afterMark.edits (r.rules current)).filter (fun e => e.text != "") =
      (d.edits (r.rules current)).filter (fun e => e.text != "") ∧
    (d.afterMark.edits (r.rules current) = (d.edits (r.rules current)).map (Edit.shift 3) ↔
      (∀ place ∈ d.references, ∀ specifier, place.1.referenced? = some specifier →
        r.resolve specifier current = none) ∧
      d.afterMark.modifierSpans = d.modifierSpans.map (Span.shift 3)) ∧
    (d.afterMark.edits (r.rules current) = (d.edits (r.rules current)).map (Edit.shift 3) →
      ∃ output, d.replace? (r.rules current) = some output ∧
        d.afterMark.replace? (r.rules current) = some (marked output)) := by
  have hreferences : (d.afterMark.edits (r.rules current)).filter (fun e => e.text != "") =
      (d.edits (r.rules current)).filter (fun e => e.text != "") := by
    rw [filter_edits, filter_edits]
    rfl
  -- where no reference is replaced, the edits move with the modifiers
  have hmodifiers : (d.items.flatMap fun item => item.tree.asked (r.rules current)) = [] →
      (d.afterMark.edits (r.rules current) = (d.edits (r.rules current)).map (Edit.shift 3) ↔
        d.afterMark.modifierSpans = d.modifierSpans.map (Span.shift 3)) := by
    intro hasked
    have hinjective : Function.Injective fun span => (⟨span, ""⟩ : Edit) :=
      fun a b hab => congrArg Edit.span hab
    have hmove : (d.modifierSpans.map fun span => (⟨span, ""⟩ : Edit)).map (Edit.shift 3) =
        (d.modifierSpans.map (Span.shift 3)).map fun span => ⟨span, ""⟩ := by
      rw [List.map_map, List.map_map]
      rfl
    rw [edits_eq_modifiers hasked, @edits_eq_modifiers d.afterMark _ _ hasked, hmove,
      (List.map_injective_iff.2 hinjective).eq_iff]
  refine ⟨parse_marked hparse hmark, hreferences, ?_, fun hmoved => ?_⟩
  · rw [← asked_eq_nil_iff]
    refine ⟨fun hmoved => ?_, fun ⟨hasked, hspans⟩ => (hmodifiers hasked).2 hspans⟩
    -- the edits of references are the same in both, so there are none if they have moved
    have hnil : (d.edits (r.rules current)).filter (fun e => e.text != "") = [] := by
      refine eq_nil_of_shift (k := 3) (by omega) ?_
      nth_rewrite 1 [← hreferences]
      rw [hmoved, List.filter_map]
      rfl
    rw [filter_edits] at hnil
    exact ⟨hnil, (hmodifiers hnil).1 hmoved⟩
  · obtain ⟨output, houtput⟩ := exists_replace? hparse hmark (r := r.rules current) fun _ => rfl
    refine ⟨output, houtput, ?_⟩
    rw [replace?] at houtput
    rw [replace?, hmoved, afterMark, applyEdits?_marked, houtput]
    rfl

/-- A text in which the word that is dropped stands in a comment before the modifier. -/
def commentedSample : String := "import 'x';export // declare \n\n\n\ndeclare const y: 1;"

theorem edits_afterMark_iff_comment : ∃ d, parse commentedSample = .ok d ∧
    commentedSample.toList.head? ≠ some byteOrderMark ∧
    d.edits (Resolver.rules ⟨[], none, none⟩ "m/cur") = [⟨⟨21, 29⟩, ""⟩] ∧
    d.afterMark.edits (Resolver.rules ⟨[], none, none⟩ "m/cur") = [⟨⟨24, 32⟩, ""⟩] ∧
    d.afterMark.modifierSpans = d.modifierSpans.map (Span.shift 3) ∧
    d.afterMark.replace? (Resolver.rules ⟨[], none, none⟩ "m/cur") =
      some (marked "import 'x';export // \n\n\n\ndeclare const y: 1;") := by
  have hmark : commentedSample.toList.head? ≠ some byteOrderMark := by decide +kernel
  have hrun : ∃ d, parse commentedSample = .ok d ∧
      (d.edits (Resolver.rules ⟨[], none, none⟩ "m/cur"),
        d.afterMark.edits (Resolver.rules ⟨[], none, none⟩ "m/cur"),
        d.replace? (Resolver.rules ⟨[], none, none⟩ "m/cur")) =
      ([⟨⟨21, 29⟩, ""⟩], [⟨⟨24, 32⟩, ""⟩],
        some "import 'x';export // \n\n\n\ndeclare const y: 1;") :=
    exists_of_parse (by decide +kernel)
  obtain ⟨d, hparse, hrun⟩ := hrun
  simp only [Prod.mk.injEq] at hrun
  obtain ⟨hedits, hmarked, hreplace⟩ := hrun
  obtain ⟨-, -, hiff, hsame⟩ := edits_afterMark_iff hparse hmark ⟨[], none, none⟩ "m/cur"
  have hmoved : d.afterMark.edits (Resolver.rules ⟨[], none, none⟩ "m/cur") =
      (d.edits (Resolver.rules ⟨[], none, none⟩ "m/cur")).map (Edit.shift 3) := by
    rw [hedits, hmarked]
    rfl
  obtain ⟨output, houtput, hbehind⟩ := hsame hmoved
  obtain rfl := Option.some.inj (hreplace.symm.trans houtput)
  exact ⟨d, hparse, hmark, hedits, hmarked, (hiff.1 hmoved).2, hbehind⟩

/-- **A reference that is replaced in the wrong place.** The literal of the marked text stands from
offset 17 to offset 22; its replacement comes three bytes too early, and the end of the literal is
left over. -/
theorem reference_misplaced_by_mark :
    (∃ d, parse "export * from './b';\n" = .ok d ∧
      d.edits (Resolver.rules ⟨[], none, none⟩ "m/cur") = [⟨⟨14, 19⟩, "'m/b'"⟩] ∧
      d.replace? (Resolver.rules ⟨[], none, none⟩ "m/cur") = some "export * from 'm/b';\n") ∧
    ∃ d, parse (marked "export * from './b';\n") = .ok d ∧
      d.edits (Resolver.rules ⟨[], none, none⟩ "m/cur") = [⟨⟨14, 19⟩, "'m/b'"⟩] ∧
      d.replace? (Resolver.rules ⟨[], none, none⟩ "m/cur") =
        some (marked "export * fr'm/b'/b';\n") := by
  have hplain : ∃ d, parse "export * from './b';\n" = .ok d ∧
      (d.edits (Resolver.rules ⟨[], none, none⟩ "m/cur"),
        d.replace? (Resolver.rules ⟨[], none, none⟩ "m/cur")) =
      ([⟨⟨14, 19⟩, "'m/b'"⟩], some "export * from 'm/b';\n") :=
    exists_of_parse (by decide +kernel)
  have hmarked : ∃ d, parse (marked "export * from './b';\n") = .ok d ∧
      (d.edits (Resolver.rules ⟨[], none, none⟩ "m/cur"),
        d.replace? (Resolver.rules ⟨[], none, none⟩ "m/cur")) =
      ([⟨⟨14, 19⟩, "'m/b'"⟩], some (marked "export * fr'm/b'/b';\n")) :=
    exists_of_parse (by decide +kernel)
  obtain ⟨d, hparse, hrun⟩ := hplain
  obtain ⟨d', hparse', hrun'⟩ := hmarked
  exact ⟨⟨d, hparse, Prod.mk.inj hrun⟩, d', hparse', Prod.mk.inj hrun'⟩

end Declaration

end AmbientBundle

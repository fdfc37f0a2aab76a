import AmbientBundle.Proofs.Rewriting

/-!
# Edits as splices

Edits are applied in one pass over the text, which leaves out those that come too late. The outcome
is the same as if the edits that are kept were made one at a time, each in the whole text, from the
last one to the first: made in this order, no edit moves the text that another one is about.

* `keptEdits`: the edits that are kept, each by the end of the one kept before it.
* `Edit.splice?`: one edit made in a whole text.
* `Edit.FallsBetween`: edits that can be made without cutting through a character.
* `exists_spliced_of_applyFrom?`: a pass from some offset on makes the edits that are kept.
* `Spliced.foldrM_splice?`: what edits make of a text one at a time.
* `applyEdits?_eq_splices`: **applying edits is splicing those that are kept.**
-/

namespace AmbientBundle

open Source Text

/-! ### Edits that are kept -/

/-- Where the last edit ends; the front of the text if there is none. -/
def lastStop (edits : List Edit) : Nat := (edits.getLast?.map fun e => e.span.stop).getD 0

/-- An edit after those that are kept so far: it is kept if it starts where the last one ends or
later, and ends within the text. -/
def keepEdit (limit : Nat) (kept : List Edit) (e : Edit) : List Edit :=
  if lastStop kept ≤ e.span.start ∧ e.span.stop ≤ limit then kept ++ [e] else kept

/-- **The edits that are kept** in a text with a given number of bytes, taken as they come. -/
def keptEdits (limit : Nat) (edits : List Edit) : List Edit := edits.foldl (keepEdit limit) []

/-- The edits that are kept from an offset on. -/
def keptFrom (limit : Nat) : Nat → List Edit → List Edit
  | _, [] => []
  | offset, e :: edits =>
    if offset ≤ e.span.start ∧ e.span.stop ≤ limit then e :: keptFrom limit e.span.stop edits
    else keptFrom limit offset edits

theorem lastStop_concat (edits : List Edit) (e : Edit) : lastStop (edits ++ [e]) = e.span.stop := by
  rw [lastStop, List.getLast?_concat]
  rfl

/-- What is kept depends on what came before through the end of the last edit alone. -/
theorem foldl_keepEdit (limit : Nat) (kept edits : List Edit) :
    edits.foldl (keepEdit limit) kept = kept ++ keptFrom limit (lastStop kept) edits := by
  induction edits generalizing kept with
  | nil => rw [List.foldl_nil, keptFrom, List.append_nil]
  | cons e edits ih =>
    rw [List.foldl_cons, ih, keptFrom]
    by_cases hkept : lastStop kept ≤ e.span.start ∧ e.span.stop ≤ limit
    · have hkeep : keepEdit limit kept e = kept ++ [e] := if_pos hkept
      rw [hkeep, lastStop_concat, if_pos hkept, List.append_assoc, List.singleton_append]
    · have hkeep : keepEdit limit kept e = kept := if_neg hkept
      rw [hkeep, if_neg hkept]

theorem keptEdits_eq_keptFrom (limit : Nat) (edits : List Edit) :
    keptEdits limit edits = keptFrom limit 0 edits := by
  have hfold := foldl_keepEdit limit [] edits
  rwa [List.nil_append] at hfold

/-! ### One edit at a time -/

/-- **One edit made in a text**: what stands before its span, its own text, and what stands after
its span. -/
def Edit.splice? (e : Edit) (text : List Char) : Option (List Char) := do
  let (before, _) ← splitAtByte? e.span.start text
  let after ← dropBytes? e.span.stop text
  return before ++ e.text.toList ++ after

theorem Edit.splice?_append {e : Edit} {before old after : List Char}
    (hspan : e.span = ⟨byteLength before, byteLength (before ++ old)⟩) :
    e.splice? (before ++ old ++ after) = some (before ++ e.text.toList ++ after) := by
  have hstart : splitAtByte? e.span.start (before ++ old ++ after) = some (before, old ++ after) := by
    refine splitAtByte?_eq_some.2 ⟨List.append_assoc _ _ _, ?_⟩
    rw [hspan]
  have hstop : dropBytes? e.span.stop (before ++ old ++ after) = some after := by
    refine dropBytes?_eq_some.2 ⟨before ++ old, rfl, ?_⟩
    rw [hspan]
  rw [splice?, hstart, hstop]
  rfl

/-- **Edits made one at a time, the last one first**, give the text that is spliced with all of
them. -/
theorem Spliced.foldrM_splice? {text result : List Char} {offset : Nat} {edits : List Edit}
    (h : Spliced text offset edits result) {front : List Char} (hfront : byteLength front = offset) :
    edits.foldrM Edit.splice? (front ++ text) = some (front ++ result) := by
  induction h generalizing front with
  | rest text offset => rfl
  | @edit gap old text result offset e edits hspan _ ih =>
    -- the later edits leave alone what stands up to the end of this one
    have hlater : edits.foldrM Edit.splice? (front ++ gap ++ old ++ text) =
        some (front ++ gap ++ old ++ result) := by
      apply ih
      rw [List.append_assoc, byteLength_append, hfront]
    have hthis : e.splice? (front ++ gap ++ old ++ result) =
        some (front ++ gap ++ e.text.toList ++ result) := by
      apply Edit.splice?_append
      rw [hspan, ← hfront, List.append_assoc, byteLength_append front, byteLength_append front]
    have htext : front ++ (gap ++ old ++ text) = front ++ gap ++ old ++ text := by
      simp only [List.append_assoc]
    have hresult : front ++ (gap ++ e.text.toList ++ result) =
        front ++ gap ++ e.text.toList ++ result := by
      simp only [List.append_assoc]
    rw [htext, hresult, List.foldrM_cons, hlater]
    exact hthis

/-! ### One pass -/

/-- **An edit that can be made in a text**: it does not end before it starts, and unless it ends past
the text, it cuts through no character. -/
structure Edit.FallsBetween (source : List Char) (e : Edit) : Prop where
  start_le : e.span.start ≤ e.span.stop
  boundaries : e.span.stop ≤ byteLength source →
    IsBoundary source e.span.start ∧ IsBoundary source e.span.stop

instance (source : List Char) (e : Edit) : Decidable (e.FallsBetween source) :=
  decidable_of_iff (e.span.start ≤ e.span.stop ∧ (e.span.stop ≤ byteLength source →
      IsBoundary source e.span.start ∧ IsBoundary source e.span.stop))
    ⟨fun ⟨h1, h2⟩ => ⟨h1, h2⟩, fun h => ⟨h.start_le, h.boundaries⟩⟩

/-- **A pass over the rest of a text** makes the edits that are kept from there on, and nothing
else. -/
theorem exists_spliced_of_applyFrom? {source front text : List Char} {edits : List Edit}
    (hsource : source = front ++ text) (h : ∀ e ∈ edits, e.FallsBetween source) :
    ∃ result, applyFrom? source (byteLength front) edits = some result ∧
      Spliced text (byteLength front) (keptFrom (byteLength source) (byteLength front) edits)
        result := by
  induction edits generalizing front text with
  | nil => exact ⟨text, dropBytes?_eq_some.2 ⟨front, hsource, rfl⟩, .rest text _⟩
  | cons e edits ih =>
    have he := h e List.mem_cons_self
    have hedits : ∀ e' ∈ edits, e'.FallsBetween source :=
      fun e' he' => h e' (List.mem_cons_of_mem _ he')
    rw [keptFrom]
    by_cases hkept : byteLength front ≤ e.span.start ∧ e.span.stop ≤ byteLength source
    · obtain ⟨hstart, hstop⟩ := he.boundaries hkept.2
      obtain ⟨gap, old, after, rfl, hspan⟩ :=
        Edit.exists_cut hsource hkept.1 he.start_le hstart hstop
      have hafter : source = front ++ (gap ++ old) ++ after := by
        rw [hsource, List.append_assoc front]
      have hoffset : byteLength (front ++ (gap ++ old)) = e.span.stop := by
        rw [hspan, byteLength_append front]
      obtain ⟨result, happly, hspliced⟩ := ih hafter hedits
      rw [if_pos hkept]
      refine ⟨gap ++ e.text.toList ++ result, applyFrom?_cut hsource hspan happly, .edit hspan ?_⟩
      rw [← hoffset, ← byteLength_append front]
      exact hspliced
    · have hdropped : (e.span.start < byteLength front || byteLength source < e.span.stop) = true := by
        simp only [Bool.or_eq_true, decide_eq_true_eq]
        omega
      rw [applyFrom?, if_pos hdropped, if_neg hkept]
      exact ih hsource hedits

/-! ### Whole texts -/

theorem Declaration.edits_never (d : Declaration) : d.edits (fun _ => none) = [] := by
  have hwanted : d.wanted (fun _ => none) = [] :=
    List.flatMap_eq_nil_iff.2 fun place _ => Replacer.editsAt_eq_nil _ rfl
  have hsub : d.edits (fun _ => none) ⊆ d.wanted (fun _ => none) :=
    edits_subset_wanted fun _ => rfl
  rw [hwanted] at hsub
  exact List.subset_nil.1 hsub

/-- **Applying edits is splicing those that are kept.** Whatever the order of the edits, and however
they overlap, the outcome is that of making the kept ones one at a time from the last to the first,
and the text between their spans is taken over as it is. So a replacer that never replaces leaves a
file as it is. -/
theorem applyEdits?_eq_splices :
    (∀ (source : String) (edits : List Edit), (∀ e ∈ edits, e.FallsBetween source.toList) →
      ∃ output, applyEdits? source edits = some output ∧
        (keptEdits (byteLength source.toList) edits).foldrM Edit.splice? source.toList =
          some output.toList ∧
        Spliced source.toList 0 (keptEdits (byteLength source.toList) edits) output.toList) ∧
    ∀ d : Declaration, d.replace? (fun _ => none) = some d.source := by
  constructor
  · intro source edits h
    obtain ⟨result, happly, hspliced⟩ :=
      exists_spliced_of_applyFrom? (List.nil_append source.toList).symm h
    rw [keptEdits_eq_keptFrom]
    refine ⟨String.ofList result, ?_, ?_, ?_⟩
    · exact congrArg (Option.map String.ofList) happly
    · rw [String.toList_ofList]
      exact @Spliced.foldrM_splice? _ _ _ _ hspliced [] rfl
    · rw [String.toList_ofList]
      exact hspliced
  · intro d
    have hrest : dropBytes? 0 d.source.toList = some d.source.toList :=
      dropBytes?_eq_some.2 ⟨[], rfl, rfl⟩
    rw [Declaration.replace?, d.edits_never, applyEdits?, applyFrom?, hrest, Option.map_some,
      String.ofList_toList]

/-- Edits of a text with wide characters: one that overlaps the first, one next to it, an empty one,
one that comes too late, one past the end, and one at the end. -/
def crossingEdits : List Edit :=
  [⟨⟨2, 4⟩, "x"⟩, ⟨⟨1, 5⟩, "y"⟩, ⟨⟨4, 5⟩, "z"⟩, ⟨⟨5, 5⟩, "w"⟩, ⟨⟨0, 1⟩, "q"⟩, ⟨⟨8, 20⟩, "p"⟩,
    ⟨⟨8, 9⟩, ""⟩]

theorem applyEdits?_eq_splices_crossing :
    (∀ e ∈ crossingEdits, e.FallsBetween "abéd€f".toList) ∧
    keptEdits 9 crossingEdits = [⟨⟨2, 4⟩, "x"⟩, ⟨⟨4, 5⟩, "z"⟩, ⟨⟨5, 5⟩, "w"⟩, ⟨⟨8, 9⟩, ""⟩] ∧
    applyEdits? "abéd€f" crossingEdits = some "abxzw€" ∧
    (keptEdits 9 crossingEdits).foldrM Edit.splice? "abéd€f".toList = some "abxzw€".toList := by
  have hfalls : ∀ e ∈ crossingEdits, e.FallsBetween "abéd€f".toList := by decide
  have happly : applyEdits? "abéd€f" crossingEdits = some "abxzw€" := by decide
  obtain ⟨output, houtput, hsplices, -⟩ := applyEdits?_eq_splices.1 "abéd€f" crossingEdits hfalls
  obtain rfl := Option.some.inj (happly.symm.trans houtput)
  exact ⟨hfalls, by decide, happly, hsplices⟩

end AmbientBundle

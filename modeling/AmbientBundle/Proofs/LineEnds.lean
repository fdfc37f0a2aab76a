import AmbientBundle.Proofs.MainAlias

/-!
# Line ends between the pieces of a bundle

The pieces of a bundle are written one after the other with nothing between them. References, blocks
and the alias end their last line themselves. Declaration files and scripts are taken over as they
are, and where such a text does not end its last line, the next piece goes on in that line.

* `atLineStart_referenceText`, `atLineStart_moduleBlock`, `atLineStart_aliasBlock`: what the bundle
  writes itself ends its last line.
* `starts_iff`: texts start lines if each of those before them ends its last line.
* `pieces_start_lines_iff`: **the pieces of a bundle run together exactly if a text that is taken
  over does not end its last line.**
-/

namespace AmbientBundle

/-! ### Texts that end their last line -/

/-- **A text after which a line starts**: it is empty, or ends its last line. -/
def AtLineStart (text : String) : Prop := text = "" ∨ text.toList.getLast? = some '\n'

instance (text : String) : Decidable (AtLineStart text) := inferInstanceAs (Decidable (_ ∨ _))

/-- The line ends of a bundle. -/
def IsLineEnd (eol : String) : Prop := eol = "\n" ∨ eol = "\r\n"

namespace AtLineStart

variable {a b eol : String}

theorem empty : AtLineStart "" := Or.inl rfl

/-- After a text that is not empty, what stands before it does not matter. -/
theorem append_iff (hb : b ≠ "") : AtLineStart (a ++ b) ↔ AtLineStart b := by
  have hne : b.toList ≠ [] := fun h => hb (by simpa using h)
  have hab : a ++ b ≠ "" := by
    intro h
    have htext := congrArg String.toList h
    rw [String.toList_append] at htext
    exact hne (List.append_eq_nil_iff.1 htext).2
  have hlast : (a ++ b).toList.getLast? = b.toList.getLast? := by
    rw [String.toList_append, List.getLast?_append_of_ne_nil _ hne]
  constructor
  · rintro (h | h)
    · exact absurd h hab
    · exact Or.inr (hlast ▸ h)
  · rintro (h | h)
    · exact absurd h hb
    · exact Or.inr (hlast.trans h)

theorem append (ha : AtLineStart a) (hb : AtLineStart b) : AtLineStart (a ++ b) := by
  by_cases hempty : b = ""
  · rwa [hempty, String.append_empty]
  · exact (append_iff hempty).2 hb

/-- A text that starts a line after one that does must end its last line. -/
theorem of_append (h : AtLineStart (a ++ b)) : AtLineStart b := by
  by_cases hempty : b = ""
  · exact hempty ▸ empty
  · exact (append_iff hempty).1 h

theorem join {texts : List String} (h : ∀ t ∈ texts, AtLineStart t) :
    AtLineStart (String.join texts) := by
  induction texts with
  | nil => exact empty
  | cons t texts ih =>
    rw [String.join_cons]
    exact (h t List.mem_cons_self).append (ih fun s hs => h s (List.mem_cons_of_mem _ hs))

/-- Whatever stands before a line end. -/
theorem append_eol (h : IsLineEnd eol) (text : String) : AtLineStart (text ++ eol) := by
  have hne : eol ≠ "" := by
    rcases h with rfl | rfl <;> decide
  refine (append_iff hne).2 ?_
  rcases h with rfl | rfl
  · decide
  · decide

end AtLineStart

/-- **Texts start lines**, one after the other, exactly if each of them ends its last line. -/
theorem starts_iff {front : String} (hfront : AtLineStart front) (texts : List String) :
    (∀ before t after, texts = before ++ t :: after → AtLineStart (front ++ String.join before)) ∧
        AtLineStart (front ++ String.join texts) ↔
      ∀ t ∈ texts, AtLineStart t := by
  constructor
  · rintro ⟨hstarts, hend⟩ t ht
    obtain ⟨before, after, rfl⟩ := List.append_of_mem ht
    -- the text after this one starts a line, and so does what comes after all texts
    have hnext : AtLineStart (front ++ String.join (before ++ [t])) := by
      cases after with
      | nil => exact hend
      | cons s after => exact hstarts (before ++ [t]) s after (by simp)
    have hjoin : String.join (before ++ [t]) = String.join before ++ t := by
      rw [String.join_append, String.join_cons]
      exact congrArg _ String.append_empty
    rw [hjoin, ← String.append_assoc] at hnext
    exact hnext.of_append
  · intro h
    refine ⟨?_, hfront.append (AtLineStart.join h)⟩
    intro before t after htexts
    refine hfront.append (AtLineStart.join fun s hs => h s ?_)
    rw [htexts]
    exact List.mem_append_left _ hs

/-! ### What a bundle writes itself -/

section Written

variable {layout : Layout} {o : Options}

theorem atLineStart_moduleBlock (h : IsLineEnd layout.eol) (id content : String) :
    AtLineStart (moduleBlock layout id content) := by
  unfold moduleBlock blockFooter
  rw [← String.append_assoc]
  exact AtLineStart.append_eol h _

theorem atLineStart_aliasBlock (h : IsLineEnd layout.eol) (target : Target) (shape : ExportShape)
    (name main : String) : AtLineStart (aliasBlock layout target shape name main) := by
  unfold aliasBlock blockFooter
  rw [← String.append_assoc]
  exact AtLineStart.append_eol h _

theorem atLineStart_referenceText (h : IsLineEnd o.effectiveEol) :
    AtLineStart (referenceText o) := by
  refine AtLineStart.append (AtLineStart.join ?_) (AtLineStart.join ?_)
  · intro t ht
    obtain ⟨path, -, rfl⟩ := List.mem_map.1 ht
    exact AtLineStart.append_eol h _
  · intro t ht
    obtain ⟨name, -, rfl⟩ := List.mem_map.1 ht
    exact AtLineStart.append_eol h _

theorem atLineStart_aliasText (h : IsLineEnd o.effectiveEol) (plan : Plan)
    (units : List CompilationUnit) : AtLineStart (aliasText plan o units) := by
  unfold aliasText
  split
  · exact atLineStart_aliasBlock h _ _ _ _
  · exact AtLineStart.empty

end Written

/-! ### What is taken over -/

/-- **A unit whose text is taken over as it is**: a declaration file, or declarations that make no
module. -/
def CompilationUnit.IsTakenOver (unit : CompilationUnit) : Prop :=
  unit.kind = .declaration ∨ unit.kind = .emitted ∧ unit.module? = none

/-- **What an accepted unit adds** is its own text, or ends its last line. -/
theorem unitText_cases {plan : Plan} {o : Options} {declared : List String} {unit : CompilationUnit}
    {added : Contribution} (heol : IsLineEnd o.effectiveEol) (haccept : plan.accepts unit = true)
    (h : (BundleContext.declaring plan o declared).contribution unit = .ok added) :
    unit.IsTakenOver ∧ unitText plan o declared unit = unit.text ∨
      ¬ unit.IsTakenOver ∧ AtLineStart (unitText plan o declared unit) := by
  have htext := entry_of_contribution haccept h
  rcases contribution_eq_ok h with ⟨hkind, rfl⟩ | ⟨hkind, rfl⟩ | ⟨hkind, d, hparse, hadded⟩
  · refine Or.inr ⟨?_, htext ▸ AtLineStart.empty⟩
    rintro (hk | ⟨hk, -⟩) <;> rw [hkind] at hk <;> cases hk
  · exact Or.inl ⟨Or.inl hkind, htext.symm⟩
  · rcases hadded with ⟨hmodule, hadded⟩ | ⟨hscript, rfl⟩
    · have hsome := CompilationUnit.module?_eq_some.2 ⟨hkind, hparse, hmodule⟩
      refine Or.inr ⟨?_, ?_⟩
      · rintro (hk | ⟨-, hnone⟩)
        · rw [hkind] at hk
          cases hk
        · rw [hsome] at hnone
          cases hnone
      · obtain ⟨content, -, rfl⟩ := moduleContribution_inv hadded
        rw [← htext]
        exact atLineStart_moduleBlock heol _ _
    · have hnone : unit.module? = none := by
        unfold CompilationUnit.module?
        rw [hparse]
        simp [Except.toOption, hscript]
      exact Or.inl ⟨Or.inr ⟨hkind, hnone⟩, htext.symm⟩

/-! ### Runs -/

section Runs

variable {emit : Emitter} {w : Workspace} {plan : Plan} {o : Options} {c : Compilation}

/-- **The pieces of a bundle run together exactly if a text that is taken over does not end its last
line.** The output is the references, what the accepted units add, and the alias. Each unit and the
alias start a line, and the output ends its last line, if and only if all texts that are taken over
end theirs. -/
theorem pieces_start_lines_iff (hw : w.IsRooted) (hplan : Plan.resolve w o = .ok plan)
    (hemit : emit.Gives w o c) (hok : (generateWith emit w o).result = .ok ())
    (heol : IsLineEnd o.effectiveEol) :
    let accepted := c.units.filter plan.accepts
    let text := unitText plan o (declaredNames c.units)
    (generateWith emit w o).workspace.readText plan.out =
        .ok (referenceText o ++ String.join (accepted.map text) ++ aliasText plan o c.units) ∧
      ((∀ before unit after, accepted = before ++ unit :: after →
          AtLineStart (referenceText o ++ String.join (before.map text))) ∧
        AtLineStart (referenceText o ++ String.join (accepted.map text)) ∧
        AtLineStart (referenceText o ++ String.join (accepted.map text) ++ aliasText plan o c.units) ↔
      ∀ unit ∈ accepted, unit.IsTakenOver → AtLineStart unit.text) := by
  intro accepted text
  obtain ⟨hfault, hread⟩ := readText_of_ok hw hplan hemit hok
  have hdiagnostics := diagnostics_eq_nil_of_fault hfault
  rw [bundleText_eq hdiagnostics hfault, ← join_unitText_filter] at hread
  refine ⟨hread, ?_⟩
  have hunits : ∀ unit ∈ accepted, (AtLineStart (text unit) ↔
      (unit.IsTakenOver → AtLineStart unit.text)) := by
    intro unit hunit
    rw [progressOf_eq hdiagnostics] at hfault
    obtain ⟨added, -, hadd⟩ := exists_added_of_mem hfault hunit
    rcases unitText_cases heol (List.mem_filter.1 hunit).2 hadd with ⟨htaken, htext⟩ | ⟨hown, hends⟩
    · rw [show text unit = unit.text from htext]
      exact ⟨fun h _ => h, fun h => h htaken⟩
    · exact ⟨fun _ htaken => absurd htaken hown, fun _ => hends⟩
  have hstarts := starts_iff (atLineStart_referenceText heol) (accepted.map text)
  constructor
  · rintro ⟨hbefore, hend, -⟩ unit hunit
    refine (hunits unit hunit).1 (hstarts.1 ⟨?_, hend⟩ _ (List.mem_map_of_mem hunit))
    intro front t back hsplit
    obtain ⟨before, rest, heq, rfl, hrest⟩ := List.map_eq_append_iff.1 hsplit
    obtain ⟨unit', after, rfl, -, -⟩ := List.map_eq_cons_iff.1 hrest
    exact hbefore before unit' after heq
  · intro h
    have htexts : ∀ t ∈ accepted.map text, AtLineStart t := by
      intro t ht
      obtain ⟨unit, hunit, rfl⟩ := List.mem_map.1 ht
      exact (hunits unit hunit).2 (h unit hunit)
    obtain ⟨hbefore, hend⟩ := hstarts.2 htexts
    refine ⟨?_, hend, hend.append (atLineStart_aliasText heol plan c.units)⟩
    intro before unit after heq
    refine hbefore (before.map text) (text unit) (after.map text) ?_
    rw [heq, List.map_append, List.map_cons]

end Runs

/-! ### A small program -/

namespace Sample

/-- A declaration file of the package that ends its last line. -/
def endedUnit : CompilationUnit := .declaration ⟨"/work/src/g.d.ts"⟩ "declare var x;\r\n" []

/-- A declaration file of the package that ends with a comment in its last line. -/
def openUnit : CompilationUnit := .declaration ⟨"/work/src/g.d.ts"⟩ "declare var x; // end" []

end Sample

theorem pieces_start_lines_iff_ended : ∃ plan,
    Plan.resolve Sample.workspace Sample.options = .ok plan ∧
    (generateWith (Sample.emitting [Sample.endedUnit, Sample.mainUnit]) Sample.workspace
      Sample.options).result = .ok () ∧
    [Sample.endedUnit, Sample.mainUnit].filter plan.accepts = [Sample.endedUnit, Sample.mainUnit] ∧
    AtLineStart (referenceText Sample.options ++ String.join ([Sample.endedUnit].map
      (unitText plan Sample.options (declaredNames [Sample.endedUnit, Sample.mainUnit])))) := by
  obtain ⟨plan, hplan⟩ := Sample.exists_plan
  have hrooted : Sample.workspace.IsRooted := by decide +kernel
  have hok : (generateWith (Sample.emitting [Sample.endedUnit, Sample.mainUnit]) Sample.workspace
      Sample.options).result = .ok () := by decide +kernel
  have hcheck : ((Plan.resolve Sample.workspace Sample.options).map fun plan : Plan =>
      decide ([Sample.endedUnit, Sample.mainUnit].filter plan.accepts =
        [Sample.endedUnit, Sample.mainUnit])) = .ok true := by
    decide +kernel
  rw [hplan] at hcheck
  have haccepted := of_decide_eq_true (Except.ok.inj hcheck)
  have h := pieces_start_lines_iff hrooted hplan
    (Sample.emitting_gives Sample.workspace Sample.options [Sample.endedUnit, Sample.mainUnit]) hok
    (Or.inl rfl)
  have hends : ∀ unit ∈ [Sample.endedUnit, Sample.mainUnit], unit.IsTakenOver →
      AtLineStart unit.text := by
    intro unit hunit _
    rcases List.mem_cons.1 hunit with rfl | hunit
    · decide
    · rw [List.mem_singleton.1 hunit]
      decide
  refine ⟨plan, hplan, hok, haccepted, ?_⟩
  exact (h.2.2 (haccepted.symm ▸ hends)).1 [Sample.endedUnit] Sample.mainUnit [] haccepted

/-- **A block that is commented out.** The declaration file ends with a comment, and the header of
the next block stands in the same line. -/
theorem block_commented_out :
    ((Plan.resolve Sample.workspace Sample.options).map fun plan =>
      [Sample.openUnit, Sample.mainUnit].map plan.accepts) = .ok [true, true] ∧
    (generateWith (Sample.emitting [Sample.openUnit, Sample.mainUnit]) Sample.workspace
      Sample.options).result = .ok () ∧
    (generateWith (Sample.emitting [Sample.openUnit, Sample.mainUnit]) Sample.workspace
        Sample.options).workspace.readText ⟨"/work/out.d.ts"⟩ =
      .ok ("/// <reference path=\"e.d.ts\" />\ndeclare var x; // enddeclare module 'q/p/a' \x7b\n\t" ++
        "export * from 'q/p/b';\n\n\x7d\n" ++
        "declare module 'p' \x7b\n\texport * from 'p/a';\n\x7d\n") := by
  decide +kernel

end AmbientBundle

import AmbientBundle.Proofs.Layout.Types
import AmbientBundle.Source.Grammar.Classes

/-!
# Expressions and classes keep references in order

One lemma for each reader, in the order of the grammar.

* `After.subscripts`: members and calls after an expression.
* `After.parenthesized`: parentheses, and arrow functions that start with them.
* `Lays.assignmentExpression`: expressions.
* `Lays.classFrom`: classes.
-/

namespace AmbientBundle.Source

open Laid Reading

variable {text : List Char} {acc : List Span} (g : Grammar) [g.Laying text]

/-! ### Lists and object literals -/

namespace Lays

instance commaExpression : Lays text (commaExpression g) where
  after := by
    refine .within _ (.take fun first hfirst => .take (h := .collect (h := ⟨?_⟩)) fun more _ => ?_)
    · exact .step fun _ => .ite (.take fun _ _ => .pure (by simp)) (.pure (by simp))
    · exact .ite (.pure (by simp) hfirst) (.pure (by simp))

instance spreadElement : Lays text (spreadElement g) where
  after := .step fun _ => .tail

instance arguments : Lays text (arguments g) where
  after := .within _ (.step fun _ => .take fun _ _ => .step fun _ => .pure (by simp))

instance arrayLiteral : Lays text (arrayLiteral g) where
  after := by
    unfold Reading.arrayLiteral
    refine .step fun _ => .take (h := .collect (h := ⟨?_⟩)) fun trees _ => ?_
    · refine .step fun _ => .ite (.pure (by simp)) (.step fun _ => .ite (.pure (by simp)) ?_)
      exact .take fun _ _ => .step fun _ => .stepUnless (.pure (by simp))
    · exact .step fun _ => .pure (by simp)

instance objectGetter : Lays text (objectGetter g) where
  after := by
    unfold Reading.objectGetter
    refine .take fun tree _ => ?_
    split
    · exact .pure (by simp)
    · exact .pure (by simp)

instance objectSetter : Lays text (objectSetter g) where
  after := by
    unfold Reading.objectSetter
    refine .take fun tree _ => ?_
    split
    · exact .pure (by simp)
    · exact .pure (by simp)

instance propertyAfterWord (name : String) : Lays text (propertyAfterWord g name) where
  after := by
    unfold Reading.propertyAfterWord
    refine .step fun _ => .step fun t => ?_
    split
    · exact .step fun _ => .tail
    · exact .pure (by simp)
    · exact .pure (by simp)
    · split
      · exact .take fun _ _ => .take fun _ _ => .pure (by simp)
      · exact .take fun _ _ => .take fun _ _ => .pure (by simp)
      · exact .step fun _ => .take fun _ _ => .take fun _ _ => .pure (by simp)
      · exact .unexpected

instance objectProperty : Lays text (objectProperty g) where
  after := by
    unfold Reading.objectProperty
    refine .step fun _ => .ite .tail (.step fun _ => .ite ?_ ?_)
    · exact .take fun _ _ => .take fun _ _ => .pure (by simp)
    · refine .step fun _ => .take fun key _ => .step fun _ => .ite ?_ (.pure (by simp))
      refine .step fun _ => .ite (.take fun _ _ => .pure (by simp)) ?_
      refine .step fun _ => .step fun _ => .ite (.take fun _ _ => .pure (by simp)) ?_
      split
      · exact .tail
      · exact .unexpected

instance objectLiteral : Lays text (objectLiteral g) where
  after := .step fun _ => .take fun _ _ => .step fun _ => .pure (by simp)

end Lays

/-! ### Members and calls -/

instance Lays.bareTypeArguments? : Lays text (bareTypeArguments? g) where
  after := by
    refine .step fun _ => .ite (.attempt (.take fun types _ => .step fun t => ?_)) (.pure (by simp))
    split <;> try exact .pure (by simp)
    exact .step fun _ => .ite (.pure (by simp)) (.pure (by simp))

namespace After

theorem callFrom (callee : Expression) (types : List Tree) :
    After text (spans text callee ++ spans text types) (callFrom g callee types) := by
  unfold Reading.callFrom
  exact .take fun _ _ => .pure (by simp)

theorem taggedTemplate (callee : Expression) (types : List Tree) :
    After text (spans text callee ++ spans text types) (taggedTemplate g callee types) := by
  unfold Reading.taggedTemplate
  refine .take (h := .template (k := ⟨.take fun _ _ => .pure (by simp)⟩)) fun _ _ => ?_
  exact .pure (by simp)

theorem genericCall? (noCall : Bool) (callee : Expression) :
    After text (spans text callee) (genericCall? g noCall callee) := by
  refine .attempt (.take fun types _ => .step fun _ => .ite ?_ (.step fun _ => .ite ?_ .fault))
  · exact .pass (callFrom g callee types) fun _ h => .pure (by simp) h
  · exact .pass (taggedTemplate g callee types) fun _ h => .pure (by simp) h

theorem optionalMember (object : Expression) (types : List Tree) :
    After text (spans text object ++ spans text types) (optionalMember g object types) := by
  unfold Reading.optionalMember
  refine .step fun _ => .ite ?_ (.step fun _ => .ite (callFrom g object types) ?_)
  · exact .take fun _ _ => .step fun _ => .pure (by simp)
  · exact .step fun _ => .pure (by simp)

theorem subscript (noCall noIndex : Bool) (object : Expression) (hobject : Sound text object) :
    After text (spans text object) (subscript g noCall noIndex object) := by
  unfold Reading.subscript
  refine .step fun _ => .step fun _ => .ite ?_ ?_
  · exact .stepIf (.step fun _ => .pure (by simp) ⟨trivial, trivial⟩)
  · refine .step fun _ => .step fun _ => ?_
    extract_lets rest
    have hrest : After text (spans text object) (rest ()) := by
      refine .take fun types? _ => ?_
      extract_lets types optional instantiated bare
      have htypes : spans text types? = spans text types := by cases types? <;> simp [types]
      have hinstantiated : List.Sublist (spans text instantiated) (spans text object ++ spans text types) ∧
          Sound text instantiated := by
        cases types? with
        | none => exact ⟨List.sublist_append_left _ _, hobject⟩
        | some types => exact ⟨by simp [instantiated, types], by simp [Sound, known, instantiated]⟩
      have hbare : After text (spans text object ++ spans text types) (bare ()) := by
        refine .step fun _ => .ite (.pass ((taggedTemplate g instantiated []).weaken ?_) ?_) ?_
        · simpa using hinstantiated.1
        · exact fun _ h => .pure (by simp) ⟨h, trivial⟩
        · exact .pure (by simpa using hinstantiated.1) ⟨hinstantiated.2, trivial⟩
      rw [htypes]
      refine .step fun _ => .ite ?_ (.step fun _ => .ite ?_ (.step fun _ => .ite ?_ ?_))
      · exact .stepIf (.pass (optionalMember g object types)
          fun _ h => .pure (by simp) ⟨h, trivial⟩)
      · exact .take fun _ _ => .step fun _ => .pure (by simp) ⟨trivial, trivial⟩
      · exact .step fun _ => .pure (by simp) ⟨trivial, trivial⟩
      · refine .step fun _ => .ite (.pass (callFrom g object types) ?_) (.stepIf hbare)
        exact fun _ h => .pure (by simp) ⟨h, trivial⟩
    refine .ite (.passOption (genericCall? g noCall object) ?_ hrest) hrest
    exact fun call hcall => .pure (by simp) ⟨hcall, trivial⟩

theorem subscriptsUpTo (noCall noIndex : Bool) (n : Nat) :
    ∀ object : Expression, Sound text object →
      After text (spans text object) (subscriptsUpTo g noCall noIndex n object) := by
  induction n with
  | zero => exact fun object hobject => .pure (by simp) hobject
  | succ n ih =>
    intro object hobject
    refine .pass (subscript g noCall noIndex object hobject) ?_
    rintro ⟨next, more⟩ ⟨hnext, -⟩
    cases more with
    | true => exact (ih next hnext).weaken (by simp)
    | false => exact .pure (by simp) hnext

theorem subscripts (noCall noIndex : Bool) (object : Expression) (hobject : Sound text object) :
    After text (spans text object) (subscripts g noCall noIndex object) :=
  .step fun n => subscriptsUpTo g noCall noIndex n object hobject

end After

instance Lays.importExpression (start : Nat) (noCall : Bool) :
    Lays text (importExpression g start noCall) where
  after := by
    have hmeta : After text [] (subscripts g noCall false ⟨start, .other, .none⟩) :=
      .subscripts g noCall false ⟨start, .other, .none⟩ trivial
    have hword : After text [] (subscripts g noCall false ⟨start, .importWord, .none⟩) :=
      .subscripts g noCall false ⟨start, .importWord, .none⟩ trivial
    unfold Reading.importExpression
    refine .step fun _ => .ite (.step fun word => ?_) hword
    split
    · exact hmeta
    · exact hword
    · exact hword
    · exact .unexpected

/-! ### Parentheses and arrow functions -/

instance : Laid text ParenthesizedItem := ⟨fun item => spans text item.value, fun _ => True⟩

@[simp]
theorem Laid.spans_parenthesizedItem :
    (spans text : ParenthesizedItem → List Span) = fun item => spans text item.value.tree := rfl

theorem After.arrowFrom (start : Nat) (typeParams params result : List Tree) :
    After text (spans text typeParams ++ spans text params ++ spans text result)
      (arrowFrom g start typeParams params result) := by
  unfold Reading.arrowFrom
  exact .take fun _ _ => .pure (by simp)

theorem After.assignmentFrom (left : Expression) (hleft : Sound text left) :
    After text (spans text left) (assignmentFrom g left) := by
  unfold Reading.assignmentFrom
  refine .step fun _ => .ite ?_ (.pure (by simp) hleft)
  split <;> first | exact .step fun _ => .take fun _ _ => .pure (by simp) | exact .faultAt _

namespace Moves

instance asPattern (e : Expression) : Moves text (asPattern e) := by
  unfold Reading.asPattern
  split <;> infer_instance

instance marksOptional : Moves text marksOptional := by
  unfold Reading.marksOptional
  refine bind (k := fun _ => ite (h := bind (k := fun t => ?_)))
  split <;> infer_instance

end Moves

namespace Lays

instance branches : Lays text (branches g) where
  after := .take fun _ _ => .step fun _ => .take fun _ _ => .pure (by simp)

instance parenthesizedValue : Lays text (parenthesizedValue g) where
  after := by
    unfold Reading.parenthesizedValue
    refine .step fun _ => .step fun _ => .step fun _ => .ite ?_ ?_
    · refine .step fun _ => .take fun value hvalue => .ite (.pure (by simp) ⟨trivial, hvalue⟩) ?_
      exact .pass (.assignmentFrom g value hvalue) fun _ h => .pure (by simp) ⟨trivial, h⟩
    · exact .step fun _ => .take fun _ h => .pure (by simp) ⟨trivial, h⟩

instance parenthesizedItem : Lays text (parenthesizedItem g) where
  after := by
    unfold Reading.parenthesizedItem
    refine .step fun start => .step fun _ => .step fun _ => .take fun value hvalue => ?_
    refine .step fun optional => ?_
    extract_lets last rest
    have hlast : ∀ e : Expression, After text (spans text e) (last e) := by
      intro e
      refine .step fun _ => .ite (.step fun _ => .take fun type _ => ?_) (.pure (by simp))
      refine .take (h := .treesIf (k := ⟨.take fun _ _ => .pure (by simp)⟩)) fun value _ => ?_
      exact .pure (by simp)
    have hrest : After text (spans text value.2) (rest ()) := by
      refine .step fun _ => .ite (.take fun trees _ => ?_) (.pureBind (hlast value.2))
      exact .pureBind ((hlast _).weaken (by simp))
    rw [List.nil_append]
    refine .ite (.step fun _ => ?_) hrest
    split
    · exact hrest
    · exact .step fun _ => hrest

instance parenthesizedItems : Lays text (parenthesizedItems g) where
  after := by
    refine .within _ (.step fun _ => .take (h := .collect (h := ⟨?_⟩)) fun items _ => ?_)
    · refine .step fun _ => .ite (.pure (by simp)) (.take fun _ _ => .step fun _ => ?_)
      exact .stepUnless (.pure (by simp))
    · exact .step fun _ => .pure (by simp)

instance arrowResult? : Lays text (arrowResult? g) where
  after := by
    refine .step fun _ => .step fun _ => .ite (.pure (by simp)) (.attempt ?_)
    exact .take fun _ _ => .step fun _ => .stepUnless (.pure (by simp))

end Lays

namespace After

/-- Items are taken for parameters as they are. -/
theorem itemsAsParameters {items : List ParenthesizedItem} :
    Settles (itemsAsParameters items) (items.map fun item => item.value.tree) := by
  unfold Reading.itemsAsParameters
  induction items with
  | nil => exact .pure []
  | cons item items ih =>
    have hpattern : Settles (asPattern item.value) () := by
      unfold Reading.asPattern
      split <;> first | exact .pure () | exact .fault fun _ _ => ⟨_, rfl⟩
    rw [List.mapM_cons]
    refine .bind ?_ (.bind ih (.pure _))
    dsimp only
    split
    · exact .pure _
    · exact .bind hpattern (.pure _)

theorem conditionalArrow? (start : Nat) (items : List ParenthesizedItem) :
    After text (spans text items) (conditionalArrow? g start items) := by
  refine .step fun _ => .step fun _ => .ite (.attempt (.take fun result _ => ?_)) (.pure (by simp))
  refine .step fun _ => .settled itemsAsParameters ?_
  refine .pass ((arrowFrom g start [] _ [result]).weaken (by simp [List.flatMap_map])) ?_
  exact fun arrow h => .step fun _ => .step fun _ => .stepIf (.pure (by simp) h)

theorem itemsAsExpression (start : Nat) (async : Bool) (items : List ParenthesizedItem) :
    After text (spans text items) (itemsAsExpression start async items) := by
  unfold Reading.itemsAsExpression
  refine .ite (.pure (by simp [List.flatMap_map])) (.stepIf ?_)
  split
  · exact .faultAt _
  · exact .pure (by simp [List.flatMap_map])

end After

instance Lays.parenthesized (canBeArrow async : Bool) (start : Nat) :
    Lays text (parenthesized g canBeArrow async start) where
  after := by
    unfold Reading.parenthesized
    refine .take fun items _ => .passOption (.conditionalArrow? g start items) ?_ ?_
    · exact fun arrow h => .pure (by simp) h
    · refine .take fun result _ => .step fun _ => .ite ?_ ?_
      · refine .step fun _ => .stepIf (.step fun _ => .settled After.itemsAsParameters ?_)
        exact (After.arrowFrom g start [] _ _).weaken (by simp [List.flatMap_map])
      · exact (After.itemsAsExpression start async items).weaken (by simp)

namespace Lays

instance genericAsyncArrow (start : Nat) : Lays text (genericAsyncArrow g start) where
  after := by
    unfold Reading.genericAsyncArrow
    refine .take fun _ _ => .step fun _ => .take fun params _ => .step fun _ => ?_
    refine .take fun result _ => .step fun _ => ?_
    exact (After.arrowFrom g start _ _ _).weaken (by simp [List.flatMap_map])

instance asyncFunction? (canBeArrow : Bool) : Lays text (asyncFunction? g canBeArrow) where
  after := by
    unfold Reading.asyncFunction?
    refine .step fun start => .step fun _ => .ite ?_ (.step fun _ => ?_)
    · exact .step fun _ => .take fun _ _ => .pure (by simp)
    · extract_lets rest
      have hrest : After text [] (rest ()) := by
        refine .step fun next => .ite ?_ (.pure (by simp))
        exact .step fun _ => .take fun _ h => .pure (by simp) h
      refine .ite (.take (h := .attempt (h := ⟨?_⟩)) fun arrow h => ?_) hrest
      · exact .step fun _ => .take fun _ h => .pure (by simp) h
      · exact .ite (.pure (by simp) h) (hrest.weaken (List.nil_sublist _))

instance nameOrArrow (canBeArrow : Bool) : Lays text (nameOrArrow g canBeArrow) where
  after := by
    unfold Reading.nameOrArrow
    refine .step fun start => .step fun name => .step fun _ => .step fun _ => .ite ?_ ?_
    · refine .step fun _ => .step fun _ => .ite (.take fun _ _ => .pure (by simp)) ?_
      exact .step fun _ => .arrowFrom g start [] [] []
    · exact .step fun _ => .step fun _ => .ite (.arrowFrom g start [] [] []) (.pure (by simp))

instance wordExpression (canBeArrow : Bool) (name : String) :
    Lays text (wordExpression g canBeArrow name) where
  after := by
    unfold Reading.wordExpression
    refine .step fun start => ?_
    split
    · exact .step fun _ => .pure (by simp)
    · exact .step fun _ => .pure (by simp)
    · exact .step fun _ => .pure (by simp)
    · exact .step fun _ => .pure (by simp)
    · exact .take fun _ _ => .pure (by simp)
    · exact .take fun _ _ => .pure (by simp)
    · extract_lets last rest
      have hrest : After text [] (rest ()) := .ite (.step fun _ => .tail) .tail
      refine .ite (.take fun expression h => ?_) hrest
      split
      · exact .pure (by simp) h
      · exact hrest.weaken (List.nil_sublist _)

instance primary : Lays text (primary g) where
  after := by
    have hregex : ∀ start, After text [] (Reading.primary.regexHere start) := fun start =>
      .step fun _ => .stepUnless (.step fun _ => .pure (by simp))
    unfold Reading.primary
    refine .step fun start => .step fun s => .token fun t => ?_
    split
    case h_10 => exact .rescan rfl (fun _ _ _ => scanned_readRegex) readRegex_ne_word (hregex start)
    case h_11 => exact .rescan rfl (fun _ _ _ => scanned_readRegex) readRegex_ne_word (hregex start)
    all_goals apply After.at
    · exact .tail
    · exact .step fun _ => .pure (by simp)
    · exact .step fun _ => .pure (by simp)
    · exact .step fun _ => .pure (by simp)
    · exact .take (h := .template (k := ⟨.take fun _ _ => .pure (by simp)⟩)) fun _ _ => .pure (by simp)
    · exact .take (h := .template (k := ⟨.take fun _ _ => .pure (by simp)⟩)) fun _ _ => .pure (by simp)
    · exact .take fun _ _ => .pure (by simp)
    · exact .take fun _ _ => .pure (by simp)
    · exact .tail
    · exact .step fun _ => .pure (by simp)
    · exact .unexpected

end Lays

/-! ### Operators -/

namespace Lays

instance newTypeArguments : Lays text (newTypeArguments g) where
  after := by
    unfold Reading.newTypeArguments Reading.newTypeArguments.treesOf
    refine .take (h := ⟨?_⟩) fun types _ => .pure ?_
    · refine .step fun _ => .step fun _ => .ite (.attempt ?_) (.pure (by simp))
      rw [map_eq_pure_bind]
      exact .take fun _ _ => .pure (by simp)
    · cases types <;> simp

instance newExpression (inner : Bool) : Lays text (newExpression g inner) where
  after := by
    unfold Reading.newExpression
    refine .step fun start => .step fun _ => .step fun _ => .ite ?_ (.take fun callee hcallee => ?_)
    · exact .step fun _ => .stepUnless (.subscripts g true false ⟨start, .other, .none⟩ trivial)
    · split
      · exact .pure (by simp) hcallee
      · refine .take fun types _ => .step fun _ => .ite ?_ (.pure (by simp))
        refine .step fun bare => .take fun inputs _ => ?_
        refine (After.subscripts g true false _ ?_).weaken (by simp)
        cases bare <;> trivial

instance memberExpression (inner : Bool) : Lays text (memberExpression g inner) where
  after := by
    unfold Reading.memberExpression
    refine .step fun start => .step fun _ => .ite .tail (.step fun _ => .ite ?_ ?_)
    · exact .subscripts g true false ⟨start, .superWord, .none⟩ trivial
    · refine .step fun _ => .ite .tail (.take fun object hobject => ?_)
      split
      · exact .pure (by simp) hobject
      · refine .take fun types? _ => ?_
        split
        · exact (After.subscripts g true false _ (by simp [Sound, known])).weaken (by simp)
        · exact (After.subscripts g true false object hobject).weaken (by simp)

instance callTypeArguments? : Lays text (callTypeArguments? g) where
  after := by
    refine .step fun _ => .step fun _ => .ite (.attempt ?_) (.pure (by simp))
    exact .take fun _ _ => .step fun _ => .ite (.pure (by simp)) (.pure (by simp))

instance callExpression : Lays text (callExpression g) where
  after := by
    unfold Reading.callExpression
    refine .step fun start => .step fun _ => .ite ?_ (.step fun _ => .ite .tail ?_)
    · exact .subscripts g false false ⟨start, .superWord, .none⟩ trivial
    · refine .take fun callee hcallee => ?_
      split
      · exact .pure (by simp) hcallee
      · exact .pure (by simp) hcallee
      · refine .take fun types _ => .step fun _ => .ite ?_ (.pure (by simp) hcallee)
        refine .pass ((After.callFrom g callee (types.getD [])).weaken ?_) ?_
        · cases types <;> simp
        · exact fun call hcall => .subscripts g false false call hcall

instance awaitExpression : Lays text (awaitExpression g) where
  after := by
    unfold Reading.awaitExpression
    refine .step fun start => .step fun _ => .step fun _ => .stepIf ?_
    refine .step fun _ => .step fun _ => .ite (.pure (by simp)) ?_
    exact .take fun _ _ => .pure (by simp)

instance angleAssertion (start : Nat) : Lays text (angleAssertion g start) where
  after := by
    unfold Reading.angleAssertion
    refine .step fun _ => .step fun _ => .ite ?_ ?_
    · exact .step fun _ => .take fun _ _ => .pure (by simp)
    · exact .take fun _ _ => .step fun _ => .take fun _ _ => .pure (by simp)

instance signedOperand (start : Nat) : Lays text (signedOperand g start) where
  after := .step fun _ => .take fun operand _ => .pure (by cases operand <;> simp)

instance unaryExpression : Lays text (unaryExpression g) where
  after := by
    unfold Reading.unaryExpression
    refine .step fun start => .step fun t => ?_
    split
    case h_12 =>
      refine .take fun operand h => ?_
      split
      · exact .pure (by simp) h
      · refine .step fun _ => .ite (.pure (by simp) h) (.step fun _ => ?_)
        exact .ite (.pure (by simp)) (.pure (by simp) h)
    all_goals first | exact .tail | exact .step fun _ => .take fun _ _ => .pure (by simp)

end Lays

instance Moves.atOperator : Moves text atOperator := by
  unfold Reading.atOperator
  refine bind (k := fun t => ?_)
  split <;> infer_instance

instance Lays.ascription? : Lays text (ascription? g) where
  after := by
    refine .step fun _ => .ite (.pure (by simp)) (.step fun _ => .step fun _ => .ite ?_ ?_)
    · exact .step fun _ => .step fun _ => .pure (by simp)
    · refine .step fun _ => .step fun _ => .ite ?_ (.pure (by simp))
      refine .take (h := .inType (h := ⟨.step fun _ => .tail⟩)) fun _ _ => .pure (by simp)

theorem After.operationFrom (left : Expression) (hleft : Sound text left) :
    After text (spans text left) (operationFrom g left) := by
  unfold Reading.operationFrom
  refine .take (h := .collect (h := ⟨?_⟩)) fun steps _ => ?_
  · refine .take fun type _ => ?_
    split
    · exact .pure (by simp) ⟨trivial, trivial⟩
    · refine .step fun _ => .ite ?_ (.pure (by simp))
      exact .step fun _ => .take fun _ _ => .pure (by simp) ⟨trivial, trivial⟩
  · split
    · exact .pure (by simp) hleft
    · refine .pure (by simp [List.flatMap_map]) ?_
      dsimp only
      split <;> trivial

namespace Lays

/-- An operand that is given up leaves no references behind. -/
instance firstOperand : Lays text (firstOperand g) where
  after := by
    intro mode s lo hs hfits
    have hoperand := (Lays.unaryExpression g).after mode s lo hs hfits
    unfold Reading.firstOperand
    cases hrun : Reading.unaryExpression g mode s with
    | ok e t =>
      rw [hrun] at hoperand
      exact hoperand
    | error fault t =>
      rw [hrun] at hoperand
      dsimp only
      split
      · exact ⟨hoperand.1, hoperand.2, Nat.le_trans hfits hoperand.2.front_le, trivial⟩
      · exact hoperand

instance operationExpression : Lays text (operationExpression g) where
  after := by
    unfold Reading.operationExpression
    refine .take fun left hleft => ?_
    split
    · exact .pure (by simp) hleft
    · exact .operationFrom g left hleft

instance conditionalExpression : Lays text (conditionalExpression g) where
  after := by
    unfold Reading.conditionalExpression
    refine .take fun test htest => ?_
    split
    · exact .pure (by simp) htest
    · exact .step fun _ => .ite (.take fun _ _ => .pure (by simp)) (.pure (by simp) htest)

instance genericArrow? : Lays text (genericArrow? g) where
  after := by
    refine .step fun _ => .ite (.attempt (.take fun typeParams _ => ?_)) (.pure (by simp))
    refine .take fun arrow _ => ?_
    split
    · exact .pure (by simp)
    · exact .fault

instance yieldExpression : Lays text (yieldExpression g) where
  after := by
    unfold Reading.yieldExpression
    refine .step fun start => .step fun _ => .step fun _ => .step fun _ => .step fun _ => ?_
    exact .ite (.pure (by simp)) (.step fun _ => .take fun _ _ => .pure (by simp))

instance assignmentExpression : Lays text (assignmentExpression g) where
  after := by
    unfold Reading.assignmentExpression
    refine .take fun arrow harrow => ?_
    split
    · exact .pure (by simp) harrow
    · refine .step fun _ => .step fun _ => .ite .tail ?_
      refine .step fun start => .step fun t => .step fun _ => .take fun left hleft => ?_
      split
      · exact .pure (by simp) hleft
      · exact .pure (by simp) hleft
      · exact (After.assignmentFrom g left hleft).weaken (by simp)

end Lays

/-! ### Classes -/

namespace Lays

instance heritageElement : Lays text (heritageElement g) where
  after := by
    refine .step fun start => .step fun _ => ?_
    refine .pass (.subscripts g true true ⟨start, .other, .none⟩ trivial) fun base _ => ?_
    exact .take fun _ _ => .pure (by simp)

instance heritage : Lays text (heritage g) := commaList

instance superclass : Lays text (superclass g) where
  after := by
    unfold Reading.superclass
    refine .take fun base hbase => ?_
    split
    · next inner arguments hshape =>
      simp only [Sound, known, hshape] at hbase
      exact .pure (by simpa using hbase) ⟨trivial, trivial⟩
    · exact .take fun _ _ => .pure (by simp) ⟨trivial, trivial⟩

end Lays

namespace Moves

instance atMethod : Moves text atMethod := by unfold Reading.atMethod; infer_instance

instance atProperty (lineEnds : Bool) : Moves text (atProperty lineEnds) := by
  unfold Reading.atProperty
  refine bind (k := fun t => ?_)
  split <;> infer_instance

instance eatAccessor : Moves text eatAccessor := by unfold Reading.eatAccessor; infer_instance

end Moves

namespace After

theorem methodFrom (key : Tree) (generator : Bool) :
    After text (spans text key) (methodFrom g key generator) := .take fun _ _ => .pure (by simp)

theorem propertyFrom (key : Tree) (isOptional : Bool) :
    After text (spans text key) (propertyFrom g key isOptional) := by
  refine .ite ?_ (.step fun _ => ?_) <;> refine .take fun type _ => ?_ <;>
    refine .take (h := .treesIf (k := ⟨.take fun _ _ => .pure (by simp)⟩)) fun value _ => ?_ <;>
    exact .step fun _ => .pure (by simp)

end After

namespace Lays

instance constructorFrom : Lays text (constructorFrom g) where
  after := by
    unfold Reading.constructorFrom
    refine .step fun _ => ?_
    extract_lets rest
    have hrest : After text [] (rest ()) := by
      refine .step fun _ => .take fun params _ => .step fun _ => .step fun _ => ?_
      extract_lets last
      have hlast : After text (spans text params) (last ()) :=
        .take fun _ _ => .pure (by simp [List.flatMap_map])
      exact .ite (.step fun _ => hlast) hlast
    refine .ite (.step fun _ => .ite ?_ ?_) hrest
    · exact .step fun _ => .step fun _ => hrest
    · exact .step fun _ => hrest

instance memberNamedByModifier? (lineEnds : Bool) :
    Lays text (memberNamedByModifier? g lineEnds) where
  after := by
    have hmethod : After text [] (methodFrom g .none false >>= fun tree => pure (some tree)) :=
      .pass (.methodFrom g .none false) fun _ _ => .pure (by simp)
    unfold Reading.memberNamedByModifier?
    refine .step fun _ => .ite hmethod (.step fun _ => .step fun _ => .ite ?_ (.pure (by simp)))
    refine .step fun isOptional => .step fun _ => .ite hmethod ?_
    exact .pass (.propertyFrom g .none isOptional) fun _ _ => .pure (by simp)

instance keyedMember : Lays text (keyedMember g) where
  after := by
    unfold Reading.keyedMember
    refine .step fun start => .take fun key _ => .step fun isOptional => .step fun _ => .ite ?_ ?_
    · exact .ite .tail ((After.methodFrom g key.2 false).weaken (by simp))
    · refine .step fun _ => .step fun _ => .step fun _ => .step fun _ => .ite ?_ ?_
      · exact .stepIf ((After.propertyFrom g key.2 isOptional).weaken (by simp))
      · refine .step fun _ => .ite ?_ (.ite ?_ .unexpected)
        · refine .step fun _ => .step fun generator => .take fun key' _ => .step fun _ => ?_
          exact (After.methodFrom g key'.2 generator).weaken (by simp)
        · exact .take fun key' _ => (After.methodFrom g key'.2 false).weaken (by simp)

instance staticBlock : Lays text (staticBlock g) := block g

instance memberAfterStatic (isStatic hasAccess : Bool) :
    Lays text (memberAfterStatic g isStatic hasAccess) where
  after := by
    unfold Reading.memberAfterStatic
    refine .step fun _ => .step fun _ => .step fun _ => .ite .tail ?_
    refine .step fun _ => .step fun _ => .ite (.step fun _ => .tail) ?_
    extract_lets rest
    have hrest : After text [] (rest ()) := by
      refine .step fun _ => .ite (.take fun key _ => ?_) .tail
      exact (After.methodFrom g key.2 true).weaken (by simp)
    refine .ite hrest (.take fun index _ => ?_)
    split
    · exact .pure (by simp)
    · exact hrest.weaken (List.nil_sublist _)

instance classMember : Lays text (classMember g) where
  after := by
    unfold Reading.classMember
    refine .step fun declared => .step fun access => ?_
    extract_lets last rest
    have hlast : After text [] (last ()) := by
      refine .step fun isStatic => .ite (.step fun _ => .ite .tail ?_) .tail
      refine .take fun member _ => ?_
      split
      · exact .pure (by simp)
      · exact .tail
    have hrest : ∀ b, After text [] (rest b) := by
      refine fun b => .ite (.take fun member _ => ?_) hlast
      split
      · exact .pure (by simp)
      · exact hlast.weaken (List.nil_sublist _)
    exact .ite (.pureBind (hrest true)) (.step hrest)

instance classMembers : Lays text (classMembers g) := by
  refine collect (h := ⟨?_⟩)
  refine .step fun _ => .step fun _ => .ite (.pure (by simp)) ?_
  exact .step fun _ => .ite (.pure (by simp)) (.take fun _ _ => .pure (by simp))

end Lays

/-- A class holds what has been read of it, but for a superclass that is named twice. -/
theorem Laid.spans_classTree (typeParams : List Tree) (base : Option (Tree × List Tree))
    (interfaces : List Tree) (late : Option (Tree × List Tree)) (members : List Tree) :
    List.Sublist (spans text (classTree typeParams base interfaces late members))
      (spans text typeParams ++ spans text base ++ spans text interfaces ++ spans text late ++ spans text members) := by
  cases base <;> cases late <;> simp [Reading.classTree]

namespace Lays

instance classFrom : Lays text (classFrom g) where
  after := by
    unfold Reading.classFrom
    refine .take fun typeParams _ => .take fun base _ => .step fun _ => ?_
    refine .stepIf (.step fun _ => .stepIf (.take fun interfaces _ => .step fun _ => .stepIf ?_))
    refine .take fun late _ => .step fun _ => .take fun members _ => .step fun _ => .pure ?_
    exact spans_classTree typeParams base interfaces late members

instance namedClass (required : Bool) : Lays text (namedClass g required) where
  after := by
    refine .step fun _ => .step fun _ => .ite (.step fun _ => .tail) .tail

end Lays

end AmbientBundle.Source
